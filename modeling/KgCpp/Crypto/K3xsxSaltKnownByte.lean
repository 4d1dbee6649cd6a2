import KgCpp.Crypto.K3xsxSalt

/-!
# One byte that is known (`crypto/k3xsx_salt.hpp`)

Of the three steps of `_encryption` two are an `xor` with a value that is the same for all
bytes of a message, and the other moves bits. So the difference of two encrypted bytes is
that of the message's bytes with its bits moved (`encryptionByte_xor`): neither the salts nor
the base salt hide it, but for the number of places of the rotation, which is known mod 8
up to the base salt, as the salts are in front of the message.

`readWith_encryption`: who knows one byte of a message, and the base salt mod 8, reads it
all.
-/

namespace KgCpp.Crypto

open Lib

theorem bit_xor (a b : Byte) (i : Nat) : bit (a ^^^ b) i = (bit a i ^^ bit b i) := by
  rw [bit, UInt8.toBitVec_xor, BitVec.getLsbD_xor]
  rfl

@[simp] theorem flipBits_xor (a b : Byte) (x : BitVec 32) :
    flipBits a x ^^^ flipBits b x = a ^^^ b :=
  bit_ext fun i hi => by
    rw [bit_xor, bit_flipBits hi, bit_flipBits hi, bit_xor]
    cases x.getLsbD i <;> simp

theorem mirror_xor (a b : Byte) : mirror a ^^^ mirror b = mirror (a ^^^ b) :=
  bit_ext fun i hi => by
    rw [bit_xor, bit_mirror hi, bit_mirror hi, bit_mirror hi, bit_xor]

theorem shlLoop_xor (a b : Byte) (n : Nat) : shlLoop a n ^^^ shlLoop b n = shlLoop (a ^^^ b) n :=
  bit_ext fun i hi => by
    rw [bit_xor, bit_shlLoop hi, bit_shlLoop hi, bit_shlLoop hi, bit_xor]

/-- Only the number of places mod 8 counts. -/
theorem shrLoop_congr {n n' : Nat} (h : n % 8 = n' % 8) (b : Byte) :
    shrLoop b n = shrLoop b n' := by
  rw [shrLoop, shrLoop, h]

namespace K3xsxSalt

variable (k : K3xsxSalt)

/-- The number of places of the rotation. -/
theorem sizeOfInt_salted (salts : List Byte) (i : Nat) :
    sizeOfInt (.ofBitVec (k.salted salts i)) = (salts.getD i 0).toNat + k.salt.toNat := by
  have hpromote : ∀ b : Byte, (promote b).toNat = b.toNat := by
    intro b
    rw [promote, BitVec.toNat_setWidth, Nat.mod_eq_of_lt]
    · rfl
    · have := b.toBitVec.isLt
      omega
  have hs := (salts.getD i 0).toNat_lt
  have hk := k.salt.toNat_lt
  have hnat : (k.salted salts i).toNat = (salts.getD i 0).toNat + k.salt.toNat := by
    rw [salted, BitVec.toNat_add, hpromote, hpromote, Nat.mod_eq_of_lt (by omega)]
  have hint : (Int32.ofBitVec (k.salted salts i)).toInt =
      ((salts.getD i 0).toNat + k.salt.toNat : Nat) := by
    show (k.salted salts i).toInt = _
    rw [BitVec.toInt_eq_toNat_of_lt (by omega), hnat]
  rw [sizeOfInt_of_nonneg (by rw [hint]; exact Int.natCast_nonneg _), hint, Int.toNat_natCast]

/-- The difference of two encrypted bytes. -/
theorem encryptionByte_xor (a b : Byte) (salts : List Byte) :
    k.encryptionByte a salts ^^^ k.encryptionByte b salts =
      shlLoop (mirror (a ^^^ b)) ((salts.getD 1 0).toNat + k.salt.toNat) := by
  rw [encryptionByte_eq, encryptionByte_eq, flipBits_xor, shlLoop_xor, mirror_xor, flipBits_xor,
    sizeOfInt_salted]

/-- What `encryption` writes. -/
theorem take_encryption (rand : Nat → BitVec 32) {m dist : List Byte}
    (hdist : m.length + saltLen ≤ dist.length) :
    (k.encryption rand m dist).take (m.length + saltLen) =
      randSalts rand ++ m.map fun b => k.encryptionByte b (randSalts rand) := by
  have hsalts := length_randSalts rand
  rw [encryption, k.encryptionWith_eq hsalts m hdist, blit, List.take_zero, List.nil_append]
  exact List.take_left' (by rw [List.length_append, List.length_map, hsalts, Nat.add_comm])

/-- What one makes of the encrypted bytes `c` who takes the byte at `j` of the message to be `b`,
and the base salt to be `guess`. -/
def readWith (guess j : Nat) (b : Byte) (c : List Byte) : List Byte :=
  (c.drop saltLen).map fun x =>
    mirror (shrLoop (x ^^^ c.getD (saltLen + j) 0) ((c.getD 1 0).toNat + guess)) ^^^ b

/-- **One byte is enough**: with one byte of a message of any length, and the base salt mod 8,
what `encryption` writes is read without the base salt. -/
theorem readWith_encryption (rand : Nat → BitVec 32) (m dist : List Byte)
    (hdist : m.length + saltLen ≤ dist.length) (j : Nat) (hj : j < m.length) (guess : Nat)
    (hguess : guess % 8 = k.salt.toNat % 8) :
    readWith guess j m[j] ((k.encryption rand m dist).take (m.length + saltLen)) = m := by
  rw [take_encryption k rand hdist]
  have hsalts := length_randSalts rand
  generalize randSalts rand = salts at hsalts ⊢
  have hsalt : (salts ++ m.map fun b => k.encryptionByte b salts).getD 1 0 = salts.getD 1 0 := by
    rw [List.getD, List.getD, List.getElem?_append_left (by rw [hsalts]; decide)]
  have hknown : (salts ++ m.map fun b => k.encryptionByte b salts).getD (saltLen + j) 0 =
      k.encryptionByte m[j] salts := by
    rw [List.getD, List.getElem?_append_right (by omega), hsalts, Nat.add_sub_cancel_left,
      List.getElem?_map, List.getElem?_eq_getElem hj]
    rfl
  have hread : ∀ b : Byte,
      mirror (shrLoop (k.encryptionByte b salts ^^^ k.encryptionByte m[j] salts)
        ((salts.getD 1 0).toNat + guess)) ^^^ m[j] = b := by
    intro b
    have hplaces : ((salts.getD 1 0).toNat + guess) % 8 =
        ((salts.getD 1 0).toNat + k.salt.toNat) % 8 := by omega
    rw [encryptionByte_xor, shrLoop_congr hplaces, shrLoop_shlLoop, mirror_mirror,
      UInt8.xor_assoc, UInt8.xor_self, UInt8.xor_zero]
  rw [readWith, List.drop_left' hsalts, List.map_map, hsalt, hknown]
  exact (List.map_congr_left fun b _ => hread b).trans (List.map_id m)

/-- The base salt is 200, and taken to be 0. -/
theorem readWith_encryption_two :
    readWith 0 1 7 (((K3xsxSalt.mk 200).encryption (fun _ => 77) [9, 7, 255]
      (List.replicate 6 0)).take 6) = [9, 7, 255] :=
  readWith_encryption ⟨200⟩ (fun _ => 77) [9, 7, 255] (List.replicate 6 0) (by decide) 1
    (by decide) 0 (by decide)

end K3xsxSalt

end KgCpp.Crypto
