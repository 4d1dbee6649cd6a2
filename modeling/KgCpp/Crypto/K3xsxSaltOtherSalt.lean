import KgCpp.Crypto.K3xsxSaltInPlace
import KgCpp.Crypto.K3xsxSaltKnownByte

/-!
# Another base salt (`crypto/k3xsx_salt.hpp`)

The base salt is the secret of the cipher: the other salts are in front of what is sent.
Here `k` encrypts and `k'` decrypts.

- `decryption_otherSalt`: `decryption` does not notice. It returns `true` and the message
  with the bits of each byte rotated, by as many places as the base salts are apart, and
  xored with one byte that is the same for all of them.
- `opens_always_iff`: only with the base salt it was encrypted with can one be sure to read a
  message.
- `opens_apart_iff`: but a base salt 128 apart reads all messages encrypted with one in
  eight of the second salts.
-/

namespace KgCpp.Crypto

open Lib

/-! ## Bits -/

theorem bit_zero (i : Nat) : bit 0 i = false := BitVec.getLsbD_zero

theorem bit_one (i : Nat) : bit 1 i = decide (i = 0) := by
  show (1#8).getLsbD i = _
  rw [BitVec.getLsbD_one]
  simp

theorem shrLoop_xor (a b : Byte) (n : Nat) : shrLoop a n ^^^ shrLoop b n = shrLoop (a ^^^ b) n :=
  bit_ext fun i hi => by
    rw [bit_xor, bit_shrLoop hi, bit_shrLoop hi, bit_shrLoop hi, bit_xor]

/-- Only the number of places mod 8 counts. -/
theorem shlLoop_congr {n n' : Nat} (h : n % 8 = n' % 8) (b : Byte) :
    shlLoop b n = shlLoop b n' := by
  rw [shlLoop, shlLoop, h]

/-- There and back by two rotations, on the mirrored byte. -/
theorem mirror_shrLoop_shlLoop (b : Byte) {n n' t : Nat} (h : (n' + 256) % 8 = (n + t) % 8) :
    mirror (shrLoop (shlLoop (mirror b) n) n') = shlLoop b t :=
  bit_ext fun i hi => by
    have hplace : 7 - (((7 - i + n' % 8) % 8 + 8 - n % 8) % 8) = (i + 8 - t % 8) % 8 := by omega
    rw [bit_mirror hi, bit_shrLoop (by omega), bit_shlLoop (Nat.mod_lt _ (by decide)),
      bit_mirror (Nat.mod_lt _ (by decide)), bit_shlLoop hi, hplace]

/-- Assigning `c ^ y` instead of `c ^ x`. -/
theorem flipBits_other (c : Byte) (x y : BitVec 32) :
    flipBits c y = flipBits c x ^^^ truncate (x ^^^ y) :=
  bit_ext fun i hi => by
    rw [bit_xor, bit_flipBits hi, bit_flipBits hi, bit_truncate, BitVec.getLsbD_xor]
    cases bit c i <;> cases x.getLsbD i <;> cases y.getLsbD i <;> simp [hi]

theorem xor_flipBits (a b : Byte) (x : BitVec 32) :
    flipBits (a ^^^ b) x = flipBits a x ^^^ b :=
  bit_ext fun i hi => by
    rw [bit_xor, bit_flipBits hi, bit_flipBits hi, bit_xor]
    cases bit a i <;> cases bit b i <;> cases x.getLsbD i <;> rfl

/-- A rotation shows by how many places it is. -/
theorem places_of_shlLoop {n n' : Nat} (h : ∀ b, shlLoop b n = shlLoop b n') :
    n % 8 = n' % 8 := by
  -- where the one bit of 1 goes
  have hn : n % 8 < 8 := Nat.mod_lt _ (by decide)
  have hplace : bit (shlLoop 1 n) (n % 8) = bit (shlLoop 1 n') (n % 8) := by rw [h]
  rw [bit_shlLoop hn, bit_shlLoop hn, bit_one, bit_one, decide_eq_true (by omega)] at hplace
  have := of_decide_eq_true hplace.symm
  omega

theorem truncate_xor (x y : BitVec 32) : truncate (x ^^^ y) = truncate x ^^^ truncate y :=
  bit_ext fun i hi => by
    rw [bit_xor, bit_truncate, bit_truncate, bit_truncate, BitVec.getLsbD_xor]
    simp [hi]

/-- A byte that no rotation and mirroring changes has all its bits alike. -/
theorem bit_of_shlLoop_mirror {b : Byte} {s : Nat} (hs : s < 256)
    (h : ∀ n < 8, shlLoop (mirror b) (n + s) = b) {i : Nat} (hi : i < 8) : bit b i = bit b 0 := by
  -- the rotation that takes the first place to this one
  have hplace := congrArg (bit · i) (h ((i + 257 - s) % 8) (Nat.mod_lt _ (by decide)))
  rw [bit_shlLoop hi, bit_mirror (Nat.mod_lt _ (by decide))] at hplace
  rw [← hplace]
  congr 1
  omega

/-- Adding 128 flips one bit. -/
theorem xor_add_128 (b : Byte) : b ^^^ (b + 128) = 128 := by
  have hbits : ∀ x : BitVec 8, x ^^^ (x + 128#8) = 128#8 := by decide +kernel
  exact UInt8.toBitVec_inj.mp (hbits b.toBitVec)

namespace K3xsxSalt

variable (k k' : K3xsxSalt)

/-! ## What `decryption` gives -/

/-- The difference of two decrypted bytes. -/
theorem decryptionByte_xor (a b : Byte) (salts : List Byte) :
    k.decryptionByte a salts ^^^ k.decryptionByte b salts =
      mirror (shrLoop (a ^^^ b) ((salts.getD 1 0).toNat + k.salt.toNat)) := by
  rw [decryptionByte_eq, decryptionByte_eq, flipBits_xor, mirror_xor, shrLoop_xor, flipBits_xor,
    sizeOfInt_salted]

/-- Decrypted byte by byte. -/
theorem decryption_bytes (rand : Nat → BitVec 32) {m dist out : List Byte}
    (hdist : m.length + saltLen ≤ dist.length) (hout : m.length ≤ out.length) :
    k'.decryption ((k.encryption rand m dist).take (m.length + saltLen)) out =
      (true, blit out 0 (m.map fun b =>
        k'.decryptionByte (k.encryptionByte b (randSalts rand)) (randSalts rand))) := by
  rw [take_encryption k rand hdist]
  have hsalts := length_randSalts rand
  generalize randSalts rand = salts at hsalts ⊢
  have hlen : (salts ++ m.map fun b => k.encryptionByte b salts).length = m.length + saltLen := by
    rw [List.length_append, List.length_map, hsalts, Nat.add_comm]
  have hfront : ∀ i < saltLen,
      (salts ++ m.map fun b => k.encryptionByte b salts).getD i 0 = salts.getD i 0 :=
    fun i hi => by rw [List.getD, List.getD, List.getElem?_append_left (by omega)]
  rw [k'.decryption_eq (by omega) (by omega), List.drop_left' hsalts, List.map_map]
  congr 2
  exact List.map_congr_left fun b _ => decryptionByte_congr hfront _

/-- **Nothing is noticed**: with another base salt, `decryption` returns `true`, and a message
whose bytes are those of the original, each rotated and xored alike. -/
theorem decryption_otherSalt (rand : Nat → BitVec 32) :
    ∃ e : Byte, ∀ m dist out : List Byte, m.length + saltLen ≤ dist.length →
      m.length ≤ out.length →
      k'.decryption ((k.encryption rand m dist).take (m.length + saltLen)) out =
        (true, blit out 0 (m.map fun b =>
          shlLoop b (k'.salt.toNat + 256 - k.salt.toNat) ^^^ e)) := by
  have hk := k.salt.toNat_lt
  refine ⟨k'.decryptionByte (k.encryptionByte 0 (randSalts rand)) (randSalts rand),
    fun m dist out hdist hout => ?_⟩
  rw [decryption_bytes k k' rand hdist hout]
  congr 2
  refine List.map_congr_left fun b _ => ?_
  -- the difference to what becomes of the byte 0
  have hdiff := k'.decryptionByte_xor (k.encryptionByte b (randSalts rand))
    (k.encryptionByte 0 (randSalts rand)) (randSalts rand)
  rw [encryptionByte_xor, UInt8.xor_zero,
    mirror_shrLoop_shlLoop b (t := k'.salt.toNat + 256 - k.salt.toNat) (by omega)] at hdiff
  rw [← hdiff, UInt8.xor_assoc, UInt8.xor_self, UInt8.xor_zero]

/-- Base salts that are two apart: the bits go around by two places. -/
theorem decryption_otherSalt_two :
    ∃ e : Byte, (K3xsxSalt.mk 3).decryption
        (((K3xsxSalt.mk 1).encryption (fun _ => 77) [7, 254] (List.replicate 5 0)).take 5)
        [0, 0] = (true, [28 ^^^ e, 251 ^^^ e]) := by
  obtain ⟨e, he⟩ := decryption_otherSalt ⟨1⟩ ⟨3⟩ (fun _ => 77)
  refine ⟨e, (he [7, 254] (List.replicate 5 0) [0, 0] (by decide) (by decide)).trans ?_⟩
  show (true, blit [0, 0] 0 [shlLoop 7 258 ^^^ e, shlLoop 254 258 ^^^ e]) = _
  rw [show shlLoop 7 258 = 28 by decide, show shlLoop 254 258 = 251 by decide]
  rfl

/-! ## Who reads a message -/

/-- `k'` reads what `k` encrypts, whatever the message. -/
def Opens (rand : Nat → BitVec 32) : Prop :=
  ∀ m dist out : List Byte, m.length + saltLen ≤ dist.length → m.length ≤ out.length →
    k'.decryption ((k.encryption rand m dist).take (m.length + saltLen)) out =
      (true, blit out 0 m)

variable {k k'} {rand : Nat → BitVec 32}

/-- It does when both encrypt alike. -/
theorem opens_iff_bytes : k.Opens k' rand ↔
    ∀ b, k.encryptionByte b (randSalts rand) = k'.encryptionByte b (randSalts rand) := by
  constructor
  · intro h b
    have hdist : [b].length + saltLen ≤ (List.replicate 4 (0 : Byte)).length := Nat.le_refl 4
    have hout : [b].length ≤ [(0 : Byte)].length := Nat.le_refl 1
    have hone := h [b] _ _ hdist hout
    rw [decryption_bytes k k' rand hdist hout] at hone
    have hb : k'.decryptionByte (k.encryptionByte b (randSalts rand)) (randSalts rand) = b :=
      (List.cons.inj (Prod.ext_iff.mp hone).2).1
    rw [← k'.encryptionByte_decryptionByte (k.encryptionByte b (randSalts rand)), hb]
  · intro h m dist out hdist hout
    rw [decryption_bytes k k' rand hdist hout]
    congr 2
    refine (List.map_congr_left fun b _ => ?_).trans (List.map_id m)
    rw [h, decryptionByte_encryptionByte]
    rfl

/-- How far apart the two base salts take a salt. -/
def apart (k k' : K3xsxSalt) (salts : List Byte) (i : Nat) : Byte :=
  truncate (k.salted salts i ^^^ k'.salted salts i)

/-- Base salts that agree mod 8 encrypt alike up to one byte. -/
theorem encryptionByte_apart (salts : List Byte) (h : k'.salt.toNat % 8 = k.salt.toNat % 8)
    (b : Byte) : k'.encryptionByte b salts = k.encryptionByte b salts ^^^
      (shlLoop (mirror (apart k k' salts 0)) ((salts.getD 1 0).toNat + k.salt.toNat) ^^^
        apart k k' salts 2) := by
  have hplaces : ((salts.getD 1 0).toNat + k'.salt.toNat) % 8 =
      ((salts.getD 1 0).toNat + k.salt.toNat) % 8 := by omega
  rw [encryptionByte_eq, encryptionByte_eq, sizeOfInt_salted, sizeOfInt_salted,
    shlLoop_congr hplaces, flipBits_other b (k.salted salts 0), ← mirror_xor, ← shlLoop_xor,
    flipBits_other _ (k.salted salts 2), xor_flipBits, UInt8.xor_assoc]
  rfl

/-- The base salts agree mod 8, and what they change at first is undone at last. -/
theorem opens_iff_apart : k.Opens k' rand ↔ k'.salt.toNat % 8 = k.salt.toNat % 8 ∧
    shlLoop (mirror (apart k k' (randSalts rand) 0))
      (((randSalts rand).getD 1 0).toNat + k.salt.toNat) = apart k k' (randSalts rand) 2 := by
  rw [opens_iff_bytes]
  generalize randSalts rand = salts
  constructor
  · intro h
    have hrotations : ∀ b, shlLoop b ((salts.getD 1 0).toNat + k.salt.toNat) =
        shlLoop b ((salts.getD 1 0).toNat + k'.salt.toNat) := by
      intro b
      have hdiff := k.encryptionByte_xor (mirror b) 0 salts
      rw [h, h, encryptionByte_xor, UInt8.xor_zero, mirror_mirror] at hdiff
      exact hdiff.symm
    have hplaces : k'.salt.toNat % 8 = k.salt.toNat % 8 := by
      have := places_of_shlLoop hrotations
      omega
    refine ⟨hplaces, ?_⟩
    have hbyte := encryptionByte_apart salts hplaces 0
    rw [← h] at hbyte
    have hzero := congrArg (k.encryptionByte 0 salts ^^^ ·) hbyte
    rw [UInt8.xor_self, ← UInt8.xor_assoc, UInt8.xor_self, UInt8.zero_xor] at hzero
    exact UInt8.xor_eq_zero_iff.mp hzero.symm
  · rintro ⟨hplaces, hundone⟩ b
    rw [encryptionByte_apart salts hplaces, hundone, UInt8.xor_self, UInt8.xor_zero]

/-- As a byte, the sum wraps. -/
theorem truncate_salted (salts : List Byte) (i : Nat) :
    truncate (k.salted salts i) = salts.getD i 0 + k.salt := by
  have hbyte : ∀ b : Byte, (promote b).setWidth 8 = b.toBitVec := fun b => by
    rw [promote, BitVec.setWidth_setWidth_of_le _ (by decide), BitVec.setWidth_eq]
  refine UInt8.toBitVec_inj.mp ?_
  show (k.salted salts i).setWidth 8 = _
  rw [salted, BitVec.setWidth_add _ _ (by decide), hbyte, hbyte, UInt8.toBitVec_add]

/-- The byte that a base salt adds to a salt of 0. -/
theorem apart_of_zero {salts : List Byte} {i : Nat} (h : salts.getD i 0 = 0) :
    apart k k' salts i = k.salt ^^^ k'.salt := by
  rw [apart, truncate_xor, truncate_salted, truncate_salted, h, UInt8.zero_add, UInt8.zero_add]

/-- With the salts 0, `n`, 0, for a base salt that reads what they encrypt. -/
theorem shlLoop_of_opens {n : Nat} (hn : n < 8)
    (h : k.Opens k' fun i => if i = 1 then BitVec.ofNat 32 n else 0) :
    shlLoop (mirror (k.salt ^^^ k'.salt)) (n + k.salt.toNat) = k.salt ^^^ k'.salt := by
  have hsalts : ∀ n < 8, (randSalts fun i => if i = 1 then BitVec.ofNat 32 n else 0) =
      [0, UInt8.ofNat n, 0] := by decide
  have hundone := (opens_iff_apart.mp h).2
  rw [hsalts n hn, apart_of_zero rfl, apart_of_zero rfl] at hundone
  have hget : ([0, UInt8.ofNat n, 0] : List Byte).getD 1 0 = UInt8.ofNat n := rfl
  have hsize : n < UInt8.size := Nat.lt_trans hn (by decide)
  rwa [hget, UInt8.toNat_ofNat_of_lt' hsize] at hundone

/-- **Only with the same base salt** is every encrypted message read, whatever the salts. -/
theorem opens_always_iff (k k' : K3xsxSalt) : (∀ rand, k.Opens k' rand) ↔ k' = k := by
  constructor
  · intro h
    have hplaces : k'.salt.toNat % 8 = k.salt.toNat % 8 :=
      (opens_iff_apart.mp (h fun _ => 0)).1
    have hlast : bit (k.salt ^^^ k'.salt) 0 = false := by
      have hbit : ∀ b : Byte, bit b 0 = decide (b.toNat % 2 = 1) := fun b => Nat.testBit_zero _
      rw [bit_xor, hbit, hbit, show k'.salt.toNat % 2 = k.salt.toNat % 2 by omega, Bool.xor_self]
    have hsame : k.salt ^^^ k'.salt = 0 := bit_ext fun i hi => by
      rw [bit_of_shlLoop_mirror k.salt.toNat_lt (fun n hn => shlLoop_of_opens hn (h _)) hi, hlast,
        bit_zero]
    cases k
    cases k'
    exact congrArg K3xsxSalt.mk (UInt8.xor_eq_zero_iff.mp hsame).symm
  · rintro rfl rand m dist out hdist hout
    exact k'.decryption_encryption rand hdist hout

/-- **One in eight**: for base salts 128 apart, the second salt decides. -/
theorem opens_apart_iff (k k' : K3xsxSalt) (h : k'.salt = k.salt + 128) (rand : Nat → BitVec 32) :
    k.Opens k' rand ↔ (((randSalts rand).getD 1 0).toNat + k.salt.toNat) % 8 = 7 := by
  have hplaces : k'.salt.toNat % 8 = k.salt.toNat % 8 := by
    rw [h, UInt8.toNat_add]
    have : (128 : UInt8).toNat = 128 := rfl
    omega
  have hapart : ∀ i, apart k k' (randSalts rand) i = 128 := by
    intro i
    rw [apart, truncate_xor, truncate_salted, truncate_salted, h, ← UInt8.add_assoc]
    exact xor_add_128 _
  rw [opens_iff_apart, hapart, hapart, and_iff_right hplaces]
  have hmirror : mirror 128 = 1 := by decide
  rw [hmirror]
  generalize ((randSalts rand).getD 1 0).toNat + k.salt.toNat = n
  constructor
  · intro hshl
    have hlast : bit (shlLoop 1 n) 7 = true := by rw [hshl]; rfl
    rw [bit_shlLoop (by decide), bit_one] at hlast
    have := of_decide_eq_true hlast
    omega
  · intro hn
    rw [shlLoop_congr (show n % 8 = 7 % 8 from hn)]
    decide

/-- The base salts 5 and 133, the salts 2. -/
theorem opens_apart_iff_five : (K3xsxSalt.mk 5).Opens ⟨133⟩ fun _ => 2 :=
  (opens_apart_iff ⟨5⟩ ⟨133⟩ rfl fun _ => 2).mpr (by decide)

end K3xsxSalt

end KgCpp.Crypto
