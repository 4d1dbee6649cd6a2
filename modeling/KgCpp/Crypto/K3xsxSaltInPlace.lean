import KgCpp.Crypto.K3xsxSalt
import KgCpp.Lib.Overlap

/-!
# The cipher in memory

`encryption` and `decryption` are given pointers, and write byte after byte while
they read: the message, and the salts again for each byte. Nothing keeps a program from
passing pointers into the same memory, and the header does not say what happens then.

`encryption_apart_iff` and `decryption_apart_iff` say when the result is that of
separate memories, whatever the memories hold. They differ: a message may be encrypted
to where the salts come in front of it, and decrypted from there, in place
(`in_place`); but `dist` must not be `src`.
-/

namespace KgCpp.Crypto

open Lib

/-- The `n` bytes at a pointer. -/
def bytesAt (f : Nat → Byte) (p n : Nat) : List Byte := (List.range n).map fun i => f (p + i)

namespace K3xsxSalt

/-- `_rand_salts`. -/
def randSaltsAt (rand : Nat → BitVec 32) (salts : Nat) (f : Nat → Byte) : Nat → Byte :=
  writeEach f (salts + ·) (fun i _ => truncate (rand i % 255)) saltLen

/-- `encryption`. -/
def encryptionAt (k : K3xsxSalt) (rand : Nat → BitVec 32) (src n dist : Nat)
    (f : Nat → Byte) : Nat → Byte :=
  writeEach (randSaltsAt rand dist f) (fun i => dist + (saltLen + i))
    (fun i f => k.encryptionByte (f (src + i)) (bytesAt f dist saltLen)) n

/-- `decryption`. -/
def decryptionAt (k : K3xsxSalt) (src n dist : Nat) (f : Nat → Byte) : Bool × (Nat → Byte) :=
  if n < saltLen then (false, f)
  else if n = saltLen then (true, f)
  else (true, writeEach f (dist + ·)
    (fun i f => k.decryptionByte (f (src + (i + saltLen))) (bytesAt f src saltLen)) (n - saltLen))

end K3xsxSalt

/-! ## Bytes at a pointer -/

section Bytes

variable {f g : Nat → Byte} {p n : Nat}

@[simp] theorem length_bytesAt (f : Nat → Byte) (p n : Nat) : (bytesAt f p n).length = n := by
  rw [bytesAt, List.length_map, List.length_range]

theorem getElem?_bytesAt {i : Nat} (hi : i < n) : (bytesAt f p n)[i]? = some (f (p + i)) := by
  rw [bytesAt, List.getElem?_map, List.getElem?_range hi, Option.map_some]

theorem getD_bytesAt {i : Nat} (hi : i < n) : (bytesAt f p n).getD i 0 = f (p + i) := by
  rw [List.getD_eq_getElem?_getD, getElem?_bytesAt hi, Option.getD_some]

theorem bytesAt_congr (h : ∀ i < n, f (p + i) = g (p + i)) : bytesAt f p n = bytesAt g p n :=
  List.map_congr_left fun i hi => h i (List.mem_range.mp hi)

theorem bytesAt_eq_map_iff {q : Nat} {h : Byte → Byte} :
    bytesAt f p n = (bytesAt g q n).map h ↔ ∀ i < n, f (p + i) = h (g (q + i)) := by
  rw [bytesAt, bytesAt, List.map_map, List.map_inj_left]
  exact forall_congr' fun i => by rw [List.mem_range, Function.comp_apply]

theorem bytesAt_add (f : Nat → Byte) (p m n : Nat) :
    bytesAt f p (m + n) = bytesAt f p m ++ bytesAt f (p + m) n := by
  rw [bytesAt, List.range_add, List.map_append, List.map_map]
  refine congrArg (bytesAt f p m ++ ·) (List.map_congr_left fun i _ => ?_)
  exact congrArg f (Nat.add_assoc ..).symm

end Bytes

namespace K3xsxSalt

/-- Assigning to the whole block. -/
theorem blit_all {l src : List Byte} (h : src.length = l.length) : blit l 0 src = src := by
  rw [blit, List.take_zero, List.nil_append, List.drop_of_length_le (by omega), List.append_nil]

theorem encryptionByte_injective (k : K3xsxSalt) (salts : List Byte) :
    Function.Injective fun b => k.encryptionByte b salts :=
  Function.LeftInverse.injective (g := fun b => k.decryptionByte b salts) fun b =>
    k.decryptionByte_encryptionByte b salts

theorem decryptionByte_injective (k : K3xsxSalt) (salts : List Byte) :
    Function.Injective fun b => k.decryptionByte b salts :=
  Function.LeftInverse.injective (g := fun b => k.encryptionByte b salts) fun b =>
    k.encryptionByte_decryptionByte b salts

/-! ## Encryption -/

section Encryption

variable (k : K3xsxSalt) (rand : Nat → BitVec 32) (src n dist : Nat) (f : Nat → Byte)

/-- The memory before the `i`-th turn of the loop. -/
def encrypting (i : Nat) : Nat → Byte := k.encryptionAt rand src i dist f

variable {k rand src n dist f}

theorem add_injective (p : Nat) : Function.Injective (p + ·) := fun _ _ h => Nat.add_left_cancel h

theorem behind_injective (dist : Nat) : Function.Injective fun i => dist + (saltLen + i) :=
  fun _ _ h => Nat.add_left_cancel (Nat.add_left_cancel h)

theorem randSaltsAt_salt {i : Nat} (hi : i < saltLen) :
    randSaltsAt rand dist f (dist + i) = truncate (rand i % 255) :=
  writeEach_dst (add_injective dist) hi

theorem randSaltsAt_outside {p : Nat} (h : p < dist ∨ dist + saltLen ≤ p) :
    randSaltsAt rand dist f p = f p :=
  writeEach_outside fun i hi => by omega

/-- The loop leaves the salts alone. -/
theorem encrypting_salts (n : Nat) :
    bytesAt (k.encrypting rand src dist f n) dist saltLen = randSalts rand := by
  refine List.map_congr_left fun i hi => ?_
  have hi' := List.mem_range.mp hi
  rw [encrypting, encryptionAt, writeEach_outside fun j _ => by omega]
  exact randSaltsAt_salt hi'

/-- The loop encrypts what it reads. -/
theorem encrypting_body {i : Nat} (hi : i < n) :
    k.encryptionAt rand src n dist f (dist + (saltLen + i)) =
      k.encryptionByte (k.encrypting rand src dist f i (src + i)) (randSalts rand) := by
  rw [encryptionAt, writeEach_dst (behind_injective dist) hi]
  exact congrArg (k.encryptionByte _) (encrypting_salts i)

/-- Nothing is written outside `dist`. -/
theorem encryptionAt_outside {p : Nat} (h : p < dist ∨ dist + (n + saltLen) ≤ p) :
    k.encryptionAt rand src n dist f p = f p := by
  rw [encryptionAt, writeEach_outside fun i hi => by omega]
  exact randSaltsAt_outside (by omega)

/-- The result is that of separate memories when what is read is what was there. -/
theorem encryptionAt_iff_reads :
    bytesAt (k.encryptionAt rand src n dist f) dist (n + saltLen) =
        k.encryption rand (bytesAt f src n) (bytesAt f dist (n + saltLen)) ↔
      ∀ i < n, k.encrypting rand src dist f i (src + i) = f (src + i) := by
  have hlen : (randSalts rand ++ (bytesAt f src n).map fun b =>
      k.encryptionByte b (randSalts rand)).length = n + saltLen := by
    rw [List.length_append, length_randSalts, List.length_map, length_bytesAt, Nat.add_comm]
  rw [encryption, encryptionWith_eq k (length_randSalts rand) _ (by simp),
    blit_all (by simp [hlen]), Nat.add_comm, bytesAt_add,
    show bytesAt (k.encryptionAt rand src n dist f) dist saltLen = _ from encrypting_salts n,
    List.append_cancel_left_eq, bytesAt_eq_map_iff]
  refine forall_congr' fun i => forall_congr' fun hi => ?_
  rw [Nat.add_assoc, encrypting_body hi]
  exact (encryptionByte_injective k (randSalts rand)).eq_iff

/-- What is read before it is written, whatever the memory holds. -/
theorem encrypting_src (h : n = 0 ∨ dist + saltLen ≤ src ∨ src + n ≤ dist) {i : Nat} (hi : i < n) :
    k.encrypting rand src dist f i (src + i) = f (src + i) := by
  rw [encrypting, encryptionAt, writeEach_outside fun j hj => by omega]
  exact randSaltsAt_outside (by omega)

/-- No salt is 255. -/
theorem salt_ne (x : BitVec 32) : truncate (x % 255) ≠ 255 := by
  intro h
  have hlt : (x % 255).toNat < 255 := by
    rw [BitVec.toNat_umod]
    exact Nat.mod_lt _ (by decide)
  have hval := congrArg UInt8.toNat h
  rw [truncate, UInt8.toNat_ofBitVec, BitVec.toNat_setWidth, Nat.mod_eq_of_lt (by omega)] at hval
  have : (255 : UInt8).toNat = 255 := rfl
  omega

/-- **Where encryption may write**: whatever the memory holds, the result is that of
separate memories, exactly when the salts do not fall into the message. -/
theorem encryption_apart_iff (k : K3xsxSalt) (rand : Nat → BitVec 32) (src n dist : Nat) :
    (∀ f, bytesAt (k.encryptionAt rand src n dist f) dist (n + saltLen) =
        k.encryption rand (bytesAt f src n) (bytesAt f dist (n + saltLen))) ↔
      n = 0 ∨ dist + saltLen ≤ src ∨ src + n ≤ dist := by
  simp only [encryptionAt_iff_reads]
  refine ⟨fun h => ?_, fun h f i hi => encrypting_src h hi⟩
  by_contra hmeet
  have hsalt : saltLen = 3 := rfl
  -- the place of a salt and of a byte of the message
  have hplace : src + (max src dist - src) = dist + (max src dist - dist) := by omega
  have hread := h (fun _ => 255) (max src dist - src) (by omega)
  rw [hplace, encrypting, encryptionAt, writeEach_outside fun j hj => by omega,
    randSaltsAt_salt (by omega)] at hread
  exact salt_ne _ hread

end Encryption

/-! ## Decryption -/

section Decryption

variable (k : K3xsxSalt) (src dist : Nat) (f : Nat → Byte)

/-- The memory before the `i`-th turn of the loop. -/
def decrypting (i : Nat) : Nat → Byte :=
  writeEach f (dist + ·)
    (fun i f => k.decryptionByte (f (src + (i + saltLen))) (bytesAt f src saltLen)) i

variable {k src dist f} {n : Nat}

/-- Only the first three bytes count as salts. -/
theorem decryptionByte_congr {salts salts' : List Byte}
    (h : ∀ i < saltLen, salts.getD i 0 = salts'.getD i 0) (b : Byte) :
    k.decryptionByte b salts = k.decryptionByte b salts' := by
  refine encryptionByte_injective k salts ?_
  show k.encryptionByte _ salts = k.encryptionByte _ salts
  rw [encryptionByte_decryptionByte, k.encryptionByte_congr h, encryptionByte_decryptionByte]

theorem decryptionAt_eq (h : saltLen ≤ n) :
    k.decryptionAt src n dist f = (true, k.decrypting src dist f (n - saltLen)) := by
  rw [decryptionAt, if_neg (by omega)]
  split
  · rename_i hnil
    rw [hnil, Nat.sub_self]
    rfl
  · rfl

/-- The loop decrypts what it reads. -/
theorem decrypting_dist {m i : Nat} (hi : i < m) :
    k.decrypting src dist f m (dist + i) =
      k.decryptionByte (k.decrypting src dist f i (src + (i + saltLen)))
        (bytesAt (k.decrypting src dist f i) src saltLen) :=
  writeEach_dst (add_injective dist) hi

/-- Nothing is written outside `dist`. -/
theorem decrypting_outside {m p : Nat} (h : p < dist ∨ dist + m ≤ p) :
    k.decrypting src dist f m p = f p :=
  writeEach_outside fun i hi => by omega

/-- The result is that of separate memories when each byte is decrypted to what it
should be. -/
theorem decryptionAt_iff_bytes (h : saltLen ≤ n) :
    bytesAt (k.decryptionAt src n dist f).2 dist (n - saltLen) =
        (k.decryption (bytesAt f src n) (bytesAt f dist (n - saltLen))).2 ↔
      ∀ i < n - saltLen,
        k.decryptionByte (k.decrypting src dist f i (src + (i + saltLen)))
            (bytesAt (k.decrypting src dist f i) src saltLen) =
          k.decryptionByte (f (src + (i + saltLen))) (bytesAt f src saltLen) := by
  have hsplit : bytesAt f src n =
      bytesAt f src saltLen ++ bytesAt f (src + saltLen) (n - saltLen) := by
    rw [← bytesAt_add, Nat.add_sub_cancel' h]
  have hsalts : ∀ b, k.decryptionByte b (bytesAt f src n) =
      k.decryptionByte b (bytesAt f src saltLen) :=
    decryptionByte_congr fun i hi => by
      rw [getD_bytesAt (Nat.lt_of_lt_of_le hi h), getD_bytesAt hi]
  have hdrop : (bytesAt f src n).drop saltLen = bytesAt f (src + saltLen) (n - saltLen) := by
    rw [hsplit, List.drop_left' (length_bytesAt ..)]
  rw [decryptionAt_eq h, decryption_eq k (by simp [h]) (by simp), hdrop, blit_all (by simp)]
  refine bytesAt_eq_map_iff.trans (forall_congr' fun i => forall_congr' fun hi => ?_)
  dsimp only
  rw [decrypting_dist hi, hsalts, Nat.add_assoc, Nat.add_comm saltLen i]

/-- What a turn reads from places that the turns before have not written. -/
theorem decrypting_reads {i : Nat} (hsalt : i = 0 ∨ src + saltLen ≤ dist ∨ dist + i ≤ src)
    (hbyte : dist + i ≤ src + (i + saltLen) ∨ src + (i + saltLen) < dist) :
    k.decryptionByte (k.decrypting src dist f i (src + (i + saltLen)))
        (bytesAt (k.decrypting src dist f i) src saltLen) =
      k.decryptionByte (f (src + (i + saltLen))) (bytesAt f src saltLen) := by
  rw [decrypting_outside (by omega), bytesAt_congr fun j hj => decrypting_outside (by omega)]

/-- A salt that changes shows in some byte. -/
theorem exists_sensitive (k : K3xsxSalt) {i : Nat} (hi : i < saltLen) :
    ∃ b, k.decryptionByte b ([0, 0, 0].set i 1) ≠ k.decryptionByte b [0, 0, 0] := by
  have hall : ∀ s : Fin 256, ∀ i < saltLen,
      (K3xsxSalt.mk (.ofFin s)).decryptionByte (.ofFin s ^^^ 1) ([0, 0, 0].set i 1) ≠
        (K3xsxSalt.mk (.ofFin s)).decryptionByte (.ofFin s ^^^ 1) [0, 0, 0] := by
    decide +kernel
  exact ⟨_, hall k.salt.toFin i hi⟩

/-- Three bytes, one of which is not 0. -/
theorem bytesAt_set {g : Nat → Byte} {p i : Nat} (hi : i < saltLen) {v : Byte}
    (h : ∀ j < saltLen, g (p + j) = if j = i then v else 0) :
    bytesAt g p saltLen = [0, 0, 0].set i v := by
  have hbytes : bytesAt g p saltLen = [g (p + 0), g (p + 1), g (p + 2)] := rfl
  rw [hbytes, h 0 (by decide), h 1 (by decide), h 2 (by decide)]
  unfold saltLen at hi
  interval_cases i <;> rfl

theorem bytesAt_zero {g : Nat → Byte} {p : Nat} (h : ∀ j < saltLen, g (p + j) = 0) :
    bytesAt g p saltLen = [0, 0, 0] := by
  have hbytes : bytesAt g p saltLen = [g (p + 0), g (p + 1), g (p + 2)] := rfl
  rw [hbytes, h 0 (by decide), h 1 (by decide), h 2 (by decide)]

/-- A salt is written between two turns of the loop. -/
theorem exists_salt_lost (k : K3xsxSalt) (src dist m : Nat) (h : dist < src + saltLen)
    (hturn : src - dist + 1 < m) :
    ∃ f : Nat → Byte, ∃ i < m,
      k.decryptionByte (k.decrypting src dist f i (src + (i + saltLen)))
          (bytesAt (k.decrypting src dist f i) src saltLen) ≠
        k.decryptionByte (f (src + (i + saltLen))) (bytesAt f src saltLen) := by
  have hsalt : saltLen = 3 := rfl
  have hplace : src + (dist - src) = dist + (src - dist) := by omega
  obtain ⟨b, hb⟩ := exists_sensitive k (i := dist - src) (by omega)
  -- the byte that is decrypted to 1, and behind it the one in which that shows
  obtain ⟨f, hone, hnext, hzero⟩ : ∃ f : Nat → Byte,
      f (src + (src - dist + saltLen)) = k.encryptionByte 1 [0, 0, 0] ∧
        f (src + (src - dist + 1 + saltLen)) = b ∧ ∀ j < saltLen, f (src + j) = 0 := by
    refine ⟨Function.update (Function.update (fun _ => 0) (src + (src - dist + saltLen))
      (k.encryptionByte 1 [0, 0, 0])) (src + (src - dist + 1 + saltLen)) b, ?_, ?_, ?_⟩
    · rw [Function.update_of_ne (by omega), Function.update_self]
    · rw [Function.update_self]
    · intro j hj
      rw [Function.update_of_ne (by omega), Function.update_of_ne (by omega)]
  have hsalts : bytesAt f src saltLen = [0, 0, 0] := bytesAt_zero hzero
  have hwritten : k.decrypting src dist f (src - dist + 1) (dist + (src - dist)) = 1 := by
    rw [decrypting_dist (Nat.lt_succ_self _), decrypting_reads (by omega) (by omega), hsalts,
      hone, decryptionByte_encryptionByte]
  have hafter : bytesAt (k.decrypting src dist f (src - dist + 1)) src saltLen =
      [0, 0, 0].set (dist - src) 1 := by
    refine bytesAt_set (by omega) fun j hj => ?_
    split
    · rename_i heq
      rw [heq, hplace, hwritten]
    · rw [decrypting_outside (by omega), hzero j hj]
  refine ⟨f, src - dist + 1, hturn, ?_⟩
  rw [hafter, hsalts, decrypting_outside (by omega), hnext]
  exact hb

/-- A byte of the message is written before it is read. -/
theorem exists_byte_lost (k : K3xsxSalt) (src dist m : Nat) (h : src + saltLen < dist)
    (hm : dist < src + (m + saltLen)) :
    ∃ f : Nat → Byte, ∃ i < m,
      k.decryptionByte (k.decrypting src dist f i (src + (i + saltLen)))
          (bytesAt (k.decrypting src dist f i) src saltLen) ≠
        k.decryptionByte (f (src + (i + saltLen))) (bytesAt f src saltLen) := by
  obtain ⟨f, hdist, hzero⟩ : ∃ f : Nat → Byte,
      f dist = k.decryptionByte 0 [0, 0, 0] + 1 ∧ ∀ p < dist, f p = 0 :=
    ⟨Function.update (fun _ => 0) dist _, Function.update_self .., fun p hp =>
      Function.update_of_ne (Nat.ne_of_lt hp) ..⟩
  have hsalts : bytesAt f src saltLen = [0, 0, 0] :=
    bytesAt_zero fun j hj => hzero _ (by omega)
  have hplace : src + (dist - (src + saltLen) + saltLen) = dist + 0 := by omega
  refine ⟨f, dist - (src + saltLen), by omega, ?_⟩
  rw [bytesAt_congr (g := f) fun j hj => decrypting_outside (by omega), hsalts, hplace,
    decrypting_dist (by omega), show k.decrypting src dist f 0 = f from rfl, hsalts,
    hzero _ (by omega), Nat.add_zero, hdist]
  refine fun heq => ?_
  have hsame := decryptionByte_injective k [0, 0, 0] heq
  simp at hsame

end Decryption

/-- **Where decryption may write**: whatever the memory holds, the result is that of
separate memories, exactly when there is at most one byte to write, or `dist` is the first
byte of the message, or lies behind it, or all but the last byte is written in front of it. -/
theorem decryption_apart_iff (k : K3xsxSalt) (src n dist : Nat) (hn : saltLen ≤ n) :
    (∀ f, bytesAt (k.decryptionAt src n dist f).2 dist (n - saltLen) =
        (k.decryption (bytesAt f src n) (bytesAt f dist (n - saltLen))).2) ↔
      n ≤ saltLen + 1 ∨ dist = src + saltLen ∨ src + n ≤ dist ∨
        dist + n ≤ src + (saltLen + 1) := by
  have hsalt : saltLen = 3 := rfl
  simp only [decryptionAt_iff_bytes hn]
  refine ⟨fun h => ?_, fun h f i hi => decrypting_reads (by omega) (by omega)⟩
  by_contra hmeet
  rcases Nat.lt_or_ge dist (src + saltLen) with hlt | hge
  · obtain ⟨f, i, hi, hne⟩ := exists_salt_lost k src dist (n - saltLen) hlt (by omega)
    exact hne (h f i hi)
  · obtain ⟨f, i, hi, hne⟩ := exists_byte_lost k src dist (n - saltLen) (by omega) (by omega)
    exact hne (h f i hi)

/-- Four bytes of a message, decrypted in place. -/
theorem decryption_apart_iff_seven :
    (∀ f, bytesAt ((K3xsxSalt.mk 9).decryptionAt 0 7 3 f).2 3 (7 - saltLen) =
        ((K3xsxSalt.mk 9).decryption (bytesAt f 0 7) (bytesAt f 3 (7 - saltLen))).2) ↔
      7 ≤ saltLen + 1 ∨ 3 = 0 + saltLen ∨ 0 + 7 ≤ 3 ∨ 3 + 7 ≤ 0 + (saltLen + 1) :=
  decryption_apart_iff ⟨9⟩ 0 7 3 (by decide)

/-- **In place**: a message with room for the salts in front of it is encrypted where it is,
and decrypted where it is, and the memory is as it was but for the salts. -/
theorem in_place (k : K3xsxSalt) (rand : Nat → BitVec 32) (p n : Nat) (f : Nat → Byte) :
    (k.decryptionAt p (n + saltLen) (p + saltLen)
        (k.encryptionAt rand (p + saltLen) n p f)).1 = true ∧
      ∀ q, (q < p ∨ p + saltLen ≤ q) → (k.decryptionAt p (n + saltLen) (p + saltLen)
        (k.encryptionAt rand (p + saltLen) n p f)).2 q = f q := by
  rw [decryptionAt_eq (Nat.le_add_left ..), Nat.add_sub_cancel]
  refine ⟨rfl, fun q hq => ?_⟩
  show k.decrypting p (p + saltLen) _ n q = f q
  by_cases hbody : p + saltLen ≤ q ∧ q < p + saltLen + n
  · obtain ⟨i, rfl⟩ := Nat.exists_eq_add_of_le hbody.1
    have hi : i < n := by omega
    have hplace : p + (i + saltLen) = p + (saltLen + i) := by omega
    rw [decrypting_dist hi, decrypting_reads (.inr (.inl le_rfl)) (.inl (by omega)), hplace,
      encrypting_body hi, encrypting_src (.inr (.inl le_rfl)) hi,
      show bytesAt (k.encryptionAt rand (p + saltLen) n p f) p saltLen = _
        from encrypting_salts n, decryptionByte_encryptionByte]
  · rw [decrypting_outside (by omega), encryptionAt_outside (by omega)]

end K3xsxSalt

end KgCpp.Crypto
