import KgCpp.Lib.Copy
import KgCpp.Types

/-!
# `k3xsx_salt_t` (`crypto/k3xsx_salt.hpp`)

A byte cipher: xor with a salted value, mirror the bits, rotate by a salted
count, xor again. The C integer semantics is explicit: operands are promoted to
`int` (`promote`), computed there, and cut back to a byte on assignment
(`truncate`), so a salt sum above 255 is xored and used as a rotation count
before it is cut.

The proofs are about single bits: each operation of the cipher moves bits or
flips them (`bit_swapBit`, `bit_shlLoop`, `bit_shrLoop`, `bit_flipBits`), so each has
an inverse, and decryption is the inverses in the opposite order.
-/

namespace KgCpp.Crypto

open Lib

/-- Promotion of a byte to `int`. -/
def promote (b : Byte) : BitVec 32 := b.toBitVec.setWidth 32

/-- Assignment of an `int` to a byte. -/
def truncate (i : BitVec 32) : Byte := .ofBitVec (i.setWidth 8)

/-- `k3xsx_salt_t`: the base salt. -/
structure K3xsxSalt where
  salt : Byte
deriving DecidableEq

/-- `salt_len`. -/
def saltLen : Nat := 3

/-- The byte `1 << n`. -/
def oneAt (n : Nat) : Byte := truncate (promote 1 <<< n)

/-- `_is_bit`. -/
def isBit (b : Byte) (n : Nat) : Bool := (promote (oneAt n) &&& promote b) != 0

/-- `_set_bit`. -/
def setBit (b : Byte) (n : Nat) (ok : Bool) : Byte :=
  if ok then truncate (promote b ||| promote (oneAt n))
  else truncate (promote b &&& ~~~ promote (oneAt n))

/-- `_swap_bit`. -/
def swapBit (b : Byte) (l r : Nat) : Byte :=
  if l = r then b
  else
    let c := if isBit b l then setBit b r true else setBit b r false
    if isBit b r then setBit c l true else setBit c l false

/-- `_shl_loop`. -/
def shlLoop (b : Byte) (n : Nat) : Byte :=
  if n % 8 = 0 then b
  else
    let c := truncate (promote b <<< (n % 8))
    truncate (promote c ||| (promote b).sshiftRight (8 - n % 8))

/-- `_shr_loop`. -/
def shrLoop (b : Byte) (n : Nat) : Byte :=
  if n % 8 = 0 then b
  else
    let c := truncate ((promote b).sshiftRight (n % 8))
    truncate (promote c ||| promote b <<< (8 - n % 8))

namespace K3xsxSalt

/-- `salts[i] + _salt`, an `int`. -/
def salted (k : K3xsxSalt) (salts : List Byte) (i : Nat) : BitVec 32 :=
  promote (salts.getD i 0) + promote k.salt

/-- `_encryption` of one byte. -/
def encryptionByte (k : K3xsxSalt) (b : Byte) (salts : List Byte) : Byte :=
  -- step 0
  let c := truncate (promote b ^^^ k.salted salts 0)
  -- step 1
  let c := swapBit c 0 7
  let c := swapBit c 1 6
  let c := swapBit c 2 5
  let c := swapBit c 3 4
  let c := shlLoop c (sizeOfInt (.ofBitVec (k.salted salts 1)))
  -- step 2
  truncate (promote c ^^^ k.salted salts 2)

/-- `_decryption` of one byte. -/
def decryptionByte (k : K3xsxSalt) (b : Byte) (salts : List Byte) : Byte :=
  -- step 2
  let c := truncate (promote b ^^^ k.salted salts 2)
  -- step 1
  let c := shrLoop c (sizeOfInt (.ofBitVec (k.salted salts 1)))
  let c := swapBit c 0 7
  let c := swapBit c 1 6
  let c := swapBit c 2 5
  let c := swapBit c 3 4
  -- step 0
  truncate (promote c ^^^ k.salted salts 0)

/-- `_rand_salts`: `rand i` is the `i`-th value of `rand()`. -/
def randSalts (rand : Nat → BitVec 32) : List Byte :=
  (List.range saltLen).map fun i => truncate (rand i % 255)

/-- The body of `encryption` once the salts are in `dist`: the loop over the
bytes of `src`, each encrypted with the salts at the front of `dist`. -/
def encryptionLoop (k : K3xsxSalt) (src dist : List Byte) : List Byte :=
  (List.range src.length).foldl
    (fun d i => d.set (saltLen + i) (k.encryptionByte (src.getD i 0) d)) dist

/-- `encryption` with given salts: the memory at `dist` afterwards. -/
def encryptionWith (k : K3xsxSalt) (salts src dist : List Byte) : List Byte :=
  k.encryptionLoop src (blit dist 0 salts)

/-- `encryption`. -/
def encryption (k : K3xsxSalt) (rand : Nat → BitVec 32) (src dist : List Byte) : List Byte :=
  k.encryptionWith (randSalts rand) src dist

/-- `decryption`: the answer, and the memory at `dist` afterwards. -/
def decryption (k : K3xsxSalt) (src dist : List Byte) : Bool × List Byte :=
  if src.length < saltLen then (false, dist)
  else if src.length = saltLen then (true, dist)
  else (true, (List.range (src.length - saltLen)).foldl
    (fun d i => d.set i (k.decryptionByte (src.getD (i + saltLen) 0) src)) dist)

end K3xsxSalt

/-! ## Bits -/

/-- Bit `i` of a byte. -/
def bit (b : Byte) (i : Nat) : Bool := b.toBitVec.getLsbD i

theorem bit_ext {a b : Byte} (h : ∀ i < 8, bit a i = bit b i) : a = b :=
  UInt8.toBitVec_inj.mp (BitVec.eq_of_getLsbD_eq h)

@[simp] theorem getLsbD_promote (b : Byte) (i : Nat) :
    (promote b).getLsbD i = (decide (i < 8) && bit b i) := by
  rw [promote, BitVec.getLsbD_setWidth, bit]
  by_cases h : i < 8
  · simp [h]
    omega
  · simp [h, BitVec.getLsbD_of_ge b.toBitVec i (by omega)]

@[simp] theorem bit_truncate (x : BitVec 32) (i : Nat) :
    bit (truncate x) i = (decide (i < 8) && x.getLsbD i) := by
  show (x.setWidth 8).getLsbD i = _
  rw [BitVec.getLsbD_setWidth]

@[simp] theorem msb_promote (b : Byte) : (promote b).msb = false := by
  rw [BitVec.msb_eq_getLsbD_last, getLsbD_promote]
  rfl

theorem bit_oneAt {n i : Nat} (hi : i < 8) : bit (oneAt n) i = decide (i = n) := by
  have hone : ∀ j, bit 1 j = decide (j = 0) := by
    intro j
    show (1#8).getLsbD j = _
    rw [BitVec.getLsbD_one]
    simp
  rw [oneAt, bit_truncate, BitVec.getLsbD_shiftLeft, getLsbD_promote, hone]
  by_cases h : i = n
  · subst h
    simp [hi]
    omega
  · -- below `n` the shift brings in zeros, above it the bits of 1 are zeros
    simp only [hi, decide_true, Bool.true_and, h, decide_false]
    by_cases hlt : i < n
    · simp [hlt]
    · simp only [show ¬ i - n = 0 by omega, decide_false, Bool.and_false]

theorem isBit_eq {n : Nat} (hn : n < 8) (b : Byte) : isBit b n = bit b n := by
  have hbits : ∀ i, (promote (oneAt n) &&& promote b).getLsbD i =
      (decide (i = n) && bit b n) := by
    intro i
    rw [BitVec.getLsbD_and, getLsbD_promote, getLsbD_promote]
    by_cases hi : i < 8
    · rw [bit_oneAt hi]
      by_cases h : i = n
      · simp [h, hn]
      · simp [h]
    · simp [hi, show i ≠ n by omega]
  cases hb : bit b n with
  | false =>
    have hzero : promote (oneAt n) &&& promote b = 0 := by
      refine BitVec.eq_of_getLsbD_eq fun i _ => ?_
      rw [hbits, hb]
      simp
    simp [isBit, hzero]
  | true =>
    have hne : promote (oneAt n) &&& promote b ≠ 0 := by
      intro hzero
      have h := hbits n
      rw [hzero, hb] at h
      simp at h
    rw [isBit, bne_iff_ne.mpr hne]

theorem bit_setBit {n i : Nat} (hi : i < 8) (b : Byte) (ok : Bool) :
    bit (setBit b n ok) i = if i = n then ok else bit b i := by
  unfold setBit
  split
  · rename_i hok
    rw [bit_truncate, BitVec.getLsbD_or, getLsbD_promote, getLsbD_promote, bit_oneAt hi, hok]
    by_cases h : i = n <;> simp [h, hi]
    omega
  · rename_i hok
    rw [bit_truncate, BitVec.getLsbD_and, BitVec.getLsbD_not, getLsbD_promote, getLsbD_promote,
      bit_oneAt hi]
    by_cases h : i = n
    · have hn : n < 8 := h ▸ hi
      simp [h, hn, Bool.eq_false_iff.mpr hok]
    · simp [h, hi]
      omega

/-- `_swap_bit` exchanges two bits. -/
theorem bit_swapBit {l r i : Nat} (hl : l < 8) (hr : r < 8) (hi : i < 8) (b : Byte) :
    bit (swapBit b l r) i = if i = l then bit b r else if i = r then bit b l else bit b i := by
  have hset : ∀ (c : Byte) (n : Nat) (x : Bool),
      (if x = true then setBit c n true else setBit c n false) = setBit c n x := by
    intro c n x
    cases x <;> rfl
  unfold swapBit
  split
  · rename_i h
    subst h
    by_cases hil : i = l <;> simp [hil]
  · rw [hset, hset, isBit_eq hl, isBit_eq hr, bit_setBit hi, bit_setBit hi]

/-- `_shl_loop` moves each bit `n` places up, around the end. -/
theorem bit_shlLoop {i : Nat} (hi : i < 8) (b : Byte) (n : Nat) :
    bit (shlLoop b n) i = bit b ((i + 8 - n % 8) % 8) := by
  have hn : n % 8 < 8 := Nat.mod_lt _ (by decide)
  unfold shlLoop
  split
  · rename_i h
    rw [h, Nat.sub_zero, Nat.add_mod_right, Nat.mod_eq_of_lt hi]
  · rw [bit_truncate, BitVec.getLsbD_or, getLsbD_promote, bit_truncate,
      BitVec.getLsbD_shiftLeft, getLsbD_promote, BitVec.getLsbD_sshiftRight, msb_promote,
      getLsbD_promote]
    -- of the two halves of the disjunction one is 0 at bit `i`
    by_cases h : i < n % 8
    · have hwrap : (i + 8 - n % 8) % 8 = 8 - n % 8 + i := by omega
      have hin : 8 - n % 8 + i < 8 := by omega
      have h32 : 8 - n % 8 + i < 32 ∧ ¬ 32 ≤ i := by omega
      simp [h, hi, hwrap, hin, h32]
    · have hwrap : (i + 8 - n % 8) % 8 = i - n % 8 := by omega
      have hout : ¬ 8 - n % 8 + i < 8 := by omega
      have hin : i - n % 8 < 8 ∧ i < 32 := by omega
      simp [h, hi, hwrap, hout, hin]

/-- `_shr_loop` moves each bit `n` places down, around the end. -/
theorem bit_shrLoop {i : Nat} (hi : i < 8) (b : Byte) (n : Nat) :
    bit (shrLoop b n) i = bit b ((i + n % 8) % 8) := by
  have hn : n % 8 < 8 := Nat.mod_lt _ (by decide)
  unfold shrLoop
  split
  · rename_i h
    rw [h, Nat.add_zero, Nat.mod_eq_of_lt hi]
  · rw [bit_truncate, BitVec.getLsbD_or, getLsbD_promote, bit_truncate,
      BitVec.getLsbD_shiftLeft, getLsbD_promote, BitVec.getLsbD_sshiftRight, msb_promote,
      getLsbD_promote]
    by_cases h : i + n % 8 < 8
    · have hwrap : (i + n % 8) % 8 = n % 8 + i := by omega
      have hout : i < 8 - n % 8 := by omega
      have hin : n % 8 + i < 8 := by omega
      have h32 : n % 8 + i < 32 ∧ ¬ 32 ≤ i := by omega
      simp [hi, hwrap, hout, hin, h32]
    · have hwrap : (i + n % 8) % 8 = i - (8 - n % 8) := by omega
      have hout : ¬ i < 8 - n % 8 := by omega
      have hover : ¬ n % 8 + i < 8 := by omega
      have hin : i - (8 - n % 8) < 8 ∧ i < 32 := by omega
      simp [hi, hwrap, hout, hover, hin]

/-! ## One byte -/

/-- Assigning `c ^ x`. -/
def flipBits (c : Byte) (x : BitVec 32) : Byte := truncate (promote c ^^^ x)

/-- The four swaps. -/
def mirror (c : Byte) : Byte :=
  swapBit (swapBit (swapBit (swapBit c 0 7) 1 6) 2 5) 3 4

theorem bit_flipBits {i : Nat} (hi : i < 8) (c : Byte) (x : BitVec 32) :
    bit (flipBits c x) i = (bit c i ^^ x.getLsbD i) := by
  rw [flipBits, bit_truncate, BitVec.getLsbD_xor, getLsbD_promote]
  simp [hi]

@[simp] theorem flipBits_flipBits (c : Byte) (x : BitVec 32) :
    flipBits (flipBits c x) x = c :=
  bit_ext fun i hi => by
    rw [bit_flipBits hi, bit_flipBits hi, Bool.xor_assoc, Bool.xor_self, Bool.xor_false]

/-- The four swaps mirror the byte. -/
theorem bit_mirror {i : Nat} (hi : i < 8) (c : Byte) : bit (mirror c) i = bit c (7 - i) := by
  unfold mirror
  interval_cases i <;> simp [bit_swapBit]

@[simp] theorem mirror_mirror (c : Byte) : mirror (mirror c) = c :=
  bit_ext fun i hi => by
    rw [bit_mirror hi, bit_mirror (by omega), Nat.sub_sub_self (by omega)]

@[simp] theorem shrLoop_shlLoop (c : Byte) (n : Nat) : shrLoop (shlLoop c n) n = c :=
  bit_ext fun i hi => by
    have hback : ((i + n % 8) % 8 + 8 - n % 8) % 8 = i := by omega
    rw [bit_shrLoop hi, bit_shlLoop (Nat.mod_lt _ (by decide)), hback]

@[simp] theorem shlLoop_shrLoop (c : Byte) (n : Nat) : shlLoop (shrLoop c n) n = c :=
  bit_ext fun i hi => by
    have hback : ((i + 8 - n % 8) % 8 + n % 8) % 8 = i := by omega
    rw [bit_shlLoop hi, bit_shrLoop (Nat.mod_lt _ (by decide)), hback]

namespace K3xsxSalt

variable (k : K3xsxSalt)

theorem encryptionByte_eq (b : Byte) (salts : List Byte) :
    k.encryptionByte b salts =
      flipBits (shlLoop (mirror (flipBits b (k.salted salts 0)))
        (sizeOfInt (.ofBitVec (k.salted salts 1)))) (k.salted salts 2) := rfl

theorem decryptionByte_eq (b : Byte) (salts : List Byte) :
    k.decryptionByte b salts =
      flipBits (mirror (shrLoop (flipBits b (k.salted salts 2))
        (sizeOfInt (.ofBitVec (k.salted salts 1))))) (k.salted salts 0) := rfl

theorem decryptionByte_encryptionByte (b : Byte) (salts : List Byte) :
    k.decryptionByte (k.encryptionByte b salts) salts = b := by
  rw [decryptionByte_eq, encryptionByte_eq, flipBits_flipBits, shrLoop_shlLoop, mirror_mirror,
    flipBits_flipBits]

theorem encryptionByte_decryptionByte (b : Byte) (salts : List Byte) :
    k.encryptionByte (k.decryptionByte b salts) salts = b := by
  rw [encryptionByte_eq, decryptionByte_eq, flipBits_flipBits, mirror_mirror, shlLoop_shrLoop,
    flipBits_flipBits]

/-- Only the first three bytes count as salts. -/
theorem encryptionByte_congr {salts salts' : List Byte}
    (h : ∀ i < saltLen, salts.getD i 0 = salts'.getD i 0) (b : Byte) :
    k.encryptionByte b salts = k.encryptionByte b salts' := by
  have hs : ∀ i < saltLen, k.salted salts i = k.salted salts' i := by
    intro i hi
    rw [salted, salted, h i hi]
  rw [encryptionByte_eq, encryptionByte_eq, hs 0 (by decide), hs 1 (by decide),
    hs 2 (by decide)]

/-! ## Messages -/

theorem length_randSalts (rand : Nat → BitVec 32) : (randSalts rand).length = saltLen := by
  rw [randSalts, List.length_map, List.length_range]

/-- The loop of `encryption` writes the encrypted bytes behind the salts. -/
theorem encryptionLoop_eq (src : List Byte) {dist : List Byte}
    (hlen : src.length + saltLen ≤ dist.length) :
    k.encryptionLoop src dist =
      blit dist saltLen (src.map fun b => k.encryptionByte b dist) := by
  have key : ∀ n, n ≤ src.length →
      (List.range n).foldl
        (fun d i => d.set (saltLen + i) (k.encryptionByte (src.getD i 0) d)) dist =
      blit dist saltLen ((src.take n).map fun b => k.encryptionByte b dist) := by
    intro n
    induction n with
    | zero => intro _; simp
    | succ n ih =>
      intro hn
      have hget : src.getD n 0 = src[n] := by simp [List.getD, List.getElem?_eq_getElem hn]
      rw [List.range_succ, List.foldl_append, ih (by omega)]
      -- the salts at the front are as before
      have hsalts : ∀ i < saltLen, (blit dist saltLen
          ((src.take n).map fun b => k.encryptionByte b dist)).getD i 0 = dist.getD i 0 :=
        fun i hi => getD_blit_of_lt (by omega) hi 0
      rw [List.foldl_cons, List.foldl_nil, k.encryptionByte_congr hsalts, hget,
        List.take_succ_eq_append_getElem hn, List.map_append, List.map_cons, List.map_nil,
        blit_append_singleton _ (by rw [List.length_map, List.length_take]; omega),
        List.length_map, List.length_take, Nat.min_eq_left (by omega)]
  have h := key src.length (Nat.le_refl _)
  rwa [List.take_length] at h

/-- The loop of `decryption` writes the decrypted body. -/
theorem decryption_eq {src out : List Byte} (hsrc : saltLen ≤ src.length)
    (hout : src.length - saltLen ≤ out.length) :
    k.decryption src out =
      (true, blit out 0 ((src.drop saltLen).map fun b => k.decryptionByte b src)) := by
  have key : ∀ n, n ≤ src.length - saltLen →
      (List.range n).foldl
        (fun d i => d.set i (k.decryptionByte (src.getD (i + saltLen) 0) src)) out =
      blit out 0 (((src.drop saltLen).take n).map fun b => k.decryptionByte b src) := by
    intro n
    induction n with
    | zero => intro _; simp
    | succ n ih =>
      intro hn
      have hlt : n < (src.drop saltLen).length := by
        rw [List.length_drop]
        omega
      have hget : src.getD (n + saltLen) 0 = (src.drop saltLen)[n] := by
        have h : n + saltLen < src.length := by omega
        rw [List.getElem_drop, List.getD, List.getElem?_eq_getElem h]
        simp [Nat.add_comm]
      rw [List.range_succ, List.foldl_append, ih (by omega), List.foldl_cons, List.foldl_nil,
        hget, List.take_succ_eq_append_getElem hlt, List.map_append, List.map_cons, List.map_nil,
        blit_append_singleton _ (by rw [List.length_map, List.length_take]; omega),
        List.length_map, List.length_take, Nat.min_eq_left (by omega), Nat.zero_add]
  rw [decryption, if_neg (by omega)]
  split
  · -- nothing but salts: `decryption` returns before the loop
    rename_i hnil
    rw [List.drop_of_length_le (by omega), List.map_nil, blit_nil]
  · have h := key (src.length - saltLen) (Nat.le_refl _)
    have hall : (src.drop saltLen).take (src.length - saltLen) = src.drop saltLen :=
      List.take_of_length_le (by rw [List.length_drop])
    rw [hall] at h
    rw [h]

/-- What `encryption` leaves at `dist`: the salts, the encrypted bytes, and the
memory behind them as it was. -/
theorem encryptionWith_eq {salts : List Byte} (hsalts : salts.length = saltLen)
    (src : List Byte) {dist : List Byte} (hdist : src.length + saltLen ≤ dist.length) :
    k.encryptionWith salts src dist =
      blit dist 0 (salts ++ src.map fun b => k.encryptionByte b salts) := by
  have hlen : (blit dist 0 salts).length = dist.length := length_blit (by omega)
  have hfront : ∀ i < saltLen, (blit dist 0 salts).getD i 0 = salts.getD i 0 := by
    intro i hi
    rw [List.getD, List.getD, blit, List.take_zero, List.nil_append,
      List.getElem?_append_left (by omega)]
  rw [encryptionWith, encryptionLoop_eq k src (by omega)]
  have hbyte : (fun b => k.encryptionByte b (blit dist 0 salts)) =
      fun b => k.encryptionByte b salts :=
    funext fun b => k.encryptionByte_congr hfront b
  rw [hbyte, blit_zero_append, hsalts]

/-- Decrypting the `n + 3` bytes of an encryption gives the message back. -/
theorem decryption_encryptionWith {salts m dist out : List Byte}
    (hsalts : salts.length = saltLen) (hdist : m.length + saltLen ≤ dist.length)
    (hout : m.length ≤ out.length) :
    k.decryption ((k.encryptionWith salts m dist).take (m.length + saltLen)) out =
      (true, blit out 0 m) := by
  have hlen : (salts ++ m.map fun b => k.encryptionByte b salts).length =
      m.length + saltLen := by
    rw [List.length_append, List.length_map, hsalts, Nat.add_comm]
  have htake : (k.encryptionWith salts m dist).take (m.length + saltLen) =
      salts ++ m.map fun b => k.encryptionByte b salts := by
    rw [k.encryptionWith_eq hsalts m hdist, blit, List.take_zero, List.nil_append,
      List.take_left' hlen]
  rw [htake, k.decryption_eq (by omega) (by omega), List.drop_left' hsalts, List.map_map]
  -- the salts `decryption` uses are the ones at the front of its source
  have hfront : ∀ i < saltLen,
      (salts ++ m.map fun b => k.encryptionByte b salts).getD i 0 = salts.getD i 0 :=
    fun i hi => by rw [List.getD, List.getD, List.getElem?_append_left (by omega)]
  have hbyte : ∀ b, k.decryptionByte (k.encryptionByte b salts)
      (salts ++ m.map fun b => k.encryptionByte b salts) = b := by
    intro b
    rw [k.encryptionByte_congr fun i hi => (hfront i hi).symm,
      k.decryptionByte_encryptionByte]
  rw [show ((fun b => k.decryptionByte b (salts ++ m.map fun b => k.encryptionByte b salts)) ∘
      fun b => k.encryptionByte b salts) = id from funext hbyte, List.map_id]

/-- The same of `encryption` itself, whatever salts it draws. -/
theorem decryption_encryption (rand : Nat → BitVec 32) {m dist out : List Byte}
    (hdist : m.length + saltLen ≤ dist.length) (hout : m.length ≤ out.length) :
    k.decryption ((k.encryption rand m dist).take (m.length + saltLen)) out =
      (true, blit out 0 m) :=
  k.decryption_encryptionWith (length_randSalts rand) hdist hout

/-- Encrypting what `decryption` wrote, with the salts of the source, gives the
body of the source back. -/
theorem map_encryptionByte_decryption {c out : List Byte} (hc : saltLen ≤ c.length)
    (hout : c.length - saltLen ≤ out.length) :
    ∃ m, k.decryption c out = (true, blit out 0 m) ∧ m.length = c.length - saltLen ∧
      m.map (fun b => k.encryptionByte b (c.take saltLen)) = c.drop saltLen := by
  refine ⟨_, k.decryption_eq hc hout, by rw [List.length_map, List.length_drop], ?_⟩
  have hfront : ∀ i < saltLen, (c.take saltLen).getD i 0 = c.getD i 0 := by
    intro i hi
    rw [List.getD, List.getD, List.getElem?_take_of_lt hi]
  have hbyte : ∀ b, k.encryptionByte (k.decryptionByte b c) (c.take saltLen) = b := by
    intro b
    rw [k.encryptionByte_congr hfront, k.encryptionByte_decryptionByte]
  rw [List.map_map, show ((fun b => k.encryptionByte b (c.take saltLen)) ∘
      fun b => k.decryptionByte b c) = id from funext hbyte, List.map_id]

/-- Encryption and decryption are inverse on both sides. -/
theorem encryption_decryption_inverse :
    (∀ salts m dist out : List Byte, salts.length = saltLen →
      m.length + saltLen ≤ dist.length → m.length ≤ out.length →
        k.decryption ((k.encryptionWith salts m dist).take (m.length + saltLen)) out =
          (true, blit out 0 m)) ∧
    (∀ c out : List Byte, saltLen ≤ c.length → c.length - saltLen ≤ out.length →
      ∃ m, k.decryption c out = (true, blit out 0 m) ∧ m.length = c.length - saltLen ∧
        m.map (fun b => k.encryptionByte b (c.take saltLen)) = c.drop saltLen) :=
  ⟨fun _ _ _ _ hsalts hdist hout => k.decryption_encryptionWith hsalts hdist hout,
    fun _ _ hc hout => k.map_encryptionByte_decryption hc hout⟩

/-- At a salt sum above 255, on two bytes, in a larger block of memory. -/
theorem encryption_decryption_inverse_two :
    (K3xsxSalt.mk 200).decryption
        (((K3xsxSalt.mk 200).encryptionWith [250, 99, 131] [7, 255] (List.replicate 6 0)).take 5)
        [0, 0, 0] = (true, [7, 255, 0]) ∧
      ∃ m, (K3xsxSalt.mk 200).decryption [250, 99, 131, 4] [0] = (true, blit [0] 0 m) ∧
        m.length = 1 ∧
        m.map (fun b => (K3xsxSalt.mk 200).encryptionByte b [250, 99, 131]) = [4] :=
  ⟨(encryption_decryption_inverse ⟨200⟩).1 [250, 99, 131] [7, 255] (List.replicate 6 0)
      [0, 0, 0] rfl (by decide) (by decide),
    (encryption_decryption_inverse ⟨200⟩).2 [250, 99, 131, 4] [0] (by decide) (by decide)⟩

end K3xsxSalt

end KgCpp.Crypto
