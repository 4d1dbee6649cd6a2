import KgCpp.Slice.Memory

/-!
# `slice_impl` (`slice_impl.hpp`)

A slice is a window of an array: where it starts, how many elements it shows and
how many it may grow to in place. A `slice_impl` never changes once it is made
(only elements do), so it is a value here, and two slices share an array when
they name the same one.

- `Valid m s` is the representation invariant.
- Each operation has one rule: from valid slices it ends with a valid slice and
  an extended memory, or throws, and leaves the memory as it is.
-/

namespace KgCpp.Slice

open Lib

/-- `slice_impl`. -/
structure SliceImpl where
  array : Option Ref
  capacity : Nat
  size : Nat
  pos : Nat
deriving DecidableEq, Repr

/-- Which allocations of an operation throw: that of the new `slice_impl`, one
of those of a new `array_t`. -/
structure Faults where
  impl : Bool
  array : Bool
deriving DecidableEq, Repr

namespace SliceImpl

variable {T : Type}

/-- `_array->_p`. -/
def p (s : SliceImpl) : Action Fault (Memory T) Pointer :=
  match s.array with
  | none => throw .nullArray
  | some a => pure (some (a, 0))

/-- `get`. -/
def get (s : SliceImpl) : Action Fault (Memory T) Pointer :=
  if s.size ≠ 0 then do
    let p ← s.p
    pure (p.add s.pos)
  else pure none

/-- `boost::make_shared<type_t>()`. -/
def makeImpl (faults : Faults) : Action Fault (Memory T) Unit :=
  if faults.impl then throw .badAlloc else pure ()

/-- The constructor. -/
def create (size capacity : Nat) (faults : Faults) : Action Fault (Memory T) SliceImpl := do
  makeImpl faults
  let capacity := if capacity < size then size else capacity
  if capacity ≠ 0 then do
    let a ← newArray capacity faults.array
    pure ⟨some a, capacity, size, 0⟩
  else pure ⟨none, capacity, size, 0⟩

/-- `equal`, which does not compare the capacities. -/
def equal (l r : SliceImpl) : Bool := l.array == r.array && l.size == r.size && l.pos == r.pos

/-- `range(begin)`. -/
def range (s : SliceImpl) (begin : Nat) (faults : Faults) :
    Action Fault (Memory T) SliceImpl :=
  if begin > s.size then throw (.outOfRange "kg::slice_t.range begin > this->size()")
  else do
    makeImpl faults
    pure ⟨s.array, s.capacity - begin, s.size - begin, s.pos + begin⟩

/-- `range(begin, end)`. -/
def rangeTo (s : SliceImpl) (begin fin : Nat) (faults : Faults) :
    Action Fault (Memory T) SliceImpl :=
  if begin > s.capacity then throw (.outOfRange "kg::slice_t.range begin > this->capacity()")
  else do
    let fin := if fin > s.capacity then s.capacity else fin
    let size := if begin < fin then fin - begin else 0
    makeImpl faults
    pure ⟨s.array, s.capacity - begin, size, s.pos + begin⟩

/-- The capacity of the new array when a slice has to grow. -/
def doubled (s : SliceImpl) : Nat := if s.capacity ≠ 0 then mulSize s.capacity 2 else 1

/-- Copying the elements of `s` to a new array. -/
def copyOld (s : SliceImpl) (dist : Pointer) : Action Fault (Memory T) Unit :=
  if s.array.isSome then do
    let src ← s.get
    copy src dist s.size
  else pure ()

/-- `append(val)`. The in-place branch writes `dist[size]` with `dist` the start
of the array, whatever `_pos` is. -/
def append (s : SliceImpl) (val : T) (faults : Faults) :
    Action Fault (Memory T) SliceImpl := do
  makeImpl faults
  if s.capacity > s.size then do
    -- no `_pos` here
    let dist ← s.p
    writeAt dist s.size val
    pure ⟨s.array, s.capacity, addSize s.size 1, s.pos⟩
  else do
    let a ← newArray s.doubled faults.array
    s.copyOld (some (a, 0))
    writeAt (some (a, 0)) s.size val
    pure ⟨some a, s.doubled, addSize s.size 1, 0⟩

/-- `append(arrs, size)`. -/
def appendArray (s : SliceImpl) (arrs : Pointer) (size : Nat) (faults : Faults) :
    Action Fault (Memory T) SliceImpl := do
  makeImpl faults
  let newSize := addSize s.size size
  if s.capacity ≥ newSize then
    if size ≠ 0 then do
      let dist ← s.p
      copy arrs ((dist.add s.pos).add s.size) size
      pure ⟨s.array, s.capacity, newSize, s.pos⟩
    else pure ⟨s.array, s.capacity, newSize, s.pos⟩
  else do
    let capacity := if s.doubled < newSize then newSize else s.doubled
    let a ← newArray capacity faults.array
    s.copyOld (some (a, 0))
    copy arrs (Pointer.add (some (a, 0)) s.size) size
    pure ⟨some a, capacity, newSize, 0⟩

/-- `append(slice)`. -/
def appendSlice (s s1 : SliceImpl) (faults : Faults) : Action Fault (Memory T) SliceImpl :=
  if s1.size ≠ 0 then do
    let src ← s1.get
    s.appendArray src s1.size faults
  else s.appendArray none 0 faults

/-- `copy_from(src, size)`. -/
def copyFromArray (s : SliceImpl) (src : Pointer) (size : Nat) : Action Fault (Memory T) Nat :=
  if s.size = 0 ∨ size = 0 then pure 0
  else
    if min s.size size ≠ 0 then do
      let dist ← s.get
      copy src dist (min s.size size)
      pure (min s.size size)
    else pure 0

/-- `copy_from(slice)`. -/
def copyFrom (s s1 : SliceImpl) : Action Fault (Memory T) Nat :=
  if s.size ≠ 0 ∧ s1.size ≠ 0 then do
    let src ← s1.get
    s.copyFromArray src s1.size
  else pure 0

/-- `operator[]`, read. -/
def index (s : SliceImpl) (i : Nat) : Action Fault (Memory T) T := do
  let p ← s.p
  readAt p (i + s.pos)

/-- `operator[]`, written. -/
def setIndex (s : SliceImpl) (i : Nat) (val : T) : Action Fault (Memory T) Unit := do
  let p ← s.p
  writeAt p (i + s.pos) val

/-- `at`, and `at() const`, which differ in the text of the exception. -/
def atWith (what : String) (s : SliceImpl) (i : Nat) : Action Fault (Memory T) T :=
  if i ≥ s.size then throw (.outOfRange what)
  else do
    let p ← s.p
    readAt p (i + s.pos)

/-- `at`. -/
def at' (s : SliceImpl) (i : Nat) : Action Fault (Memory T) T :=
  atWith "kg::slice_impl.at index >= this->size()" s i

/-- `at`, written. -/
def setAt (s : SliceImpl) (i : Nat) (val : T) : Action Fault (Memory T) Unit :=
  if i ≥ s.size then throw (.outOfRange "kg::slice_impl.at index >= this->size()")
  else do
    let p ← s.p
    writeAt p (i + s.pos) val

/-- `at() const`. -/
def atConst (s : SliceImpl) (i : Nat) : Action Fault (Memory T) T :=
  atWith "kg::slice_impl.at const index >= this->size()" s i

/-! ## The representation invariant -/

/-- A slice of the memory `m`. -/
structure Valid (m : Memory T) (s : SliceImpl) : Prop where
  size_le : s.size ≤ s.capacity
  empty : s.array = none → s.pos = 0 ∧ s.size = 0 ∧ s.capacity = 0
  window : ∀ a, s.array = some a → a < m.arrays.size ∧ s.pos + s.capacity = m.length a

variable {m m' : Memory T} {s s1 : SliceImpl}

theorem Valid.extends (h : s.Valid m) (hext : m.Extends m') : s.Valid m' where
  size_le := h.size_le
  empty := h.empty
  window := by
    intro a ha
    obtain ⟨hlt, hlen⟩ := h.window a ha
    exact ⟨Nat.lt_of_lt_of_le hlt hext.size, by rw [hext.length a hlt]; exact hlen⟩

/-- A slice with capacity has an array. -/
theorem Valid.array_of_pos (h : s.Valid m) (hpos : 0 < s.capacity) :
    ∃ a, s.array = some a ∧ a < m.arrays.size ∧ s.pos + s.capacity = m.length a := by
  cases ha : s.array with
  | none =>
    have := (h.empty ha).2.2
    omega
  | some a => exact ⟨a, rfl, h.window a ha⟩

/-- `_array->_p` of a slice with capacity. -/
theorem ends_p (h : s.Valid m) (hpos : 0 < s.capacity) {E : Fault → Memory T → Prop} :
    Ends s.p m (fun p m' => m' = m ∧ ∃ a, p = some (a, 0) ∧ a < m.arrays.size ∧
      s.pos + s.capacity = m.length a) E := by
  obtain ⟨a, ha, hlt, hlen⟩ := h.array_of_pos hpos
  rw [p, ha]
  exact ends_pure ⟨rfl, a, rfl, hlt, hlen⟩

/-- `get` gives a pointer to all elements of the slice. -/
theorem ends_get (h : s.Valid m) {E : Fault → Memory T → Prop} :
    Ends s.get m (fun p m' => m' = m ∧ m.Points p s.size) E := by
  have hsize := h.size_le
  refine ends_ite (fun hne => ?_) fun hzero => ends_pure ⟨rfl, .inl (by omega)⟩
  refine ends_bind (ends_p h (by omega)) ?_
  rintro p _ ⟨rfl, a, rfl, hlt, hlen⟩
  exact ends_pure ⟨rfl, .inr ⟨a, 0 + s.pos, rfl, hlt, by omega⟩⟩

theorem ends_makeImpl {faults : Faults} {E : Fault → Memory T → Prop} (hE : E .badAlloc m) :
    Ends (makeImpl faults) m (fun _ m' => m' = m) E :=
  ends_ite (fun _ => ends_throw hE) fun _ => ends_pure rfl

/-- What an operation that makes a slice may do: make a valid one, or throw
`std::bad_alloc`, having changed nothing. -/
abbrev Makes (x : Action Fault (Memory T) SliceImpl) (m : Memory T) : Prop :=
  Ends x m (fun s m' => m.Extends m' ∧ s.Valid m') fun e m' => e = .badAlloc ∧ m' = m

theorem makes_create (size capacity : Nat) (faults : Faults) :
    Makes (create size capacity faults) m := by
  refine ends_bind (ends_makeImpl ⟨rfl, rfl⟩) ?_
  rintro _ _ rfl
  have hcap : size ≤ if capacity < size then size else capacity := by
    split <;> omega
  generalize (if capacity < size then size else capacity) = capacity' at hcap
  refine ends_ite (fun hne => ?_) fun hzero => ?_
  · refine ends_bind (ends_newArray capacity' ⟨rfl, rfl⟩) ?_
    rintro a m' ⟨hext, -, hlt, hlen⟩
    refine ends_pure ⟨hext, hcap, (fun h => by cases h), fun b hb => ?_⟩
    cases hb
    exact ⟨hlt, by rw [hlen]; exact Nat.zero_add capacity'⟩
  · have hsize : size = 0 := by omega
    have hcap' : capacity' = 0 := by omega
    exact ends_pure ⟨.refl _, hcap, fun _ => ⟨rfl, hsize, hcap'⟩, fun b hb => by cases hb⟩

/-- A part of a valid slice is valid. -/
theorem Valid.part (h : s.Valid m) {begin size : Nat} (hbegin : begin ≤ s.capacity)
    (hsize : size ≤ s.capacity - begin) :
    Valid m ⟨s.array, s.capacity - begin, size, s.pos + begin⟩ where
  size_le := hsize
  empty := by
    intro hnone
    obtain ⟨hpos, hs, hcap⟩ := h.empty hnone
    refine ⟨?_, ?_, ?_⟩
    · show s.pos + begin = 0
      omega
    · show size = 0
      omega
    · show s.capacity - begin = 0
      omega
  window := by
    intro a ha
    obtain ⟨hlt, hlen⟩ := h.window a ha
    refine ⟨hlt, ?_⟩
    show s.pos + begin + (s.capacity - begin) = m.length a
    omega

/-- Making a slice of an existing array may also throw `std::out_of_range`: when
the cut is out of range, and only then. -/
abbrev Cuts (x : Action Fault (Memory T) SliceImpl) (m : Memory T) (bad : Prop) : Prop :=
  Ends x m (fun s m' => ¬ bad ∧ m' = m ∧ s.Valid m)
    fun e m' => m' = m ∧ (e = .badAlloc ∧ ¬ bad ∨ (∃ what, e = .outOfRange what) ∧ bad)

theorem cuts_range (h : s.Valid m) (begin : Nat) (faults : Faults) :
    Cuts (s.range begin faults) m (s.size < begin) := by
  have hle := h.size_le
  refine ends_ite (fun hbad => ends_throw ⟨rfl, .inr ⟨⟨_, rfl⟩, hbad⟩⟩) fun hgood => ?_
  refine ends_bind (ends_makeImpl ⟨rfl, .inl ⟨rfl, hgood⟩⟩) ?_
  rintro _ _ rfl
  exact ends_pure ⟨hgood, rfl, h.part (by omega) (by omega)⟩

theorem cuts_rangeTo (h : s.Valid m) (begin fin : Nat) (faults : Faults) :
    Cuts (s.rangeTo begin fin faults) m (s.capacity < begin) := by
  refine ends_ite (fun hbad => ends_throw ⟨rfl, .inr ⟨⟨_, rfl⟩, hbad⟩⟩) fun hgood => ?_
  refine ends_bind (ends_makeImpl ⟨rfl, .inl ⟨rfl, hgood⟩⟩) ?_
  rintro _ _ rfl
  refine ends_pure ⟨hgood, rfl, h.part (by omega) ?_⟩
  generalize hfin : (if fin > s.capacity then s.capacity else fin) = fin'
  have hle : fin' ≤ s.capacity := by
    rw [← hfin]
    split <;> omega
  split <;> omega

/-! ## Growing -/

/-- The sizes computed for `n` more elements do not reach `2 ^ 64`. -/
def Fits (s : SliceImpl) (n : Nat) : Prop :=
  s.size + n < 2 ^ 64 ∧ (s.capacity < s.size + n → s.capacity * 2 < 2 ^ 64)

instance (s : SliceImpl) (n : Nat) : Decidable (s.Fits n) := by
  unfold Fits
  infer_instance

/-- A slice at the start of a new array is valid. -/
theorem valid_new {a : Ref} {size capacity : Nat} (hsize : size ≤ capacity)
    (ha : a < m.arrays.size) (hlen : m.length a = capacity) :
    Valid m ⟨some a, capacity, size, 0⟩ where
  size_le := hsize
  empty := fun h => by cases h
  window := by
    intro b hb
    cases hb
    exact ⟨ha, by rw [hlen]; exact Nat.zero_add capacity⟩

/-- A slice that shows more of its window is valid. -/
theorem Valid.grown (h : s.Valid m) {size : Nat} (hsize : size ≤ s.capacity) :
    Valid m ⟨s.array, s.capacity, size, s.pos⟩ where
  size_le := hsize
  empty := by
    intro hnone
    obtain ⟨hpos, -, hcap⟩ := h.empty hnone
    refine ⟨hpos, ?_, hcap⟩
    show size = 0
    omega
  window := h.window

/-- The doubled capacity takes one more element. -/
theorem le_doubled (h : s.Valid m) (hfull : s.capacity ≤ s.size)
    (hcap : s.capacity * 2 < 2 ^ 64) : s.size + 1 ≤ s.doubled := by
  have hle := h.size_le
  unfold doubled
  split
  · rw [mulSize_of_lt hcap]
    omega
  · omega

theorem ends_copyOld (h : s.Valid m) {dist : Pointer} (hdist : m.Points dist s.size)
    {E : Fault → Memory T → Prop} :
    Ends (s.copyOld dist) m (fun _ m' => m.Extends m') E := by
  refine ends_ite (fun _ => ?_) fun _ => ends_pure (.refl m)
  refine ends_bind (ends_get h) ?_
  rintro src _ ⟨rfl, hsrc⟩
  exact ends_copy hsrc hdist

theorem makes_append (h : s.Valid m) (hfits : s.Fits 1) (val : T) (faults : Faults) :
    Makes (s.append val faults) m := by
  obtain ⟨hsize, hcap⟩ := hfits
  refine ends_bind (ends_makeImpl ⟨rfl, rfl⟩) ?_
  rintro _ _ rfl
  rw [addSize_of_lt hsize]
  refine ends_ite (fun hroom => ?_) fun hfull => ?_
  · -- in place
    refine ends_bind (ends_p h (by omega)) ?_
    rintro p _ ⟨rfl, a, rfl, hlt, hlen⟩
    have hp : Memory.Points _ (some (a, 0)) (s.size + 1) := .inr ⟨a, 0, rfl, hlt, by omega⟩
    refine ends_bind (ends_writeAt hp (by omega) val) fun _ m' hext => ?_
    exact ends_pure ⟨hext, (h.grown (by omega)).extends hext⟩
  · -- in a new array
    have hdoubled := le_doubled h (by omega) (hcap (by omega))
    refine ends_bind (ends_newArray s.doubled ⟨rfl, rfl⟩) ?_
    rintro a m₁ ⟨hext₁, hp, ha, hlen⟩
    refine ends_bind (ends_copyOld (h.extends hext₁) (hp.le (by omega))) fun _ m₂ hext₂ => ?_
    refine ends_bind (ends_writeAt (hp.extends hext₂) (by omega) val) fun _ m₃ hext₃ => ?_
    have hext := hext₂.trans hext₃
    exact ends_pure ⟨hext₁.trans hext, (valid_new hdoubled ha hlen).extends hext⟩

theorem makes_appendArray (h : s.Valid m) {arrs : Pointer} {n : Nat}
    (harrs : m.Points arrs n) (hfits : s.Fits n) (faults : Faults) :
    Makes (s.appendArray arrs n faults) m := by
  obtain ⟨hsize, hcap⟩ := hfits
  refine ends_bind (ends_makeImpl ⟨rfl, rfl⟩) ?_
  rintro _ _ rfl
  rw [addSize_of_lt hsize]
  refine ends_ite (fun hroom => ?_) fun hfull => ?_
  · -- in place
    refine ends_ite (fun hn => ?_) fun _ => ends_pure ⟨.refl _, h.grown hroom⟩
    refine ends_bind (ends_p h (by omega)) ?_
    rintro p _ ⟨rfl, a, rfl, hlt, hlen⟩
    refine ends_bind (ends_copy harrs (.inr ⟨a, 0 + s.pos + s.size, rfl, hlt, by omega⟩))
      fun _ m' hext => ?_
    exact ends_pure ⟨hext, (h.grown hroom).extends hext⟩
  · -- in a new array
    generalize hcap' : (if s.doubled < s.size + n then s.size + n else s.doubled) = capacity
    have hle : s.size + n ≤ capacity := by
      rw [← hcap']
      split <;> omega
    refine ends_bind (ends_newArray capacity ⟨rfl, rfl⟩) ?_
    rintro a m₁ ⟨hext₁, hp, ha, hlen⟩
    refine ends_bind (ends_copyOld (h.extends hext₁) (hp.le (by omega))) fun _ m₂ hext₂ => ?_
    have hdist : m₂.Points (some (a, 0 + s.size)) n :=
      .inr ⟨a, 0 + s.size, rfl, Nat.lt_of_lt_of_le ha hext₂.size,
        by rw [hext₂.length a ha, hlen]; omega⟩
    refine ends_bind (ends_copy ((harrs.extends hext₁).extends hext₂) hdist)
      fun _ m₃ hext₃ => ?_
    have hext := hext₂.trans hext₃
    exact ends_pure ⟨hext₁.trans hext, (valid_new hle ha hlen).extends hext⟩

theorem makes_appendSlice (h : s.Valid m) (h1 : s1.Valid m) (hfits : s.Fits s1.size)
    (faults : Faults) : Makes (s.appendSlice s1 faults) m := by
  refine ends_ite (fun hne => ?_) fun hzero => ?_
  · refine ends_bind (ends_get h1) ?_
    rintro src _ ⟨rfl, hsrc⟩
    exact makes_appendArray h hsrc hfits faults
  · rw [show s1.size = 0 by omega] at hfits
    exact makes_appendArray h (.inl rfl) hfits faults

/-! ## Elements -/

theorem ends_copyFromArray (h : s.Valid m) {src : Pointer} {n : Nat} (hsrc : m.Points src n)
    {E : Fault → Memory T → Prop} :
    Ends (s.copyFromArray src n) m (fun _ m' => m.Extends m') E := by
  refine ends_ite (fun _ => ends_pure (.refl m)) fun _ => ?_
  refine ends_ite (fun _ => ?_) fun _ => ends_pure (.refl m)
  refine ends_bind (ends_get h) ?_
  rintro dist _ ⟨rfl, hdist⟩
  refine ends_bind (ends_copy (hsrc.le (Nat.min_le_right ..)) (hdist.le (Nat.min_le_left ..)))
    fun _ m' hext => ends_pure hext

theorem ends_copyFrom (h : s.Valid m) (h1 : s1.Valid m) {E : Fault → Memory T → Prop} :
    Ends (s.copyFrom s1) m (fun _ m' => m.Extends m') E := by
  refine ends_ite (fun _ => ?_) fun _ => ends_pure (.refl m)
  refine ends_bind (ends_get h1) ?_
  rintro src _ ⟨rfl, hsrc⟩
  exact ends_copyFromArray h hsrc

/-- The element `i + _pos` of the array, for `i` below the size. -/
theorem ends_p_pos (h : s.Valid m) {i : Nat} (hi : i < s.size) {E : Fault → Memory T → Prop} :
    Ends s.p m (fun p m' => m' = m ∧ m.Points p (i + s.pos + 1)) E := by
  have hle := h.size_le
  refine (ends_p h (by omega)).mono ?_ fun _ _ he => he
  rintro p _ ⟨rfl, a, rfl, hlt, hlen⟩
  exact ⟨rfl, .inr ⟨a, 0, rfl, hlt, by omega⟩⟩

theorem ends_index (h : s.Valid m) {i : Nat} (hi : i < s.size) {E : Fault → Memory T → Prop} :
    Ends (s.index i) m (fun _ m' => m' = m) E := by
  refine ends_bind (ends_p_pos h hi) ?_
  rintro p _ ⟨rfl, hp⟩
  exact ends_readAt hp (by omega)

theorem ends_setIndex (h : s.Valid m) {i : Nat} (hi : i < s.size) (val : T)
    {E : Fault → Memory T → Prop} :
    Ends (s.setIndex i val) m (fun _ m' => m.Extends m') E := by
  refine ends_bind (ends_p_pos h hi) ?_
  rintro p _ ⟨rfl, hp⟩
  exact ends_writeAt hp (by omega) val

/-- `at` throws `std::out_of_range` outside the size, and only there. -/
theorem ends_atWith (h : s.Valid m) (what : String) (i : Nat) :
    Ends (atWith what s i) m (fun _ m' => i < s.size ∧ m' = m)
      fun e m' => m' = m ∧ e = .outOfRange what ∧ s.size ≤ i := by
  refine ends_ite (fun hbad => ends_throw ⟨rfl, rfl, hbad⟩) fun hgood => ?_
  refine (ends_index h (Nat.lt_of_not_le hgood)).mono
    (fun _ _ hm => ⟨Nat.lt_of_not_le hgood, hm⟩) fun _ _ he => he

end SliceImpl

end KgCpp.Slice
