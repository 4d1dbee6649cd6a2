import KgCpp.Slice.Places
import KgCpp.Slice.SliceImpl

/-!
# What slices show

`elements m s` are the elements of the slice `s`. For every operation that makes
a slice or copies elements there is one lemma that says what it returns and
which places it writes; what any slice shows afterwards follows
(`elements_keeps`, `elements_wrote`).
-/

namespace KgCpp.Slice.SliceImpl

open Lib Memory

variable {T : Type} {m m' : Memory T} {s s1 : SliceImpl} {a : Ref}

/-- The elements a slice shows. -/
def elements (m : Memory T) (s : SliceImpl) : List T :=
  m.held (s.array.map fun a => (a, s.pos)) s.size

theorem elements_some (ha : s.array = some a) :
    elements m s = m.held (some (a, s.pos)) s.size := by
  rw [elements, ha, Option.map_some]

theorem elements_none (ha : s.array = none) : elements m s = [] := by
  rw [elements, ha, Option.map_none, held]

theorem getElem?_elements (ha : s.array = some a) (i : Nat) :
    (elements m s)[i]? = if i < s.size then m.cell (a, s.pos + i) else none := by
  rw [elements_some ha, getElem?_held]

/-- The first elements. -/
theorem take_elements (ha : s.array = some a) {n : Nat} (hn : n ≤ s.size) :
    (elements m s).take n = m.held (some (a, s.pos)) n := by
  rw [elements_some ha, held, take_window, Nat.min_eq_left hn]
  rfl

/-- The elements behind the first ones. -/
theorem drop_elements (ha : s.array = some a) (n : Nat) :
    (elements m s).drop n = m.held (some (a, s.pos + n)) (s.size - n) := by
  rw [elements_some ha]
  exact drop_window ..

/-- An empty slice shows nothing. -/
theorem elements_of_size_eq_zero (h : s.size = 0) : elements m s = [] := by
  rw [elements, h]
  cases s.array with
  | none => rfl
  | some a => exact window_zero ..

theorem length_elements (h : s.Valid m) : (elements m s).length = s.size := by
  have hle := h.size_le
  cases ha : s.array with
  | none => rw [elements_none ha, (h.empty ha).2.1, List.length_nil]
  | some a =>
    have hlen := (h.window a ha).2
    rw [elements_some ha]
    exact length_window (by rw [Memory.length] at hlen; omega)

/-- The places a slice shows decide what it shows. -/
theorem elements_congr (ha : s.array = some a)
    (h : ∀ i < s.size, m'.cell (a, s.pos + i) = m.cell (a, s.pos + i)) :
    elements m' s = elements m s := by
  rw [elements_some ha, elements_some ha]
  exact held_congr h

/-- A slice does not see what happens to other arrays. -/
theorem elements_keeps (h : s.Valid m) (hkeeps : m.Keeps m') :
    elements m' s = elements m s := by
  cases ha : s.array with
  | none => rw [elements_none ha, elements_none ha]
  | some a => exact elements_congr ha fun i _ => hkeeps.2 a (h.window a ha).1 _

/-- A slice does not see writes next to its elements. -/
theorem elements_wrote {k n : Nat} (hw : m.Wrote m' a k n)
    (hout : s.array = some a → s.pos + s.size ≤ k ∨ k + n ≤ s.pos) :
    elements m' s = elements m s := by
  cases hb : s.array with
  | none => rw [elements_none hb, elements_none hb]
  | some b =>
    refine elements_congr hb fun i hi => hw.outside b _ ?_
    by_cases hba : b = a
    · subst hba
      rcases hout hb with hle | hle
      · exact .inr (.inl (by omega))
      · exact .inr (.inr (by omega))
    · exact .inl hba

/-- A slice sees of a write what it shows of the places written. -/
theorem getElem?_elements_wrote {k n : Nat} (hw : m.Wrote m' a k n) (i : Nat) :
    (elements m' s)[i]? = (elements m s)[i]? ∨
      s.array = some a ∧ k ≤ s.pos + i ∧ s.pos + i < k + n := by
  cases hb : s.array with
  | none => exact .inl (by rw [elements_none hb, elements_none hb])
  | some b =>
    rw [getElem?_elements hb, getElem?_elements hb]
    by_cases hout : b ≠ a ∨ s.pos + i < k ∨ k + n ≤ s.pos + i
    · rw [hw.outside b (s.pos + i) hout]
      exact .inl rfl
    · push Not at hout
      exact .inr ⟨congrArg some hout.1, hout.2⟩

/-- A write to the array of `s` leaves the places that are not written. -/
theorem cell_wrote {k n : Nat} (hw : m.Wrote m' a k n) (ha : s.array = some a) {b : Ref}
    {j : Nat} (hout : s.array = some b → j < k ∨ k + n ≤ j) :
    m'.cell (b, j) = m.cell (b, j) := by
  by_cases hba : b = a
  · subst hba
    exact hw.outside b j (.inr (hout ha))
  · exact hw.outside b j (.inl hba)

/-- Equal places, equal elements. -/
theorem elements_of_cell_eq (h : m'.cell = m.cell) : elements m' s = elements m s := by
  cases hb : s.array with
  | none => rw [elements_none hb, elements_none hb]
  | some b => exact elements_congr hb fun i _ => by rw [h]

/-- The place of the last element. -/
theorem cell_of_elements {xs : List T} {v : T} (h : elements m s = xs ++ [v])
    (ha : s.array = some a) : m.cell (a, s.pos + xs.length) = some v := by
  have hlast := getElem?_elements (m := m) ha xs.length
  rw [h, List.getElem?_append_right (Nat.le_refl _), Nat.sub_self,
    List.getElem?_cons_zero] at hlast
  split at hlast
  · exact hlast.symm
  · cases hlast

/-! ## Pointers to elements -/

/-- `_array->_p`. -/
theorem p_ok (ha : s.array = some a) : s.p m = .ok (some (a, 0)) m := by
  rw [p, ha]
  rfl

/-- A slice with elements has them in an array. -/
theorem Valid.shows (h : s.Valid m) (hne : s.size ≠ 0) :
    ∃ a, s.array = some a ∧ a < m.arrays.size ∧ s.pos + s.size ≤ m.length a := by
  have hle := h.size_le
  obtain ⟨a, ha, hlt, hlen⟩ := h.array_of_pos (by omega)
  exact ⟨a, ha, hlt, by omega⟩

/-- What `get` returns. -/
def pointer (s : SliceImpl) : Pointer :=
  if s.size ≠ 0 then s.array.map fun a => (a, s.pos) else none

theorem pointer_of_ne (ha : s.array = some a) (hne : s.size ≠ 0) :
    s.pointer = some (a, s.pos) := by
  rw [pointer, if_pos hne, ha, Option.map_some]

theorem of_pointer_eq_some {k : Nat} (h : s.pointer = some (a, k)) :
    s.array = some a ∧ k = s.pos := by
  unfold pointer at h
  split at h
  · obtain ⟨b, hb, heq⟩ := Option.map_eq_some_iff.mp h
    cases heq
    exact ⟨hb, rfl⟩
  · cases h

theorem get_ok (h : s.Valid m) : s.get m = .ok s.pointer m := by
  by_cases hne : s.size ≠ 0
  · obtain ⟨a, ha, -, -⟩ := h.shows hne
    rw [get, if_pos hne, bind_of_ok (p_ok ha), add_some, Nat.zero_add, pointer_of_ne ha hne]
    rfl
  · rw [get, if_neg hne, pointer, if_neg hne]
    rfl

theorem points_pointer (h : s.Valid m) : m.Points s.pointer s.size := by
  by_cases hne : s.size = 0
  · exact .inl hne
  · obtain ⟨a, ha, hlt, hle⟩ := h.shows hne
    exact .inr ⟨a, s.pos, pointer_of_ne ha hne, hlt, hle⟩

theorem held_pointer (h : s.Valid m) : m.held s.pointer s.size = elements m s := by
  by_cases hne : s.size = 0
  · rw [elements_of_size_eq_zero hne, pointer, if_neg (not_not.mpr hne), held]
  · obtain ⟨a, ha, -, -⟩ := h.shows hne
    rw [pointer_of_ne ha hne, elements_some ha]

section Fresh

variable {m₀ : Memory T} (hkeeps : m₀.Keeps m) (hnew : m₀.arrays.size ≤ a)
  (ha : a < m.arrays.size)
include hkeeps hnew ha

/-- Copying to a new array what a pointer points to. -/
theorem copy_fresh {src : Pointer} {k n : Nat} (hsrc : m₀.Points src n)
    (hlen : k + n ≤ m.length a) :
    ∃ m', copy src (some (a, k)) n m = .ok () m' ∧ m.Wrote m' a k n ∧
      m'.held (some (a, k)) n = m₀.held src n := by
  rcases hsrc with rfl | ⟨b, j, rfl, hlt, hle⟩
  · refine ⟨m, rfl, .refl .., ?_⟩
    cases src with
    | none => exact window_zero ..
    | some place => exact (window_zero ..).trans (window_zero ..).symm
  · have hne : b ≠ a := Nat.ne_of_lt (Nat.lt_of_lt_of_le hlt hnew)
    obtain ⟨m', hcopy, hcopied⟩ :=
      copy_ok (k := j) (by rw [hkeeps.1.length b hlt]; exact hle) ha hlen
    refine ⟨m', hcopy, hcopied.wrote, (hcopied.held fun hba => absurd hba hne).trans ?_⟩
    exact held_congr fun i _ => hkeeps.2 b hlt _

/-- Copying the elements of `s` to a new array. -/
theorem copyOld_ok (h : s.Valid m₀) (hlen : s.size ≤ m.length a) :
    ∃ m', s.copyOld (some (a, 0)) m = .ok () m' ∧ m.Wrote m' a 0 s.size ∧
      m'.held (some (a, 0)) s.size = elements m₀ s := by
  obtain ⟨m', hcopy, hw, hheld⟩ :=
    copy_fresh hkeeps hnew ha (k := 0) (points_pointer h) (by omega)
  rw [held_pointer h] at hheld
  cases hsome : s.array with
  | none =>
    refine ⟨m, ?_, .refl .., ?_⟩
    · rw [copyOld, hsome]
      rfl
    · rw [elements_none hsome, (h.empty hsome).2.1]
      exact window_zero ..
  | some b =>
    refine ⟨m', ?_, hw, hheld⟩
    rw [copyOld, if_pos (by rw [hsome]; rfl), bind_of_ok (get_ok (h.extends hkeeps.1))]
    exact hcopy

end Fresh

/-! ## `append` -/

/-- No allocation fails. -/
abbrev noFaults : Faults := ⟨false, false⟩

theorem makeImpl_ok (m : Memory T) (array : Bool) : makeImpl ⟨false, array⟩ m = .ok () m := rfl

/-- An `append(val)` that returns would return the same without faults. -/
theorem append_noFaults {v : T} {faults : Faults} {r : SliceImpl}
    (h : s.append v faults m = .ok r m') : s.append v noFaults m = .ok r m' := by
  obtain ⟨impl, array⟩ := faults
  cases impl with
  | true => cases h
  | false =>
    cases array with
    | false => exact h
    | true =>
      -- without a new array this fault does not come to bear
      by_cases hroom : s.capacity > s.size
      · rw [append, bind_of_ok (makeImpl_ok m _), if_pos hroom] at h ⊢
        exact h
      · rw [append, bind_of_ok (makeImpl_ok m _), if_neg hroom] at h
        cases h

/-- `append(val)` in place. -/
theorem append_inPlace (h : s.Valid m) (hroom : s.size < s.capacity) (hfits : s.Fits 1)
    (v : T) : ∃ a m', s.array = some a ∧ a < m.arrays.size ∧
      s.append v noFaults m = .ok ⟨s.array, s.capacity, s.size + 1, s.pos⟩ m' ∧
      Put m m' (a, s.size) v := by
  obtain ⟨a, ha, hlt, hlen⟩ := h.array_of_pos (by omega)
  obtain ⟨m', hwrite, hput⟩ := writeAt_ok (m := m) (k := 0) (i := s.size) hlt (by omega) v
  rw [Nat.zero_add] at hput
  refine ⟨a, m', ha, hlt, ?_, hput⟩
  rw [append, bind_of_ok (makeImpl_ok m _), if_pos hroom, bind_of_ok (p_ok ha),
    bind_of_ok hwrite, addSize_of_lt hfits.1]
  rfl

/-- `append(val)` in a new array. -/
theorem append_grow (h : s.Valid m) (hfull : s.capacity ≤ s.size) (hfits : s.Fits 1) (v : T) :
    ∃ m', s.append v noFaults m = .ok ⟨some m.arrays.size, s.doubled, s.size + 1, 0⟩ m' ∧
      m.Keeps m' ∧ m'.held (some (m.arrays.size, 0)) (s.size + 1) = elements m s ++ [v] := by
  have hdoubled := le_doubled h hfull (hfits.2 (by omega))
  -- the new array, the old elements in it, and the new one behind them
  obtain ⟨m₁, hnew, hkeeps₁, hlt, hlen⟩ := newArray_ok m s.doubled
  obtain ⟨m₂, hold, hw₂, hheld⟩ := copyOld_ok hkeeps₁ (Nat.le_refl _) hlt h (by omega)
  obtain ⟨m₃, hwrite, hput⟩ := writeAt_ok (m := m₂) (k := 0) (i := s.size)
    (by rw [hw₂.size]; exact hlt) (by rw [hw₂.length, hlen]; omega) v
  rw [Nat.zero_add] at hput
  refine ⟨m₃, ?_, (hkeeps₁.wrote (Nat.le_refl _) hw₂).wrote (Nat.le_refl _) hput.wrote, ?_⟩
  · rw [append, bind_of_ok (makeImpl_ok m _), if_neg (by omega), bind_of_ok hnew,
      bind_of_ok hold, bind_of_ok hwrite, addSize_of_lt hfits.1]
    rfl
  · rw [← held_append, Nat.zero_add, ← hheld]
    refine congrArg₂ (· ++ ·) (held_congr fun i hi => hput.other ?_) ?_
    · exact fun heq => by have := (Prod.ext_iff.mp heq).2; omega
    · exact held_one hput.self

/-- An `append(arrs, size)` that returns would return the same without faults. -/
theorem appendArray_noFaults {arrs : Pointer} {n : Nat} {faults : Faults} {r : SliceImpl}
    (h : s.appendArray arrs n faults m = .ok r m') :
    s.appendArray arrs n noFaults m = .ok r m' := by
  obtain ⟨impl, array⟩ := faults
  cases impl with
  | true => cases h
  | false =>
    cases array with
    | false => exact h
    | true =>
      -- as for one element
      by_cases hroom : s.capacity ≥ addSize s.size n
      · rw [appendArray, bind_of_ok (makeImpl_ok m _), if_pos hroom] at h ⊢
        exact h
      · rw [appendArray, bind_of_ok (makeImpl_ok m _), if_neg hroom] at h
        cases h

/-- `append(arrs, size)` of nothing. -/
theorem appendArray_zero (h : s.Valid m) (hfits : s.Fits 0) (arrs : Pointer) :
    s.appendArray arrs 0 noFaults m = .ok s m := by
  have hle := h.size_le
  rw [appendArray, bind_of_ok (makeImpl_ok m _), addSize_of_lt hfits.1, Nat.add_zero,
    if_pos hle, if_neg (not_not.mpr rfl)]
  rfl

/-- `append(arrs, size)` in place. -/
theorem appendArray_inPlace (h : s.Valid m) {arrs : Pointer} {n : Nat}
    (harrs : m.Points arrs n) (hroom : s.size + n ≤ s.capacity) (hfits : s.Fits n)
    (hn : n ≠ 0) : ∃ b k a m', arrs = some (b, k) ∧ s.array = some a ∧ a < m.arrays.size ∧
      s.appendArray arrs n noFaults m = .ok ⟨s.array, s.capacity, s.size + n, s.pos⟩ m' ∧
      Copied m m' (b, k) (a, s.pos + s.size) n := by
  obtain ⟨a, ha, hlt, hlen⟩ := h.array_of_pos (by omega)
  rcases harrs with hzero | ⟨b, k, rfl, hb, hk⟩
  · exact absurd hzero hn
  · obtain ⟨m', hcopy, hcopied⟩ := copy_ok (j := s.pos + s.size) hk hlt (by omega)
    refine ⟨b, k, a, m', rfl, ha, hlt, ?_, hcopied⟩
    rw [appendArray, bind_of_ok (makeImpl_ok m _), addSize_of_lt hfits.1, if_pos hroom, if_pos hn,
      bind_of_ok (p_ok ha), add_some, add_some, Nat.zero_add, bind_of_ok hcopy]
    rfl

/-- The capacity `append(arrs, size)` gives a new array. -/
def grown (s : SliceImpl) (n : Nat) : Nat :=
  if s.doubled < s.size + n then s.size + n else s.doubled

theorem le_grown (s : SliceImpl) (n : Nat) : s.size + n ≤ s.grown n := by
  unfold grown
  split <;> omega

/-- `append(arrs, size)` in a new array. -/
theorem appendArray_grow (h : s.Valid m) {arrs : Pointer} {n : Nat}
    (harrs : m.Points arrs n) (hfull : s.capacity < s.size + n) (hfits : s.Fits n) :
    ∃ m', s.appendArray arrs n noFaults m =
        .ok ⟨some m.arrays.size, s.grown n, s.size + n, 0⟩ m' ∧ m.Keeps m' ∧
      m'.held (some (m.arrays.size, 0)) (s.size + n) = elements m s ++ m.held arrs n := by
  have hle := s.le_grown n
  -- the new array, the old elements in it, and what is appended behind them
  obtain ⟨m₁, hnew, hkeeps₁, hlt, hlen⟩ := newArray_ok m (s.grown n)
  obtain ⟨m₂, hold, hw₂, hheld₂⟩ := copyOld_ok hkeeps₁ (Nat.le_refl _) hlt h (by omega)
  have hkeeps₂ := hkeeps₁.wrote (Nat.le_refl _) hw₂
  obtain ⟨m₃, hcopy, hw₃, hheld₃⟩ := copy_fresh hkeeps₂ (Nat.le_refl _) (k := s.size)
    (by rw [hw₂.size]; exact hlt) harrs (by rw [hw₂.length, hlen]; exact hle)
  refine ⟨m₃, ?_, hkeeps₂.wrote (Nat.le_refl _) hw₃, ?_⟩
  · rw [appendArray, bind_of_ok (makeImpl_ok m _), addSize_of_lt hfits.1, if_neg (by omega)]
    rw [← grown, bind_of_ok hnew, bind_of_ok hold, add_some, Nat.zero_add, bind_of_ok hcopy]
    rfl
  · rw [← held_append, Nat.zero_add, ← hheld₂, ← hheld₃]
    refine congrArg (· ++ _) (held_congr fun i hi => ?_)
    exact hw₃.outside _ _ (.inr (.inl (by omega)))

/-- What an `append(arrs, size)` that returns `r` leaves. -/
structure Appended (m m' : Memory T) (s r : SliceImpl) (xs : List T) : Prop where
  elements : r.elements m' = s.elements m ++ xs
  size : r.size = s.size + xs.length
  inPlace : s.size + xs.length ≤ s.capacity →
    r.array = s.array ∧ r.pos = s.pos ∧ r.capacity = s.capacity ∧
      ∀ b j, (s.array = some b → j < s.pos + s.size ∨ s.pos + s.size + xs.length ≤ j) →
        m'.cell (b, j) = m.cell (b, j)
  inNew : s.capacity < s.size + xs.length →
    r.array = some m.arrays.size ∧ r.capacity = s.grown xs.length ∧ m.Keeps m'

/-- `append(arrs, size)`, from storage that the copy does not overwrite before it
is read. -/
theorem appendArray_appended (h : s.Valid m) {arrs : Pointer} {n : Nat}
    (harrs : m.Points arrs n) (hfits : s.Fits n)
    (hapart : ∀ a place, s.array = some a → arrs = some place →
      Apart place (a, s.pos + s.size) n) :
    ∃ r m', s.appendArray arrs n noFaults m = .ok r m' ∧
      Appended m m' s r (m.held arrs n) := by
  have hlen := length_held harrs
  by_cases hroom : s.size + n ≤ s.capacity
  · by_cases hn : n = 0
    · subst hn
      have hnil : m.held arrs 0 = [] := List.length_eq_zero_iff.mp hlen
      refine ⟨s, m, appendArray_zero h hfits arrs, ?_, ?_, fun _ => ⟨rfl, rfl, rfl, ?_⟩, ?_⟩
      · rw [hnil, List.append_nil]
      · rw [hlen, Nat.add_zero]
      · exact fun _ _ _ => rfl
      · intro hfull
        rw [hlen] at hfull
        omega
    · obtain ⟨b, k, a, m', rfl, ha, hlt, happend, hcopied⟩ :=
        appendArray_inPlace h harrs hroom hfits hn
      have hw : m.Wrote m' a (s.pos + s.size) n := hcopied.wrote
      refine ⟨_, m', happend, ?_, by rw [hlen], fun _ => ⟨rfl, rfl, rfl, ?_⟩, ?_⟩
      · calc elements m' ⟨s.array, s.capacity, s.size + n, s.pos⟩
            = m'.held (some (a, s.pos)) (s.size + n) := elements_some ha
          _ = m'.held (some (a, s.pos)) s.size ++ m'.held (some (a, s.pos + s.size)) n :=
            (held_append ..).symm
          _ = elements m s ++ m.held (some (b, k)) n := by
            rw [hcopied.held (hapart a (b, k) ha rfl), ← elements_some ha,
              elements_wrote hw fun _ => .inl (Nat.le_refl _)]
      · intro c j hout
        rw [hlen] at hout
        exact cell_wrote hw ha hout
      · intro hfull
        rw [hlen] at hfull
        omega
  · obtain ⟨m', happend, hkeeps, hheld⟩ := appendArray_grow h harrs (by omega) hfits
    refine ⟨_, m', happend, ?_, by rw [hlen], ?_, fun _ => ⟨rfl, by rw [hlen], hkeeps⟩⟩
    · exact hheld
    · intro hle
      rw [hlen] at hle
      omega

/-- `append(slice)` appends what `get` points to. -/
theorem appendSlice_eq (h1 : s1.Valid m) (faults : Faults) :
    s.appendSlice s1 faults m = s.appendArray s1.pointer s1.size faults m := by
  by_cases hne : s1.size ≠ 0
  · rw [appendSlice, if_pos hne, bind_of_ok (get_ok h1)]
  · rw [appendSlice, if_neg hne, pointer, if_neg hne, not_not.mp hne]

/-! ## `copy_from` -/

/-- `copy_from(src, size)` of nothing, or to nothing. -/
theorem copyFromArray_zero {n : Nat} (hzero : min s.size n = 0) (src : Pointer) :
    s.copyFromArray src n m = .ok 0 m := by
  rw [copyFromArray, if_pos (by omega)]
  rfl

/-- `copy_from(src, size)`. -/
theorem copyFromArray_ok (h : s.Valid m) {src : Pointer} {n : Nat} (hsrc : m.Points src n)
    (hne : min s.size n ≠ 0) : ∃ b k a m', src = some (b, k) ∧ s.array = some a ∧
      s.copyFromArray src n m = .ok (min s.size n) m' ∧
      Copied m m' (b, k) (a, s.pos) (min s.size n) := by
  obtain ⟨a, ha, hlt, hle⟩ := h.shows (by omega)
  rcases hsrc with hzero | ⟨b, k, rfl, hb, hk⟩
  · omega
  · obtain ⟨m', hcopy, hcopied⟩ :=
      copy_ok (a := b) (k := k) (j := s.pos) (n := min s.size n) (by omega) hlt (by omega)
    refine ⟨b, k, a, m', rfl, ha, ?_, hcopied⟩
    rw [copyFromArray, if_neg (by omega), if_pos hne, bind_of_ok (get_ok h),
      pointer_of_ne ha (by omega), bind_of_ok hcopy]
    rfl

/-- `copy_from(slice)` copies what `get` points to. -/
theorem copyFrom_eq (h1 : s1.Valid m) :
    s.copyFrom s1 m = s.copyFromArray s1.pointer s1.size m := by
  by_cases hne : s.size ≠ 0 ∧ s1.size ≠ 0
  · rw [copyFrom, if_pos hne, bind_of_ok (get_ok h1)]
  · rw [copyFrom, if_neg hne, copyFromArray_zero (by omega)]
    rfl

end KgCpp.Slice.SliceImpl
