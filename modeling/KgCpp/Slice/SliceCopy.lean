import KgCpp.Slice.SliceContent
import KgCpp.Slice.SliceRuns

/-!
# Copying from slice to slice

`copy_from` copies from the first element to the last, also between slices of one
array. Where the destination starts behind the source and before its end, the
copy reads elements it has written.

`copies_iff`: the destination gets the elements the source had exactly when the
two do not overlap like that, or the source repeats itself with the distance of
the two slices as its period.
-/

namespace KgCpp.Slice

open Lib SliceImpl Memory

variable {T : Type}

namespace State

/-- What `d.copy_from(s)` should do. -/
structure Copies (st : State T) (d s : SliceImpl) : Prop where
  count : (st.step (.copyFrom d s)).2 = .ok (.count (min d.size s.size))
  slices : (st.step (.copyFrom d s)).1.slices = st.slices
  copied : (d.elements (st.step (.copyFrom d s)).1.memory).take (min d.size s.size) =
    (s.elements st.memory).take (min d.size s.size)
  rest : (d.elements (st.step (.copyFrom d s)).1.memory).drop (min d.size s.size) =
    (d.elements st.memory).drop (min d.size s.size)
  outside : ∀ b j, (d.array = some b → j < d.pos ∨ d.pos + min d.size s.size ≤ j) →
    (st.step (.copyFrom d s)).1.memory.cell (b, j) = st.memory.cell (b, j)

/-- Where `d` starts behind `s` in the same array, what `s` shows repeats itself
as far as it is copied. -/
def Repeats (st : State T) (d s : SliceImpl) : Prop :=
  d.array = s.array → s.pos < d.pos → ∀ i, i + (d.pos - s.pos) < min d.size s.size →
    (s.elements st.memory)[i]? = (s.elements st.memory)[i + (d.pos - s.pos)]?

section Copying

variable {st : State T} {d s : SliceImpl}

/-- A copy from slice to slice. -/
theorem step_copyFrom {n : Nat} {m' : Memory T}
    (h : d.copyFrom s st.memory = .ok n m') :
    st.step (.copyFrom d s) = (⟨m', st.slices⟩, .ok (.count n)) := by
  have hact : (Call.copyFrom d s).act st.memory = .ok (.count n) m' := bind_of_ok h _
  rw [step, hact]

/-- The loop is faithful exactly when the source repeats itself. -/
theorem faithful_iff_repeats {a b : Ref} (ha : d.array = some a) (hb : s.array = some b) :
    Faithful st.memory.cell (fun i => (b, s.pos + i)) (fun i => (a, d.pos + i))
      (min d.size s.size) ↔ st.Repeats d s := by
  rw [copyEach_faithful_iff (places_injective a d.pos)]
  constructor
  · intro h harray hpos i hi
    have hab : a = b := Option.some.inj (ha.symm.trans (harray.trans hb))
    -- the place of element `i + (d.pos - s.pos)` of `s` is that of element `i` of `d`
    rw [getElem?_elements hb, getElem?_elements hb, if_pos (by omega), if_pos (by omega)]
    exact h (i + (d.pos - s.pos)) hi i (by omega) (by rw [hab]; congr 1; omega)
  · intro h i hi j hj heq
    obtain ⟨rfl, hplace⟩ := Prod.ext_iff.mp heq
    have hplace' : d.pos + j = s.pos + i := hplace
    have hsame := h (ha.trans hb.symm) (by omega) j (by omega)
    rw [getElem?_elements hb, getElem?_elements hb, if_pos (by omega), if_pos (by omega),
      show j + (d.pos - s.pos) = i by omega] at hsame
    exact hsame

/-- A copy of nothing. -/
theorem copies_of_nothing (hs : s.Valid st.memory) (hzero : min d.size s.size = 0) :
    st.Copies d s := by
  have hcopy : d.copyFrom s st.memory = .ok 0 st.memory := by
    rw [copyFrom_eq hs, copyFromArray_zero hzero]
  have hstep := step_copyFrom hcopy
  constructor
  · rw [hstep, hzero]
  · rw [hstep]
  · rw [hzero, List.take_zero, List.take_zero]
  · rw [hstep]
  · rw [hstep]
    exact fun _ _ _ => rfl

/-- A copy of something does what it should when the first elements of `d` are
those of `s`: the rest it does in any case. -/
theorem copies_iff_of_ok {a : Ref} {m' : Memory T} (ha : d.array = some a)
    (hcopy : d.copyFrom s st.memory = .ok (min d.size s.size) m')
    (hw : st.memory.Wrote m' a d.pos (min d.size s.size)) :
    st.Copies d s ↔ (d.elements m').take (min d.size s.size) =
      (s.elements st.memory).take (min d.size s.size) := by
  have hstep := step_copyFrom hcopy
  constructor
  · intro hcopies
    have hcopied := hcopies.copied
    rwa [hstep] at hcopied
  · intro hcopied
    constructor
    · rw [hstep]
    · rw [hstep]
    · rw [hstep]
      exact hcopied
    · rw [hstep, drop_elements ha, drop_elements ha]
      exact held_congr fun i _ => hw.outside a _ (.inr (.inr (by omega)))
    · rw [hstep]
      exact fun _ _ hout => cell_wrote hw ha hout

/-- **Copying from slice to slice**: `copy_from` does what it should exactly when
the source repeats itself where the two overlap. -/
theorem copies_iff {fresh : Nat → Nat → T} (h : Reachable fresh st) (hd : d ∈ st.slices)
    (hs : s ∈ st.slices) : st.Copies d s ↔ st.Repeats d s := by
  have hvd := inv_reachable h d hd
  have hvs := inv_reachable h s hs
  by_cases hzero : min d.size s.size = 0
  · exact iff_of_true (copies_of_nothing hvs hzero) fun _ _ i hi => by omega
  · obtain ⟨b, k, a, m', hp, ha, hcopy, hcopied⟩ :=
      copyFromArray_ok hvd (points_pointer hvs) hzero
    obtain ⟨hb, rfl⟩ := of_pointer_eq_some hp
    rw [← copyFrom_eq hvs] at hcopy
    rw [copies_iff_of_ok ha hcopy hcopied.wrote, ← faithful_iff_repeats ha hb,
      take_elements ha (Nat.min_le_left ..), take_elements hb (Nat.min_le_right ..),
      held_eq_iff, hcopied.cell]
    rfl

end Copying

/-- Three elements, the first two and the last two of them. -/
def threeElements : State Nat :=
  ((((init fun _ i => i).step (.create 3 3 noFaults)).1.step
    (.rangeTo ⟨some 0, 3, 3, 0⟩ 0 2 noFaults)).1.step
    (.range ⟨some 0, 3, 3, 0⟩ 1 noFaults)).1

theorem reachable_threeElements : Reachable (fun _ i => i) threeElements := by
  refine .step _ (.step _ (.step _ .init trivial) ?_) ?_
  · show (⟨some 0, 3, 3, 0⟩ : SliceImpl) ∈ _
    decide
  · show (⟨some 0, 3, 3, 0⟩ : SliceImpl) ∈ _
    decide

/-- Towards the front of the array. -/
theorem copies_iff_front : threeElements.Copies ⟨some 0, 3, 2, 0⟩ ⟨some 0, 2, 2, 1⟩ :=
  (copies_iff reachable_threeElements (by decide) (by decide)).mpr
    fun _ hpos => absurd hpos (by decide)

/-- Towards the end: of `0, 1, 2` the last two become `0, 0`, not `0, 1`. -/
theorem copy_behind : ¬ ∀ (fresh : Nat → Nat → Nat) (st : State Nat), Reachable fresh st →
    ∀ d ∈ st.slices, ∀ s ∈ st.slices, st.Copies d s := by
  intro hall
  have hcopies := hall _ _ reachable_threeElements ⟨some 0, 2, 2, 1⟩ (by decide)
    ⟨some 0, 3, 2, 0⟩ (by decide)
  exact absurd hcopies.copied (by decide +kernel)

end State

end KgCpp.Slice
