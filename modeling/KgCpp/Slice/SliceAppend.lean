import KgCpp.Slice.SliceContent
import KgCpp.Slice.SliceRuns

/-!
# Appending one element

`append(val)` has two paths. Into a new array it does what it should. In place it
writes the element behind the first `_size` elements of the *array*, not behind
the elements of the slice: for a slice that does not start where its array does,
the new element is not the appended one, and some other element is overwritten.

`appends_iff`: appending does what it should exactly when the slice is full, or
starts where its array does, or the misplaced write happens to change nothing
that shows.
-/

namespace KgCpp.Slice

open Lib SliceImpl Memory

variable {T : Type}

namespace State

/-- The program puts `v` into a variable of its own. -/
def withVariable (st : State T) (v : T) : State T := (st.step (.array [v])).1

/-- What `s.append(v)` should do when it returns `r` and leaves the state `st'`. -/
structure AppendsOne (st st' : State T) (s : SliceImpl) (v : T) (r : SliceImpl) : Prop where
  slices : st'.slices = st.slices ++ [r]
  elements : r.elements st'.memory = s.elements st.memory ++ [v]
  seen : s.elements st'.memory = s.elements st.memory
  others : ∀ t ∈ st.slices, ∀ i,
    (t.elements st'.memory)[i]? = (t.elements st.memory)[i]? ∨
      s.size < s.capacity ∧ t.array = s.array ∧ t.pos + i = s.pos + s.size
  agrees : ∀ p faults r₁ st₁, (st.withVariable v).memory.held p 1 = [v] →
    (st.withVariable v).step (.appendArray s p 1 faults) = (st₁, .ok (.made r₁)) →
    r₁.elements st₁.memory = r.elements st'.memory ∧ r₁.size = r.size ∧
      r₁.capacity = r.capacity

/-- `s.append(v)` returns when no allocation fails, and does what it should
whenever it returns. -/
def Appends (st : State T) (s : SliceImpl) (v : T) : Prop :=
  (∃ r, (st.step (.append s v noFaults)).2 = .ok (.made r)) ∧
    ∀ faults r, (st.step (.append s v faults)).2 = .ok (.made r) →
      st.AppendsOne (st.step (.append s v faults)).1 s v r

/-- When the write of `append(val)` does no harm: there is none, it is at the
right place, or the new element is there already and no slice sees a change. -/
def Harmless (st : State T) (s : SliceImpl) (v : T) : Prop :=
  s.size = s.capacity ∨ s.pos = 0 ∨ ∃ a, s.array = some a ∧
    st.memory.cell (a, s.pos + s.size) = some v ∧
    (st.memory.cell (a, s.size) = some v ∨
      ∀ t ∈ st.slices, t.array = some a → s.size < t.pos ∨ t.pos + t.size ≤ s.size)

section OneElement

variable {st : State T} {s : SliceImpl} {v : T}

/-- A pointer to one element. -/
theorem points_of_held {m : Memory T} {p : Pointer} (h : m.held p 1 = [v]) : m.Points p 1 := by
  cases p with
  | none => cases h
  | some place =>
    obtain ⟨a, k⟩ := place
    have hcell : m.cell (a, k) = some v := by
      have hheld := getElem?_held m a k 1 0
      rw [h, if_pos Nat.one_pos] at hheld
      exact hheld.symm
    have hk : k < m.length a := (List.getElem?_eq_some_iff.mp hcell).1
    refine .inr ⟨a, k, rfl, Nat.lt_of_not_le fun hle => ?_, hk⟩
    rw [Memory.length, Store.get_of_size_le hle] at hk
    exact absurd hk (Nat.not_lt_zero k)

theorem keeps_withVariable (st : State T) (v : T) :
    st.memory.Keeps (st.withVariable v).memory := keeps_alloc st.memory [v]

/-- The overload for arrays, given the address of `v`. -/
theorem agrees_of_elements (h : s.Valid st.memory) (hfits : s.Fits 1) (r : SliceImpl)
    (st' : State T) (helements : r.elements st'.memory = s.elements st.memory ++ [v])
    (hsize : r.size = s.size + 1)
    (hcap : r.capacity = if s.size < s.capacity then s.capacity else s.doubled)
    {p : Pointer} {faults : Faults} {r₁ : SliceImpl} {st₁ : State T}
    (hp : (st.withVariable v).memory.held p 1 = [v])
    (hstep : (st.withVariable v).step (.appendArray s p 1 faults) = (st₁, .ok (.made r₁))) :
    r₁.elements st₁.memory = r.elements st'.memory ∧ r₁.size = r.size ∧
      r₁.capacity = r.capacity := by
  have hkeeps := keeps_withVariable st v
  have h₀ := h.extends hkeeps.1
  obtain ⟨r₂, m₂, happend, hdone⟩ :=
    appendArray_appended h₀ (points_of_held hp) hfits fun a place _ _ _ => by omega
  rw [hp] at hdone
  obtain ⟨m₃, happend₃, hst₃⟩ := made_of_step rfl (congrArg Prod.snd hstep)
  rw [hstep] at hst₃
  replace hst₃ : st₁ = _ := hst₃
  obtain ⟨rfl, rfl⟩ : r₁ = r₂ ∧ m₃ = m₂ := by
    have heq := (appendArray_noFaults happend₃).symm.trans happend
    cases heq
    exact ⟨rfl, rfl⟩
  refine ⟨?_, by rw [hsize]; exact hdone.size, ?_⟩
  · rw [hst₃, helements, ← elements_keeps h hkeeps]
    exact hdone.elements
  · rw [hcap]
    split
    · exact (hdone.inPlace (by simpa using by omega)).2.2.1
    · have hfull : s.capacity ≤ s.size := by omega
      have hdoubled := le_doubled h hfull (hfits.2 (by omega))
      rw [(hdone.inNew (by simpa using by omega)).2.1, grown, if_neg (by simpa using hdoubled)]

/-- Every call that returns does the same. -/
theorem appends_iff_of_ok {r : SliceImpl} {m' : Memory T}
    (h : s.append v noFaults st.memory = .ok r m') :
    st.Appends s v ↔ st.AppendsOne ⟨m', st.slices ++ [r]⟩ s v r := by
  constructor
  · rintro ⟨-, hall⟩
    have hstep := step_of_made (c := .append s v noFaults) rfl h
    have hone := hall noFaults r (congrArg Prod.snd hstep)
    rw [hstep] at hone
    exact hone
  · refine fun hone => ⟨⟨r, congrArg Prod.snd (step_of_made rfl h)⟩, fun faults r' hr' => ?_⟩
    obtain ⟨m'', happend, hst⟩ := made_of_step rfl hr'
    have heq := (append_noFaults happend).symm.trans h
    cases heq
    rw [hst]
    exact hone

/-- Into a new array. -/
theorem appends_of_full (hinv : st.Inv) (hs : s ∈ st.slices) (hfits : s.Fits 1)
    (hfull : s.capacity ≤ s.size) : st.Appends s v := by
  have h := hinv s hs
  obtain ⟨m', happend, hkeeps, hheld⟩ := append_grow h hfull hfits v
  have helements : elements m' ⟨some st.memory.arrays.size, s.doubled, s.size + 1, 0⟩ =
      elements st.memory s ++ [v] := hheld
  rw [appends_iff_of_ok happend]
  exact {
    slices := rfl
    elements := helements
    seen := elements_keeps h hkeeps
    others := fun t ht i => .inl (by rw [elements_keeps (hinv t ht) hkeeps])
    agrees := fun p faults r₁ st₁ hp hstep =>
      agrees_of_elements h hfits ⟨some st.memory.arrays.size, s.doubled, s.size + 1, 0⟩ ⟨m', _⟩
        helements rfl (if_neg (by omega)).symm hp hstep }

/-- In place, a slice that does not show the place written shows what it did. -/
theorem appendsOne_inPlace (hinv : st.Inv) (hs : s ∈ st.slices) (hfits : s.Fits 1)
    (hroom : s.size < s.capacity) {a : Ref} {m' : Memory T} (ha : s.array = some a)
    (hlast : m'.cell (a, s.pos + s.size) = some v)
    (hseen : s.elements m' = s.elements st.memory)
    (hothers : ∀ t ∈ st.slices, ∀ i, (t.elements m')[i]? = (t.elements st.memory)[i]? ∨
      t.array = s.array ∧ t.pos + i = s.pos + s.size) :
    st.AppendsOne ⟨m', st.slices ++ [⟨s.array, s.capacity, s.size + 1, s.pos⟩]⟩ s v
      ⟨s.array, s.capacity, s.size + 1, s.pos⟩ := by
  have helements : elements m' ⟨s.array, s.capacity, s.size + 1, s.pos⟩ =
      elements st.memory s ++ [v] := by
    calc elements m' ⟨s.array, s.capacity, s.size + 1, s.pos⟩
        = m'.held (some (a, s.pos)) (s.size + 1) := elements_some ha
      _ = m'.held (some (a, s.pos)) s.size ++ m'.held (some (a, s.pos + s.size)) 1 :=
        (held_append ..).symm
      _ = elements st.memory s ++ [v] := by
        rw [← elements_some ha, hseen, held_one hlast]
  exact {
    slices := rfl
    elements := helements
    seen := hseen
    others := fun t ht i => (hothers t ht i).imp_right fun heq => ⟨hroom, heq⟩
    agrees := fun p faults r₁ st₁ hp hstep =>
      agrees_of_elements (hinv s hs) hfits ⟨s.array, s.capacity, s.size + 1, s.pos⟩ ⟨m', _⟩
        helements rfl (if_pos hroom).symm hp hstep }

section InPlace

variable {a : Ref} {m' : Memory T} (hinv : st.Inv) (hs : s ∈ st.slices) (hfits : s.Fits 1)
  (hroom : s.size < s.capacity) (ha : s.array = some a) (hput : Put st.memory m' (a, s.size) v)
include hinv hs hfits hroom ha hput

/-- Without an offset the place written is the one behind `s`. -/
theorem appendsOne_of_pos_eq_zero (hpos : s.pos = 0) :
    st.AppendsOne ⟨m', st.slices ++ [⟨s.array, s.capacity, s.size + 1, s.pos⟩]⟩ s v
      ⟨s.array, s.capacity, s.size + 1, s.pos⟩ := by
  have hw : st.memory.Wrote m' a (s.pos + s.size) 1 := by
    rw [hpos, Nat.zero_add]
    exact hput.wrote
  refine appendsOne_inPlace hinv hs hfits hroom ha ?_
    (elements_wrote hw fun _ => .inl (Nat.le_refl _)) fun t ht i => ?_
  · rw [hpos, Nat.zero_add]
    exact hput.self
  · rcases getElem?_elements_wrote (s := t) hw i with hsame | ⟨hta, hle, hlt'⟩
    · exact .inl hsame
    · exact .inr ⟨hta.trans ha.symm, by omega⟩

/-- The new element is there already, and the write changes nothing that shows. -/
theorem appendsOne_of_unseen (hlast : st.memory.cell (a, s.pos + s.size) = some v)
    (hshown : st.memory.cell (a, s.size) = some v ∨
      ∀ t ∈ st.slices, t.array = some a → s.size < t.pos ∨ t.pos + t.size ≤ s.size) :
    st.AppendsOne ⟨m', st.slices ++ [⟨s.array, s.capacity, s.size + 1, s.pos⟩]⟩ s v
      ⟨s.array, s.capacity, s.size + 1, s.pos⟩ := by
  have hsame : ∀ t ∈ st.slices, t.elements m' = t.elements st.memory := by
    intro t ht
    rcases hshown with hcell | hshown
    · exact elements_of_cell_eq (hput.same hcell)
    · exact elements_wrote hput.wrote fun hta => by
        have := hshown t ht hta
        omega
  refine appendsOne_inPlace hinv hs hfits hroom ha ?_ (hsame s hs)
    fun t ht i => .inl (by rw [hsame t ht])
  by_cases hplace : (a, s.pos + s.size) = (a, s.size)
  · rw [hplace]
    exact hput.self
  · rw [hput.other hplace]
    exact hlast

omit hfits hroom in
/-- An in-place `append(val)` that does what it should has done no harm. -/
theorem harmless_of_appendsOne
    (hone : st.AppendsOne ⟨m', st.slices ++ [⟨s.array, s.capacity, s.size + 1, s.pos⟩]⟩ s v
      ⟨s.array, s.capacity, s.size + 1, s.pos⟩) : st.Harmless s v := by
  refine .inr (or_iff_not_imp_left.mpr fun hpos => ⟨a, ha, ?_, ?_⟩)
  · -- the place behind `s` is not the one written
    rw [← hput.other (fun heq => hpos (by have := (Prod.ext_iff.mp heq).2; omega))]
    rw [← length_elements (hinv s hs)]
    exact cell_of_elements (s := ⟨s.array, s.capacity, s.size + 1, s.pos⟩) hone.elements ha
  · refine or_iff_not_imp_right.mpr fun hshown => ?_
    push Not at hshown
    obtain ⟨t, ht, hta, htpos, hlt'⟩ := hshown
    -- the place written is element `s.size - t.pos` of `t`
    have hseen := hone.others t ht (s.size - t.pos)
    rw [getElem?_elements hta, getElem?_elements hta, if_pos (by omega), if_pos (by omega),
      Nat.add_sub_cancel' htpos, hput.self] at hseen
    rcases hseen with hsame | ⟨-, -, heq⟩
    · exact hsame.symm
    · omega

end InPlace

/-- **Appending one element**: it does what it should exactly when the write of
`append(val)` does no harm. -/
theorem appends_iff {fresh : Nat → Nat → T} (h : Reachable fresh st) (hs : s ∈ st.slices)
    (hfits : s.Fits 1) (v : T) : st.Appends s v ↔ st.Harmless s v := by
  have hinv := inv_reachable h
  have hle := (hinv s hs).size_le
  by_cases hroom : s.size < s.capacity
  · obtain ⟨a, m', ha, hlt, happend, hput⟩ := append_inPlace (hinv s hs) hroom hfits v
    rw [appends_iff_of_ok happend]
    constructor
    · exact harmless_of_appendsOne hinv hs ha hput
    · rintro (hfull | hpos | ⟨b, hb, hlast, hshown⟩)
      · omega
      · exact appendsOne_of_pos_eq_zero hinv hs hfits hroom ha hput hpos
      · cases ha.symm.trans hb
        exact appendsOne_of_unseen hinv hs hfits hroom ha hput hlast hshown
  · exact ⟨fun _ => .inl (by omega), fun _ => appends_of_full hinv hs hfits (by omega)⟩

end OneElement

/-- One element with room for two more, and the empty slice behind the element. -/
def elementAndRoom : State Nat :=
  (((init fun _ _ => 0).step (.create 1 3 noFaults)).1.step
    (.range ⟨some 0, 3, 1, 0⟩ 1 noFaults)).1

theorem reachable_elementAndRoom : Reachable (fun _ _ => 0) elementAndRoom := by
  refine .step _ (.step _ .init trivial) ?_
  show (⟨some 0, 3, 1, 0⟩ : SliceImpl) ∈ _
  decide

/-- The first slice starts where its array does. -/
theorem appends_iff_first : elementAndRoom.Appends ⟨some 0, 3, 1, 0⟩ 7 :=
  (appends_iff reachable_elementAndRoom (by decide) (by decide) 7).mpr (.inr (.inl rfl))

/-- The empty slice behind the element: appending 7 to it gives a slice that
shows 0, and the element is 7 afterwards. -/
theorem append_elsewhere : ¬ ∀ (fresh : Nat → Nat → Nat) (st : State Nat), Reachable fresh st →
    ∀ s ∈ st.slices, s.Fits 1 → ∀ v, st.Appends s v := by
  intro hall
  have hshows := (hall _ _ reachable_elementAndRoom ⟨some 0, 2, 0, 1⟩ (by decide) (by decide)
    7).2 noFaults ⟨some 0, 2, 1, 1⟩ rfl
  exact absurd hshows.elements (by decide +kernel)

end State

end KgCpp.Slice
