import Mathlib.Logic.Relation
import KgCpp.Slice.SliceFrame

/-!
# Appending an array or a slice

`appends_all`: appended to a slice from storage that does not meet the places
behind it, a sequence of elements follows the elements of the slice in the
result. Where there is room the result shares the array, and only the places
behind the slice change; where there is not, the result has an array of its own,
and neither side ever sees what is later written through the other.
-/

namespace KgCpp.Slice

open Lib SliceImpl Memory

variable {T : Type}

/-- The `n` places from `p` on do not meet the `n` places behind `s`. -/
def SliceImpl.Clear (s : SliceImpl) (p : Pointer) (n : Nat) : Prop :=
  ∀ a k, s.array = some a → p = some (a, k) →
    k + n ≤ s.pos + s.size ∨ s.pos + s.size + n ≤ k

namespace State

/-- The program has gone on from `st` to `st'`. -/
def Later : State T → State T → Prop :=
  Relation.ReflTransGen fun st st' => ∃ c, st.Admits c ∧ st' = (st.step c).1

/-- `c` appends `xs` to `s`, an array or the elements of a slice. -/
inductive Appending (st : State T) (s : SliceImpl) (faults : Faults) :
    Call T → List T → Prop
  | array {arrs : Pointer} {n : Nat} : st.memory.Points arrs n → s.Clear arrs n →
      Appending st s faults (.appendArray s arrs n faults) (st.memory.held arrs n)
  | slice {s1 : SliceImpl} : s1 ∈ st.slices →
      (s1.array = s.array → s1.pos + s1.size ≤ s.pos + s.size ∨
        s.pos + s.size + s1.size ≤ s1.pos) →
      Appending st s faults (.appendSlice s s1 faults) (s1.elements st.memory)

/-- The result `r` shares the array of `s`; only the `n` places behind `s` change. -/
structure Shares (st st' : State T) (s : SliceImpl) (n : Nat) (r : SliceImpl) : Prop where
  array : r.array = s.array
  pos : r.pos = s.pos
  capacity : r.capacity = s.capacity
  outside : ∀ b j, (s.array = some b → j < s.pos + s.size ∨ s.pos + s.size + n ≤ j) →
    st'.memory.cell (b, j) = st.memory.cell (b, j)

/-- The result `r` has an array of its own. -/
structure Separates (st st' : State T) (s : SliceImpl) (n : Nat) (r : SliceImpl) : Prop where
  fresh : ∃ a, r.array = some a ∧ st.memory.arrays.size ≤ a
  capacity : s.size + n ≤ r.capacity
  unchanged : ∀ b < st.memory.arrays.size, ∀ j,
    st'.memory.cell (b, j) = st.memory.cell (b, j)
  elements : ∀ u ∈ st.slices, u.elements st'.memory = u.elements st.memory
  later : ∀ st₂, Later st' st₂ → ∀ c t, c.through = some t →
    (t.array = r.array → ∀ u ∈ st.slices,
      u.elements (st₂.step c).1.memory = u.elements st₂.memory) ∧
    ((∃ u ∈ st.slices, t.array = u.array) →
      r.elements (st₂.step c).1.memory = r.elements st₂.memory)

/-- What appending `xs` to `s` should do when it returns `r` and leaves `st'`. -/
structure AppendsAll (st st' : State T) (s : SliceImpl) (xs : List T) (r : SliceImpl) :
    Prop where
  slices : st'.slices = st.slices ++ [r]
  elements : r.elements st'.memory = s.elements st.memory ++ xs
  inPlace : s.size + xs.length ≤ s.capacity → st.Shares st' s xs.length r
  inNew : s.capacity < s.size + xs.length → st.Separates st' s xs.length r
  nothing : xs = [] → equal r s = true

section Later

variable {st st' : State T} {c : Call T}

/-- A program keeps the slices it has. -/
theorem mem_step {s : SliceImpl} (hs : s ∈ st.slices) : s ∈ (st.step c).1.slices := by
  rw [step]
  cases c.act st.memory with
  | error e m => exact hs
  | ok a m =>
    cases a with
    | made r => exact List.mem_append_left _ hs
    | nothing => exact hs
    | count n => exact hs
    | value v => exact hs

theorem mem_later (h : Later st st') {s : SliceImpl} (hs : s ∈ st.slices) : s ∈ st'.slices := by
  induction h with
  | refl => exact hs
  | tail _ hstep ih =>
    obtain ⟨c, -, rfl⟩ := hstep
    exact mem_step ih

theorem inv_later (h : Later st st') (hinv : st.Inv) : st'.Inv := by
  induction h with
  | refl => exact hinv
  | tail _ hstep ih =>
    obtain ⟨c, hc, rfl⟩ := hstep
    exact (safe_of_behaves ih (behaves ih hc)).inv

end Later

section Appends

variable {st : State T} {s : SliceImpl} {faults : Faults} {c : Call T}
  {x : Action Fault (Memory T) SliceImpl} {p : Pointer} {n : Nat}

/-- A slice with an array of its own stays apart from the others. -/
theorem separates_of_appended (hinv : st.Inv) {m' : Memory T} {r : SliceImpl} {xs : List T}
    (hst' : (State.mk m' (st.slices ++ [r])).Inv)
    (h : Appended st.memory m' s r xs) (hfull : s.capacity < s.size + xs.length) :
    st.Separates ⟨m', st.slices ++ [r]⟩ s xs.length r := by
  obtain ⟨harray, hcap, hkeeps⟩ := h.inNew hfull
  have hother : ∀ u ∈ st.slices, u.array ≠ r.array := by
    intro u hu heq
    exact absurd ((hinv u hu).window _ (heq.trans harray)).1 (Nat.lt_irrefl _)
  refine {
    fresh := ⟨_, harray, Nat.le_refl _⟩
    capacity := hcap ▸ s.le_grown xs.length
    unchanged := hkeeps.2
    elements := fun u hu => elements_keeps (hinv u hu) hkeeps
    later := fun st₂ hlater c t ht => ⟨fun htr u hu => ?_, ?_⟩ }
  · have hu₂ := inv_later hlater hst' u (mem_later hlater (List.mem_append_left _ hu))
    refine elements_step hu₂ c fun t' ht' heq => hother u hu ?_
    cases ht.symm.trans ht'
    exact heq.symm.trans htr
  · rintro ⟨u, hu, htu⟩
    have hr₂ := inv_later hlater hst' r
      (mem_later hlater (List.mem_append_right _ (List.mem_singleton_self r)))
    refine elements_step hr₂ c fun t' ht' heq => hother u hu ?_
    cases ht.symm.trans ht'
    exact htu.symm.trans heq

/-- Storage that does not meet the places behind `s` is read before it is written. -/
theorem apart_of_clear (h : s.Clear p n) (a : Ref) (place : Ref × Nat) (ha : s.array = some a)
    (hp : p = some place) : Apart place (a, s.pos + s.size) n := by
  rintro rfl
  have := h place.1 place.2 ha hp
  omega

/-- A call that appends what `p` points to. -/
theorem appendsAll_of_appendArray (hinv : st.Inv) (hs : s ∈ st.slices) (hadm : st.Admits c)
    (hact : c.act = do let r ← x; pure (.made r))
    (hx : x st.memory = s.appendArray p n faults st.memory) (hp : st.memory.Points p n)
    (hclear : s.Clear p n) (hfits : s.Fits n) :
    (faults = noFaults → ∃ r, (st.step c).2 = .ok (.made r)) ∧
      ∀ r, (st.step c).2 = .ok (.made r) →
        st.AppendsAll (st.step c).1 s (st.memory.held p n) r := by
  have h := hinv s hs
  obtain ⟨r', m', happend, hdone⟩ := appendArray_appended h hp hfits (apart_of_clear hclear)
  refine ⟨?_, fun r hr => ?_⟩
  · rintro rfl
    exact ⟨r', congrArg Prod.snd (step_of_made hact (hx.trans happend))⟩
  · obtain ⟨m'', hx'', hst⟩ := made_of_step hact hr
    cases (appendArray_noFaults (hx.symm.trans hx'')).symm.trans happend
    have hst' := (safe_of_behaves hinv (behaves hinv hadm)).inv
    rw [hst] at hst' ⊢
    refine ⟨rfl, hdone.elements, fun hroom => ?_, separates_of_appended hinv hst' hdone,
      fun hnil => ?_⟩
    · obtain ⟨harray, hpos, hcap, hout⟩ := hdone.inPlace hroom
      exact ⟨harray, hpos, hcap, hout⟩
    · have hsize := hdone.size
      have hroom := h.size_le
      rw [hnil, List.length_nil] at hsize
      obtain ⟨harray, hpos, -, -⟩ := hdone.inPlace (by rw [hnil]; exact hroom)
      simp [equal, harray, hpos, hsize]

end Appends

/-- **Appending an array or a slice**: whenever the call returns, and it does
when no allocation fails, it has appended the elements. -/
theorem appends_all {fresh : Nat → Nat → T} {st : State T} {s : SliceImpl} {faults : Faults}
    {c : Call T} {xs : List T} (h : Reachable fresh st) (hs : s ∈ st.slices)
    (hc : st.Appending s faults c xs) (hfits : s.Fits xs.length) :
    (faults = noFaults → ∃ r, (st.step c).2 = .ok (.made r)) ∧
      ∀ r, (st.step c).2 = .ok (.made r) → st.AppendsAll (st.step c).1 s xs r := by
  have hinv := inv_reachable h
  cases hc with
  | @array arrs n hp hclear =>
    rw [length_held hp] at hfits
    exact appendsAll_of_appendArray hinv hs ⟨hs, hp, hfits⟩ rfl rfl hp hclear hfits
  | @slice s1 hs1 hclear =>
    have h1 := hinv s1 hs1
    rw [length_elements h1] at hfits
    rw [← held_pointer h1]
    refine appendsAll_of_appendArray hinv hs ⟨hs, hs1, hfits⟩ rfl (appendSlice_eq h1 faults)
      (points_pointer h1) (fun a k ha hp => ?_) hfits
    obtain ⟨ha1, rfl⟩ := of_pointer_eq_some hp
    exact hclear (ha1.trans ha.symm)

/-- Three elements with room for one more. -/
def threeAndRoom : State Nat := ((init fun _ _ => 0).step (.create 3 4 noFaults)).1

theorem reachable_threeAndRoom : Reachable (fun _ _ => 0) threeAndRoom :=
  .step _ .init trivial

/-- The slice appended to itself needs a new array. -/
theorem appends_all_self : threeAndRoom.AppendsAll
    (threeAndRoom.step (.appendSlice ⟨some 0, 4, 3, 0⟩ ⟨some 0, 4, 3, 0⟩ noFaults)).1
    ⟨some 0, 4, 3, 0⟩ [0, 0, 0] ⟨some 1, 8, 6, 0⟩ :=
  (appends_all reachable_threeAndRoom (s := ⟨some 0, 4, 3, 0⟩) (by decide)
    (.slice (by decide) (by decide)) (by decide)).2 _ rfl

end State

end KgCpp.Slice
