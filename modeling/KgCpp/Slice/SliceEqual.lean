import KgCpp.Slice.SliceContent
import KgCpp.Slice.SliceRuns

/-!
# Equal slices

`equal` compares the array, the size and the offset, and leaves the capacity out.
Every slice reaches to the end of its array, so offset and array decide the
capacity too (`capacity_of_equal`); an empty slice without an array has none.
`equal_congruence`: whatever is done with one of two equal slices could as well
be done with the other.
-/

namespace KgCpp.Slice

open Lib SliceImpl Memory

variable {T : Type}

namespace SliceImpl

variable {m : Memory T} {l r : SliceImpl}

theorem equal_iff : equal l r = true ↔ l.array = r.array ∧ l.size = r.size ∧ l.pos = r.pos := by
  simp [equal, and_assoc]

@[simp] theorem equal_refl (s : SliceImpl) : equal s s = true := by
  simp [equal]

/-- Equal slices have the same capacity: what their array has left behind their
offset. -/
theorem capacity_of_equal (hl : l.Valid m) (hr : r.Valid m) (h : equal l r = true) :
    l.capacity = r.capacity := by
  obtain ⟨harray, -, hpos⟩ := equal_iff.mp h
  cases ha : l.array with
  | none => rw [(hl.empty ha).2.2, (hr.empty (harray.symm.trans ha)).2.2]
  | some a =>
    have hlen := (hl.window a ha).2
    have hlen' := (hr.window a (harray.symm.trans ha)).2
    omega

theorem eq_of_equal (hl : l.Valid m) (hr : r.Valid m) (h : equal l r = true) : l = r := by
  have hcap := capacity_of_equal hl hr h
  obtain ⟨harray, hsize, hpos⟩ := equal_iff.mp h
  cases l
  cases r
  simp_all

end SliceImpl

/-- What can be done with a slice. -/
inductive Use (T : Type) where
  | range (begin : Nat) (faults : Faults)
  | rangeTo (begin fin : Nat) (faults : Faults)
  | append (val : T) (faults : Faults)
  | appendArray (arrs : Pointer) (size : Nat) (faults : Faults)
  | appendSlice (s1 : SliceImpl) (faults : Faults)
  | appendTo (s : SliceImpl) (faults : Faults)
  | copyFromArray (src : Pointer) (size : Nat)
  | copyFrom (s1 : SliceImpl)
  | copyTo (s : SliceImpl)
  | at (i : Nat)
  | atConst (i : Nat)
  | index (i : Nat)
  | setIndex (i : Nat) (val : T)

/-- The call that does it with `s`. -/
def Use.of (s : SliceImpl) : Use T → Call T
  | .range begin faults => .range s begin faults
  | .rangeTo begin fin faults => .rangeTo s begin fin faults
  | .append val faults => .append s val faults
  | .appendArray arrs size faults => .appendArray s arrs size faults
  | .appendSlice s1 faults => .appendSlice s s1 faults
  | .appendTo s' faults => .appendSlice s' s faults
  | .copyFromArray src size => .copyFromArray s src size
  | .copyFrom s1 => .copyFrom s s1
  | .copyTo s' => .copyFrom s' s
  | .at i => .at s i
  | .atConst i => .atConst s i
  | .index i => .index s i
  | .setIndex i val => .setIndex s i val

namespace State

/-- The call `c` made a new array. -/
def Allocates (st : State T) (c : Call T) : Prop :=
  (st.step c).1.memory.arrays.size ≠ st.memory.arrays.size

/-- Two calls, made in one and the same state, cannot be told apart. -/
structure Alike (st : State T) (c c' : Call T) : Prop where
  throws : ∀ e, (st.step c).2 = .error e ↔ (st.step c').2 = .error e
  allocates : st.Allocates c ↔ st.Allocates c'
  makes : (∃ x, (st.step c).2 = .ok (.made x)) ↔ ∃ y, (st.step c').2 = .ok (.made y)
  made : ∀ x y, (st.step c).2 = .ok (.made x) → (st.step c').2 = .ok (.made y) →
    x.elements (st.step c).1.memory = y.elements (st.step c').1.memory ∧ x.size = y.size ∧
      x.capacity = y.capacity ∧ (¬ st.Allocates c → equal x y = true)
  counts : ∀ n, (st.step c).2 = .ok (.count n) ↔ (st.step c').2 = .ok (.count n)
  values : ∀ v, (st.step c).2 = .ok (.value v) ↔ (st.step c').2 = .ok (.value v)
  memory : (st.step c).1.memory.cell = (st.step c').1.memory.cell

theorem Alike.refl (st : State T) (c : Call T) : st.Alike c c where
  throws := fun _ => Iff.rfl
  allocates := Iff.rfl
  makes := Iff.rfl
  made := by
    intro x y hx hy
    cases hx.symm.trans hy
    exact ⟨rfl, rfl, rfl, fun _ => equal_refl x⟩
  counts := fun _ => Iff.rfl
  values := fun _ => Iff.rfl
  memory := rfl

/-- **Equality is a congruence**: equal slices have the same capacity, and nothing
done with one of them can be told from the same done with the other. -/
theorem equal_congruence {fresh : Nat → Nat → T} {st : State T} (h : Reachable fresh st)
    {l r : SliceImpl} (hl : l ∈ st.slices) (hr : r ∈ st.slices) (heq : equal l r = true) :
    l.capacity = r.capacity ∧ ∀ use : Use T, st.Alike (use.of l) (use.of r) := by
  have hinv := inv_reachable h
  refine ⟨capacity_of_equal (hinv l hl) (hinv r hr) heq, fun use => ?_⟩
  rw [eq_of_equal (hinv l hl) (hinv r hr) heq]
  exact .refl st _

/-- The tail of three elements, cut in one step and in two. -/
def sameTail : State Nat :=
  ((((init fun _ i => i).step (.create 3 5 noFaults)).1.step
    (.range ⟨some 0, 5, 3, 0⟩ 2 noFaults)).1.step
    (.rangeTo ⟨some 0, 5, 3, 0⟩ 2 3 noFaults)).1

theorem reachable_sameTail : Reachable (fun _ i => i) sameTail := by
  refine .step _ (.step _ (.step _ .init trivial) ?_) ?_
  · show (⟨some 0, 5, 3, 0⟩ : SliceImpl) ∈ _
    decide
  · show (⟨some 0, 5, 3, 0⟩ : SliceImpl) ∈ _
    decide

/-- The two tails. -/
theorem equal_congruence_tail : sameTail.slices = [⟨some 0, 5, 3, 0⟩, ⟨some 0, 3, 1, 2⟩,
      ⟨some 0, 3, 1, 2⟩] ∧
    sameTail.Alike (.append ⟨some 0, 3, 1, 2⟩ 7 noFaults)
      (.append ⟨some 0, 3, 1, 2⟩ 7 noFaults) :=
  ⟨by decide, (equal_congruence reachable_sameTail (by decide) (by decide) (by decide)).2
    (.append 7 noFaults)⟩

end State

end KgCpp.Slice
