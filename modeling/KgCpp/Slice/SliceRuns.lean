import KgCpp.Slice.SliceImpl

/-!
# Runs on slices

A program makes slices out of slices and writes elements through them, in any
order; arrays of its own, and pointers into any array, may be handed to `append`
and `copy_from`. `Reachable` is what a program can get to when it names slices
it has, keeps to the documented preconditions (an index below the size for
`operator[]`, a pointer to that many elements) and stays below `2 ^ 64` with
sizes.

`reachable_safe`: in every reachable state every slice is valid, and every next
call keeps to the arrays, throws `std::out_of_range` exactly when it should, and
changes nothing when it throws.
-/

namespace KgCpp.Slice

open Lib SliceImpl

variable {T : Type}

/-- The memory, and the slices made so far. -/
structure State (T : Type) where
  memory : Memory T
  slices : List SliceImpl

/-- One call of the program. -/
inductive Call (T : Type) where
  | array (cells : List T)
  | create (size capacity : Nat) (faults : Faults)
  | range (s : SliceImpl) (begin : Nat) (faults : Faults)
  | rangeTo (s : SliceImpl) (begin fin : Nat) (faults : Faults)
  | append (s : SliceImpl) (val : T) (faults : Faults)
  | appendArray (s : SliceImpl) (arrs : Pointer) (size : Nat) (faults : Faults)
  | appendSlice (s s1 : SliceImpl) (faults : Faults)
  | copyFromArray (s : SliceImpl) (src : Pointer) (size : Nat)
  | copyFrom (s s1 : SliceImpl)
  | at (s : SliceImpl) (i : Nat)
  | atConst (s : SliceImpl) (i : Nat)
  | index (s : SliceImpl) (i : Nat)
  | setIndex (s : SliceImpl) (i : Nat) (val : T)

/-- What a call returns. -/
inductive Answer (T : Type) where
  | nothing
  | made (s : SliceImpl)
  | count (n : Nat)
  | value (v : T)

/-- The program makes an array of its own. -/
def ownArray (cells : List T) : Action Fault (Memory T) Unit := fun m =>
  .ok () { m with arrays := m.arrays.alloc cells }

/-- What a call does to the memory. -/
def Call.act : Call T → Action Fault (Memory T) (Answer T)
  | .array cells => do ownArray cells; pure .nothing
  | .create size capacity faults => do
    let s ← SliceImpl.create size capacity faults
    pure (.made s)
  | .range s begin faults => do
    let s' ← s.range begin faults
    pure (.made s')
  | .rangeTo s begin fin faults => do
    let s' ← s.rangeTo begin fin faults
    pure (.made s')
  | .append s val faults => do
    let s' ← s.append val faults
    pure (.made s')
  | .appendArray s arrs size faults => do
    let s' ← s.appendArray arrs size faults
    pure (.made s')
  | .appendSlice s s1 faults => do
    let s' ← s.appendSlice s1 faults
    pure (.made s')
  | .copyFromArray s src size => do
    let n ← s.copyFromArray src size
    pure (.count n)
  | .copyFrom s s1 => do
    let n ← s.copyFrom s1
    pure (.count n)
  | .at s i => do
    let v ← s.at' i
    pure (.value v)
  | .atConst s i => do
    let v ← s.atConst i
    pure (.value v)
  | .index s i => do
    let v ← s.index i
    pure (.value v)
  | .setIndex s i val => do s.setIndex i val; pure .nothing

namespace State

/-- One call, with what the program sees of it. -/
def step (st : State T) (c : Call T) : State T × Except Fault (Answer T) :=
  match c.act st.memory with
  | .ok (.made s) m => (⟨m, st.slices ++ [s]⟩, .ok (.made s))
  | .ok a m => (⟨m, st.slices⟩, .ok a)
  | .error e m => (⟨m, st.slices⟩, .error e)

/-- The calls a program may make. -/
def Admits (st : State T) : Call T → Prop
  | .array _ => True
  | .create _ _ _ => True
  | .range s _ _ => s ∈ st.slices
  | .rangeTo s _ _ _ => s ∈ st.slices
  | .append s _ _ => s ∈ st.slices ∧ s.Fits 1
  | .appendArray s arrs size _ => s ∈ st.slices ∧ st.memory.Points arrs size ∧ s.Fits size
  | .appendSlice s s1 _ => s ∈ st.slices ∧ s1 ∈ st.slices ∧ s.Fits s1.size
  | .copyFromArray s src size => s ∈ st.slices ∧ st.memory.Points src size
  | .copyFrom s s1 => s ∈ st.slices ∧ s1 ∈ st.slices
  | .at s _ => s ∈ st.slices
  | .atConst s _ => s ∈ st.slices
  | .index s i => s ∈ st.slices ∧ i < s.size
  | .setIndex s i _ => s ∈ st.slices ∧ i < s.size

/-- The state before the first call. -/
def init (fresh : Nat → Nat → T) : State T := ⟨⟨fresh, .empty⟩, []⟩

/-- The states a program can reach. -/
inductive Reachable (fresh : Nat → Nat → T) : State T → Prop
  | init : Reachable fresh (init fresh)
  | step {st : State T} (c : Call T) : Reachable fresh st → st.Admits c →
      Reachable fresh (st.step c).1

/-- Every slice is a slice of the memory. -/
def Inv (st : State T) : Prop := ∀ s ∈ st.slices, s.Valid st.memory

end State

/-- The calls that throw `std::out_of_range`. -/
def Call.OutOfRange : Call T → Prop
  | .range s begin _ => s.size < begin
  | .rangeTo s begin _ _ => s.capacity < begin
  | .at s i => s.size ≤ i
  | .atConst s i => s.size ≤ i
  | _ => False

namespace State

/-- What one call keeps and promises. -/
structure Safe (st : State T) (c : Call T) : Prop where
  inv : (st.step c).1.Inv
  inBounds : (st.step c).2 ≠ .error .nullArray ∧ (st.step c).2 ≠ .error .outOfBounds
  outOfRange : (∃ what, (st.step c).2 = .error (.outOfRange what)) ↔ c.OutOfRange
  unchanged : ∀ e, (st.step c).2 = .error e → (st.step c).1 = st

/-- How the action of a call ends. -/
abbrev Behaves (st : State T) (c : Call T) : Prop :=
  Ends c.act st.memory
    (fun a m => st.memory.Extends m ∧ (∀ s, a = .made s → s.Valid m) ∧ ¬ c.OutOfRange)
    fun e m => m = st.memory ∧
      (e = .badAlloc ∧ ¬ c.OutOfRange ∨ (∃ what, e = .outOfRange what) ∧ c.OutOfRange)

section Rules

variable {st : State T} {c : Call T}

/-- A call that makes a slice. -/
theorem behaves_makes {x : Action Fault (Memory T) SliceImpl}
    (hact : c.act = do let s ← x; pure (.made s)) (hc : ¬ c.OutOfRange)
    (h : Makes x st.memory) : st.Behaves c := by
  rw [Behaves, hact]
  refine ends_bind (h.mono (fun _ _ hs => hs) ?_) ?_
  · rintro e m ⟨he, hm⟩
    exact ⟨hm, .inl ⟨he, hc⟩⟩
  · rintro s m ⟨hext, hs⟩
    refine ends_pure ⟨hext, fun s' hs' => ?_, hc⟩
    cases hs'
    exact hs

/-- A call that cuts a slice. -/
theorem behaves_cuts {x : Action Fault (Memory T) SliceImpl}
    (hact : c.act = do let s ← x; pure (.made s)) (h : Cuts x st.memory c.OutOfRange) :
    st.Behaves c := by
  rw [Behaves, hact]
  refine ends_bind (P := fun s m => ¬ c.OutOfRange ∧ m = st.memory ∧ s.Valid st.memory)
    (h.mono (fun _ _ hs => hs) fun _ _ he => he) ?_
  rintro s _ ⟨hgood, rfl, hs⟩
  refine ends_pure ⟨.refl _, fun s' hs' => ?_, hgood⟩
  cases hs'
  exact hs

/-- A call that only touches elements. -/
theorem behaves_elements {α : Type} {x : Action Fault (Memory T) α} {f : α → Answer T}
    (hact : c.act = do let a ← x; pure (f a)) (hf : ∀ a s, f a ≠ .made s)
    (h : Ends x st.memory (fun _ m => ¬ c.OutOfRange ∧ st.memory.Extends m)
      fun e m => m = st.memory ∧ (∃ what, e = .outOfRange what) ∧ c.OutOfRange) :
    st.Behaves c := by
  rw [Behaves, hact]
  refine ends_bind (P := fun _ m => ¬ c.OutOfRange ∧ st.memory.Extends m)
    (h.mono (fun _ _ hm => hm) fun e m he => ⟨he.1, .inr he.2⟩) ?_
  rintro a m ⟨hgood, hext⟩
  exact ends_pure ⟨hext, fun s hs => absurd hs (hf a s), hgood⟩

theorem ends_ownArray (cells : List T) {m : Memory T} {E : Fault → Memory T → Prop} :
    Ends (ownArray cells) m (fun _ m' => m.Extends m') E := by
  refine ends_of_ok (a := ()) rfl ⟨?_, fun a ha => congrArg List.length
    (Store.get_alloc_old ha cells)⟩
  show m.arrays.size ≤ (m.arrays.alloc cells).size
  rw [Store.size_alloc]
  omega

/-- Every call a program may make behaves. -/
theorem behaves (hinv : st.Inv) (hc : st.Admits c) : st.Behaves c := by
  cases c with
  | array cells =>
    exact behaves_elements (f := fun _ => .nothing) rfl (fun _ _ h => by cases h)
      ((ends_ownArray cells).mono (fun _ _ hext => ⟨id, hext⟩) fun _ _ he => he)
  | create size capacity faults =>
    exact behaves_makes rfl id (makes_create size capacity faults)
  | range s begin faults => exact behaves_cuts rfl (cuts_range (hinv s hc) begin faults)
  | rangeTo s begin fin faults =>
    exact behaves_cuts rfl (cuts_rangeTo (hinv s hc) begin fin faults)
  | append s val faults =>
    exact behaves_makes rfl id (makes_append (hinv s hc.1) hc.2 val faults)
  | appendArray s arrs size faults =>
    exact behaves_makes rfl id (makes_appendArray (hinv s hc.1) hc.2.1 hc.2.2 faults)
  | appendSlice s s1 faults =>
    exact behaves_makes rfl id
      (makes_appendSlice (hinv s hc.1) (hinv s1 hc.2.1) hc.2.2 faults)
  | copyFromArray s src size =>
    exact behaves_elements (f := .count) rfl (fun _ _ h => by cases h)
      ((ends_copyFromArray (hinv s hc.1) hc.2).mono (fun _ _ hext => ⟨id, hext⟩)
        fun _ _ he => he)
  | copyFrom s s1 =>
    exact behaves_elements (f := .count) rfl (fun _ _ h => by cases h)
      ((ends_copyFrom (hinv s hc.1) (hinv s1 hc.2)).mono (fun _ _ hext => ⟨id, hext⟩)
        fun _ _ he => he)
  | «at» s i =>
    exact behaves_elements (f := .value) rfl (fun _ _ h => by cases h)
      ((ends_atWith (hinv s hc) _ i).mono
        (fun _ _ h => ⟨Nat.not_le_of_lt h.1, h.2 ▸ .refl _⟩)
        fun _ _ h => ⟨h.1, ⟨_, h.2.1⟩, h.2.2⟩)
  | atConst s i =>
    exact behaves_elements (f := .value) rfl (fun _ _ h => by cases h)
      ((ends_atWith (hinv s hc) _ i).mono
        (fun _ _ h => ⟨Nat.not_le_of_lt h.1, h.2 ▸ .refl _⟩)
        fun _ _ h => ⟨h.1, ⟨_, h.2.1⟩, h.2.2⟩)
  | index s i =>
    exact behaves_elements (f := .value) rfl (fun _ _ h => by cases h)
      ((ends_index (hinv s hc.1) hc.2).mono (fun _ _ hm => ⟨id, hm ▸ .refl _⟩)
        fun _ _ he => he)
  | setIndex s i val =>
    exact behaves_elements (f := fun _ => .nothing) rfl (fun _ _ h => by cases h)
      ((ends_setIndex (hinv s hc.1) hc.2 val).mono (fun _ _ hext => ⟨id, hext⟩)
        fun _ _ he => he)

/-- A call that returns. -/
theorem safe_of_ok {a : Answer T} {m : Memory T} (hact : c.act st.memory = .ok a m)
    (hinv : st.Inv) (hext : st.memory.Extends m) (hmade : ∀ s, a = .made s → s.Valid m)
    (hgood : ¬ c.OutOfRange) : st.Safe c := by
  have hold : ∀ s ∈ st.slices, s.Valid m := fun s hs => (hinv s hs).extends hext
  obtain ⟨hanswer, hmem, hslices⟩ : (st.step c).2 = .ok a ∧ (st.step c).1.memory = m ∧
      ∀ s ∈ (st.step c).1.slices, s ∈ st.slices ∨ a = .made s := by
    rw [step, hact]
    cases a with
    | made s =>
      refine ⟨rfl, rfl, fun s' hs' => ?_⟩
      rcases List.mem_append.mp hs' with hs' | hs'
      · exact .inl hs'
      · exact .inr (congrArg Answer.made (List.mem_singleton.mp hs').symm)
    | nothing => exact ⟨rfl, rfl, fun _ hs => .inl hs⟩
    | count n => exact ⟨rfl, rfl, fun _ hs => .inl hs⟩
    | value v => exact ⟨rfl, rfl, fun _ hs => .inl hs⟩
  refine ⟨fun s hs => ?_, ?_, ?_, ?_⟩
  · rw [hmem]
    rcases hslices s hs with hs | hs
    · exact hold s hs
    · exact hmade s hs
  · rw [hanswer]
    exact ⟨(fun h => by cases h), fun h => by cases h⟩
  · rw [hanswer]
    exact ⟨(fun ⟨_, h⟩ => by cases h), fun h => absurd h hgood⟩
  · intro e he
    rw [hanswer] at he
    cases he

/-- A call that throws. -/
theorem safe_of_error {e : Fault} (hact : c.act st.memory = .error e st.memory)
    (hinv : st.Inv)
    (he : e = .badAlloc ∧ ¬ c.OutOfRange ∨ (∃ what, e = .outOfRange what) ∧ c.OutOfRange) :
    st.Safe c := by
  have hstep : st.step c = (st, .error e) := by
    rw [step, hact]
  refine ⟨?_, ?_, ?_, ?_⟩
  · rw [hstep]
    exact hinv
  · rw [hstep]
    rcases he with ⟨rfl, -⟩ | ⟨⟨what, rfl⟩, -⟩ <;>
      exact ⟨(fun h => by cases h), fun h => by cases h⟩
  · rw [hstep]
    rcases he with ⟨rfl, hgood⟩ | ⟨⟨what, rfl⟩, hbad⟩
    · exact ⟨(fun ⟨_, h⟩ => by cases h), fun h => absurd h hgood⟩
    · exact ⟨fun _ => hbad, fun _ => ⟨what, rfl⟩⟩
  · intro _ _
    rw [hstep]

/-- A call that behaves is safe. -/
theorem safe_of_behaves (hinv : st.Inv) (h : st.Behaves c) : st.Safe c := by
  rw [Behaves, Ends] at h
  cases hact : c.act st.memory with
  | ok a m =>
    rw [hact] at h
    exact safe_of_ok hact hinv h.1 h.2.1 h.2.2
  | error e m =>
    rw [hact] at h
    obtain ⟨rfl, he⟩ := h
    exact safe_of_error hact hinv he

end Rules

theorem inv_reachable {fresh : Nat → Nat → T} {st : State T} (h : Reachable fresh st) :
    st.Inv := by
  induction h with
  | init => exact fun s hs => by cases hs
  | step c hst hc ih => exact (safe_of_behaves ih (behaves ih hc)).inv

/-- **Slices stay in their arrays**: in every state a program can reach, every
slice is valid, and every call the program may make next is safe. -/
theorem reachable_safe {fresh : Nat → Nat → T} {st : State T} (h : Reachable fresh st) :
    (∀ s ∈ st.slices, s.Valid st.memory) ∧ ∀ c, st.Admits c → st.Safe c :=
  ⟨inv_reachable h, fun _ hc =>
    safe_of_behaves (inv_reachable h) (behaves (inv_reachable h) hc)⟩

section Made

variable {st : State T} {c : Call T} {x : Action Fault (Memory T) SliceImpl} {r : SliceImpl}

/-- A call that makes a slice. -/
theorem step_of_made {m' : Memory T} (hact : c.act = do let s ← x; pure (.made s))
    (h : x st.memory = .ok r m') : st.step c = (⟨m', st.slices ++ [r]⟩, .ok (.made r)) := by
  have hc : c.act st.memory = .ok (.made r) m' := by
    rw [hact, bind_of_ok h]
    rfl
  rw [step, hc]

/-- What a call that made a slice has done. -/
theorem made_of_step (hact : c.act = do let s ← x; pure (.made s))
    (h : (st.step c).2 = .ok (.made r)) :
    ∃ m', x st.memory = .ok r m' ∧ (st.step c).1 = ⟨m', st.slices ++ [r]⟩ := by
  cases hx : x st.memory with
  | ok r' m' =>
    rw [step_of_made hact hx] at h
    cases h
    exact ⟨m', rfl, by rw [step_of_made hact hx]⟩
  | error e m' =>
    have hc : c.act st.memory = .error e m' := by
      rw [hact]
      exact bind_of_error hx _
    rw [step, hc] at h
    cases h

end Made

/-- A slice of two elements and its zero-capacity tail. -/
def twoAndTail : State Nat :=
  (((init fun _ _ => 0).step (.create 2 0 ⟨false, false⟩)).1.step
    (.range ⟨some 0, 2, 2, 0⟩ 2 ⟨false, false⟩)).1

theorem reachable_twoAndTail : Reachable (fun _ _ => 0) twoAndTail := by
  refine .step _ (.step _ .init trivial) ?_
  show (⟨some 0, 2, 2, 0⟩ : SliceImpl) ∈ _
  decide

/-- Appending to the tail, and cutting behind it. -/
theorem reachable_safe_tail :
    (∀ s ∈ twoAndTail.slices, s.Valid twoAndTail.memory) ∧
      twoAndTail.Safe (.append ⟨some 0, 0, 0, 2⟩ 7 ⟨false, false⟩) ∧
      twoAndTail.Safe (.range ⟨some 0, 0, 0, 2⟩ 1 ⟨false, false⟩) := by
  have h := reachable_safe reachable_twoAndTail
  have hmem : (⟨some 0, 0, 0, 2⟩ : SliceImpl) ∈ twoAndTail.slices := by decide
  exact ⟨h.1, h.2 _ ⟨hmem, by decide⟩, h.2 _ hmem⟩

end State

end KgCpp.Slice
