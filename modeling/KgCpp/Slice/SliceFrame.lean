import KgCpp.Slice.SliceContent
import KgCpp.Slice.SliceRuns

/-!
# Which array a call writes

A call writes through at most one slice (`Call.through`), and then only to the
array of that slice or to arrays that it makes itself; this holds however the
call ends, and of any arguments (`spares_step`). So slices over another array
show after the call what they showed before (`elements_step`).
-/

namespace KgCpp.Slice

open Lib SliceImpl Memory

variable {T : Type}

/-- Of the arrays of `m`, only `array` may hold anything else in `m'`. -/
def Spares (m : Memory T) (array : Option Ref) (m' : Memory T) : Prop :=
  m.arrays.size ≤ m'.arrays.size ∧
    ∀ b < m.arrays.size, array ≠ some b → ∀ j, m'.cell (b, j) = m.cell (b, j)

theorem Spares.refl (m : Memory T) (array : Option Ref) : Spares m array m :=
  ⟨Nat.le_refl _, fun _ _ _ _ => rfl⟩

theorem Spares.keeps {m m' m'' : Memory T} {array : Option Ref} (h : Spares m array m')
    (hkeeps : m'.Keeps m'') : Spares m array m'' := by
  refine ⟨h.1.trans hkeeps.1.1, fun b hb hne j => ?_⟩
  rw [hkeeps.2 b (Nat.lt_of_lt_of_le hb h.1), h.2 b hb hne]

/-- A pointer that leads to `array`, or to an array that is not one of `m`. -/
def Writable (m : Memory T) (array : Option Ref) (p : Pointer) : Prop :=
  ∀ a k, p = some (a, k) → array = some a ∨ m.arrays.size ≤ a

theorem Writable.add {m : Memory T} {array : Option Ref} {p : Pointer} (h : Writable m array p)
    (n : Nat) : Writable m array (p.add n) := by
  rintro a k hp
  cases p with
  | none => cases hp
  | some place =>
    cases hp
    exact h place.1 place.2 rfl

/-- A pointer to a new array. -/
theorem writable_new {m : Memory T} {array : Option Ref} {a : Ref} (ha : m.arrays.size ≤ a)
    (k : Nat) : Writable m array (some (a, k)) := by
  rintro b j hp
  cases hp
  exact .inr ha

section Rules

variable {m m' : Memory T} {array : Option Ref} {s : SliceImpl} (h : Spares m array m')
include h

theorem spares_readAt (p : Pointer) (i : Nat) : Leaves (readAt p i) m' (Spares m array) := by
  cases p with
  | none => exact h
  | some place =>
    cases hv : (m'.arrays.get place.1)[place.2 + i]? with
    | none => exact ends_of_error (by rw [readAt, hv]) h
    | some v => exact ends_of_ok (by rw [readAt, hv]) h

theorem spares_writeAt {p : Pointer} (hp : Writable m array p) (i : Nat) (v : T) :
    Leaves (writeAt p i v) m' (Spares m array) := by
  cases p with
  | none => exact h
  | some place =>
    obtain ⟨a, k⟩ := place
    by_cases hi : k + i < m'.length a
    · refine ends_of_ok (a := ()) (by rw [writeAt, if_pos hi]) ⟨?_, fun b hb hne j => ?_⟩
      · rw [setArray, Store.size_set]
        exact h.1
      · -- an array that is spared is not the one written
        have hba : b ≠ a := by
          rintro rfl
          rcases hp b k rfl with harray | hle
          · exact hne harray
          · exact absurd hb (Nat.not_lt_of_le hle)
        rw [cell, setArray, Store.get_set_ne hba]
        exact h.2 b hb hne j
    · exact ends_of_error (by rw [writeAt, if_neg hi]) h

theorem spares_newArray (n : Nat) (fails : Bool) :
    Ends (newArray n fails) m' (fun a m'' => Spares m array m'' ∧ m.arrays.size ≤ a)
      fun _ => Spares m array := by
  cases fails with
  | true => exact h
  | false => exact ends_of_ok rfl ⟨h.keeps (keeps_alloc m' _), h.1⟩

theorem spares_copy {dist : Pointer} (hdist : Writable m array dist) (src : Pointer) (n : Nat) :
    Leaves (copy src dist n) m' (Spares m array) := by
  suffices key : ∀ (n i : Nat) (m' : Memory T), Spares m array m' →
      Leaves (copyLoop src dist i n) m' (Spares m array) from key n 0 m' h
  intro n
  induction n with
  | zero => exact fun i m' h => h
  | succ n ih =>
    intro i m' h
    refine ends_bind (spares_readAt h src i) fun v m₁ h₁ => ?_
    refine ends_bind (spares_writeAt h₁ hdist i v) fun _ m₂ h₂ => ?_
    exact ih (i + 1) m₂ h₂

theorem spares_makeImpl (faults : Faults) :
    Leaves (makeImpl faults) m' (Spares m array) :=
  ends_ite (fun _ => h) fun _ => h

theorem spares_ownArray (cells : List T) :
    Leaves (ownArray cells) m' (Spares m array) :=
  ends_of_ok (a := ()) rfl (h.keeps (keeps_alloc m' cells))

/-- `_array->_p`, for reading. -/
theorem spares_p : Leaves s.p m' (Spares m array) := by
  rw [p]
  cases s.array with
  | none => exact h
  | some a => exact h

/-- `get`, for reading. -/
theorem spares_get : Leaves s.get m' (Spares m array) :=
  ends_ite (fun _ => ends_bind (spares_p h) fun _ _ h' => h') fun _ => h

theorem spares_copyOld {dist : Pointer} (hdist : Writable m array dist) :
    Leaves (s.copyOld dist) m' (Spares m array) :=
  ends_ite (fun _ => ends_bind (spares_get h) fun src _ h' => spares_copy h' hdist src s.size)
    fun _ => h

theorem spares_create (size capacity : Nat) (faults : Faults) :
    Leaves (create size capacity faults) m' (Spares m array) := by
  refine ends_bind (spares_makeImpl h faults) fun _ m₁ h₁ => ends_ite (fun _ => ?_) fun _ => h₁
  exact ends_bind (spares_newArray h₁ _ _) fun a m₂ h₂ => h₂.1

theorem spares_range (begin : Nat) (faults : Faults) :
    Leaves (s.range begin faults) m' (Spares m array) :=
  ends_ite (fun _ => h) fun _ => ends_bind (spares_makeImpl h faults) fun _ _ h' => h'

theorem spares_rangeTo (begin fin : Nat) (faults : Faults) :
    Leaves (s.rangeTo begin fin faults) m' (Spares m array) :=
  ends_ite (fun _ => h) fun _ => ends_bind (spares_makeImpl h faults) fun _ _ h' => h'

theorem spares_index (i : Nat) : Leaves (s.index i) m' (Spares m array) :=
  ends_bind (spares_p h) fun p _ h' => spares_readAt h' p _

theorem spares_atWith (what : String) (i : Nat) :
    Leaves (atWith what s i) m' (Spares m array) :=
  ends_ite (fun _ => h) fun _ => spares_index h i

end Rules

section Writing

variable {m m' : Memory T} {s s1 : SliceImpl} (h : Spares m s.array m')
include h

/-- `_array->_p`, for writing. -/
theorem writable_p : Ends s.p m' (fun p m'' => Spares m s.array m'' ∧ Writable m s.array p)
    fun _ => Spares m s.array := by
  rw [p]
  cases ha : s.array with
  | none => rwa [ha] at h
  | some a =>
    refine ends_pure ⟨by rwa [ha] at h, fun b k hp => ?_⟩
    cases hp
    exact .inl rfl

/-- `get`, for writing. -/
theorem writable_get : Ends s.get m' (fun p m'' => Spares m s.array m'' ∧ Writable m s.array p)
    fun _ => Spares m s.array := by
  refine ends_ite (fun _ => ends_bind (writable_p h) ?_) fun _ => ?_
  · exact fun p m'' hp => ends_pure ⟨hp.1, hp.2.add s.pos⟩
  · exact ends_pure ⟨h, fun a k hp => by cases hp⟩

theorem spares_append (v : T) (faults : Faults) :
    Leaves (s.append v faults) m' (Spares m s.array) := by
  refine ends_bind (spares_makeImpl h faults) fun _ m₁ h₁ =>
    ends_ite (fun _ => ?_) fun _ => ?_
  · refine ends_bind (writable_p h₁) fun p m₂ h₂ => ?_
    exact ends_bind (spares_writeAt h₂.1 h₂.2 _ v) fun _ _ h₃ => h₃
  · refine ends_bind (spares_newArray h₁ _ _) fun a m₂ h₂ => ?_
    refine ends_bind (spares_copyOld h₂.1 (writable_new h₂.2 0)) fun _ m₃ h₃ => ?_
    exact ends_bind (spares_writeAt h₃ (writable_new h₂.2 0) _ v) fun _ _ h₄ => h₄

theorem spares_appendArray (arrs : Pointer) (n : Nat) (faults : Faults) :
    Leaves (s.appendArray arrs n faults) m' (Spares m s.array) := by
  refine ends_bind (spares_makeImpl h faults) fun _ m₁ h₁ =>
    ends_ite (fun _ => ends_ite (fun _ => ?_) fun _ => h₁) fun _ => ?_
  · refine ends_bind (writable_p h₁) fun p m₂ h₂ => ?_
    exact ends_bind (spares_copy h₂.1 ((h₂.2.add _).add _) arrs n) fun _ _ h₃ => h₃
  · refine ends_bind (spares_newArray h₁ _ _) fun a m₂ h₂ => ?_
    refine ends_bind (spares_copyOld h₂.1 (writable_new h₂.2 0)) fun _ m₃ h₃ => ?_
    exact ends_bind (spares_copy h₃ ((writable_new h₂.2 0).add _) arrs n) fun _ _ h₄ => h₄

theorem spares_appendSlice (faults : Faults) :
    Leaves (s.appendSlice s1 faults) m' (Spares m s.array) := by
  refine ends_ite (fun _ => ?_) fun _ => spares_appendArray h none 0 faults
  exact ends_bind (spares_get h) fun src _ h' => spares_appendArray h' src _ faults

theorem spares_copyFromArray (src : Pointer) (n : Nat) :
    Leaves (s.copyFromArray src n) m' (Spares m s.array) := by
  refine ends_ite (fun _ => h) fun _ => ends_ite (fun _ => ?_) fun _ => h
  refine ends_bind (writable_get h) fun p m₁ h₁ => ?_
  exact ends_bind (spares_copy h₁.1 h₁.2 src _) fun _ _ h₂ => h₂

theorem spares_copyFrom : Leaves (s.copyFrom s1) m' (Spares m s.array) :=
  ends_ite (fun _ => ends_bind (spares_get h) fun src _ h' => spares_copyFromArray h' src _)
    fun _ => h

theorem spares_setIndex (i : Nat) (v : T) : Leaves (s.setIndex i v) m' (Spares m s.array) :=
  ends_bind (writable_p h) fun _ _ hp => spares_writeAt hp.1 hp.2 _ v

end Writing

/-- The slice a call writes through. -/
def Call.through : Call T → Option SliceImpl
  | .append s _ _ => some s
  | .appendArray s _ _ _ => some s
  | .appendSlice s _ _ => some s
  | .copyFromArray s _ _ => some s
  | .copyFrom s _ => some s
  | .setIndex s _ _ => some s
  | _ => none

namespace State

/-- Whatever a call does, it writes to the array of the slice it writes through. -/
theorem spares_act (c : Call T) (m : Memory T) :
    Leaves c.act m (Spares m (c.through.bind array)) := by
  have h := fun array => Spares.refl m array
  cases c with
  | array cells => exact ends_bind (spares_ownArray (h _) cells) fun _ _ h' => h'
  | create size capacity faults =>
    exact ends_bind (spares_create (h _) size capacity faults) fun _ _ h' => h'
  | range s begin faults => exact ends_bind (spares_range (h _) begin faults) fun _ _ h' => h'
  | rangeTo s begin fin faults =>
    exact ends_bind (spares_rangeTo (h _) begin fin faults) fun _ _ h' => h'
  | append s v faults => exact ends_bind (spares_append (h _) v faults) fun _ _ h' => h'
  | appendArray s arrs n faults =>
    exact ends_bind (spares_appendArray (h _) arrs n faults) fun _ _ h' => h'
  | appendSlice s s1 faults =>
    exact ends_bind (spares_appendSlice (h _) faults) fun _ _ h' => h'
  | copyFromArray s src n =>
    exact ends_bind (spares_copyFromArray (h _) src n) fun _ _ h' => h'
  | copyFrom s s1 => exact ends_bind (spares_copyFrom (h _)) fun _ _ h' => h'
  | «at» s i => exact ends_bind (spares_atWith (h _) _ i) fun _ _ h' => h'
  | atConst s i => exact ends_bind (spares_atWith (h _) _ i) fun _ _ h' => h'
  | index s i => exact ends_bind (spares_index (h _) i) fun _ _ h' => h'
  | setIndex s i v => exact ends_bind (spares_setIndex (h _) i v) fun _ _ h' => h'

theorem spares_step (st : State T) (c : Call T) :
    Spares st.memory (c.through.bind array) (st.step c).1.memory := by
  have h := spares_act c st.memory
  rw [Leaves, Ends] at h
  rw [step]
  cases hact : c.act st.memory with
  | error e m =>
    rw [hact] at h
    exact h
  | ok a m =>
    rw [hact] at h
    cases a <;> exact h

/-- A slice over another array shows what it did. -/
theorem elements_step {st : State T} {u : SliceImpl} (hu : u.Valid st.memory) (c : Call T)
    (h : ∀ t, c.through = some t → t.array ≠ u.array) :
    u.elements (st.step c).1.memory = u.elements st.memory := by
  cases ha : u.array with
  | none => rw [elements_none ha, elements_none ha]
  | some a =>
    refine elements_congr ha fun i _ => (spares_step st c).2 a (hu.window a ha).1 ?_ _
    cases ht : c.through with
    | none => exact fun heq => by cases heq
    | some t => exact ha ▸ h t ht

end State

end KgCpp.Slice
