import KgCpp.Lib.Action
import KgCpp.Lib.Store
import KgCpp.Types

/-!
# The memory under slices

Slices share arrays: the arrays are objects of a store, a pointer is a place in
one of them or null, and every access to an element is checked. An access
through a null pointer or outside the array it is applied to does not read or
write anything but throws a `Fault` that no function of the source throws; that
these faults never come is a theorem about the functions, not an assumption of
the model.

`Extends m m'` says that the arrays of `m` are still there in `m'`, each with
its length; every function here extends the memory.
-/

namespace KgCpp.Slice

open Lib

/-- What an operation on slices can throw; the last two stand for undefined
behaviour. -/
inductive Fault where
  | outOfRange (what : String)
  | badAlloc
  | nullArray
  | outOfBounds
deriving DecidableEq, Repr

/-- The arrays. `fresh` tells what the elements of a new array hold. -/
structure Memory (T : Type) where
  fresh : Nat → Nat → T
  arrays : Store (List T)

/-- A pointer to an element: a place in an array, or null. -/
abbrev Pointer := Option (Ref × Nat)

/-- `p + n`. -/
def Pointer.add (p : Pointer) (n : Nat) : Pointer := p.map fun (a, k) => (a, k + n)

namespace Memory

variable {T : Type}

/-- The allocated length of an array. -/
def length (m : Memory T) (a : Ref) : Nat := (m.arrays.get a).length

/-- Overwrite one array. -/
def setArray (m : Memory T) (a : Ref) (cells : List T) : Memory T :=
  { m with arrays := m.arrays.set a cells }

/-- The arrays of `m` are in `m'`, with their lengths. -/
structure Extends (m m' : Memory T) : Prop where
  size : m.arrays.size ≤ m'.arrays.size
  length : ∀ a < m.arrays.size, m'.length a = m.length a

theorem Extends.refl (m : Memory T) : Extends m m := ⟨Nat.le_refl _, fun _ _ => rfl⟩

theorem Extends.trans {m m' m'' : Memory T} (h : Extends m m') (h' : Extends m' m'') :
    Extends m m'' :=
  ⟨h.size.trans h'.size, fun a ha =>
    (h'.length a (Nat.lt_of_lt_of_le ha h.size)).trans (h.length a ha)⟩

/-- `p` points to `n` elements of an array. -/
def Points (m : Memory T) (p : Pointer) (n : Nat) : Prop :=
  n = 0 ∨ ∃ a k, p = some (a, k) ∧ a < m.arrays.size ∧ k + n ≤ m.length a

theorem Points.extends {m m' : Memory T} {p : Pointer} {n : Nat} (h : m.Points p n)
    (hext : Extends m m') : m'.Points p n := by
  rcases h with h | ⟨a, k, hp, ha, hk⟩
  · exact .inl h
  · exact .inr ⟨a, k, hp, Nat.lt_of_lt_of_le ha hext.size, by rw [hext.length a ha]; exact hk⟩

/-- A pointer to `n` elements points to fewer. -/
theorem Points.le {m : Memory T} {p : Pointer} {n n' : Nat} (h : m.Points p n) (hn : n' ≤ n) :
    m.Points p n' := by
  rcases h with h | ⟨a, k, hp, ha, hk⟩
  · exact .inl (by omega)
  · exact .inr ⟨a, k, hp, ha, by omega⟩

end Memory

section Access

variable {T : Type}

/-- `p[i]`. -/
def readAt (p : Pointer) (i : Nat) : Action Fault (Memory T) T := fun m =>
  match p with
  | none => .error .nullArray m
  | some (a, k) =>
    match (m.arrays.get a)[k + i]? with
    | none => .error .outOfBounds m
    | some v => .ok v m

/-- `p[i] = v`. -/
def writeAt (p : Pointer) (i : Nat) (v : T) : Action Fault (Memory T) Unit := fun m =>
  match p with
  | none => .error .nullArray m
  | some (a, k) =>
    if k + i < m.length a then .ok () (m.setArray a ((m.arrays.get a).set (k + i) v))
    else .error .outOfBounds m

/-- `create_array(n)` in a `make_shared<array_t>(n)`; `fails` when one of its
allocations throws. -/
def newArray (n : Nat) (fails : Bool) : Action Fault (Memory T) Ref := fun m =>
  if fails then .error .badAlloc m
  else .ok m.arrays.size { m with arrays := m.arrays.alloc (createArray m.fresh m.arrays.size n) }

/-- The loop of `std::copy`, from element `i` on, `n` elements. -/
def copyLoop (src dist : Pointer) (i : Nat) : Nat → Action Fault (Memory T) Unit
  | 0 => pure ()
  | n + 1 => do
    let v ← readAt src i
    writeAt dist i v
    copyLoop src dist (i + 1) n

/-- `std::copy(src, src + n, dist)`. -/
def copy (src dist : Pointer) (n : Nat) : Action Fault (Memory T) Unit :=
  copyLoop src dist 0 n

variable {m : Memory T} {p : Pointer}

theorem ends_readAt {n i : Nat} (h : m.Points p n) (hi : i < n) {E : Fault → Memory T → Prop} :
    Ends (readAt p i) m (fun _ m' => m' = m) E := by
  rcases h with h | ⟨a, k, rfl, -, hk⟩
  · omega
  · have hlt : k + i < (m.arrays.get a).length := Nat.lt_of_lt_of_le (by omega) hk
    have hread : readAt (some (a, k)) i m = .ok (m.arrays.get a)[k + i] m := by
      rw [readAt, List.getElem?_eq_getElem hlt]
    exact ends_of_ok hread rfl

/-- Writing keeps the lengths. -/
theorem extends_setArray {a : Ref} (ha : a < m.arrays.size) {cells : List T}
    (h : cells.length = m.length a) : m.Extends (m.setArray a cells) := by
  refine ⟨by rw [Memory.setArray, Store.size_set], fun b _ => ?_⟩
  show ((m.arrays.set a cells).get b).length = _
  by_cases hb : b = a
  · rw [hb, Store.get_set_self ha]
    exact h
  · rw [Store.get_set_ne hb]
    rfl

theorem ends_writeAt {n i : Nat} (h : m.Points p n) (hi : i < n) (v : T)
    {E : Fault → Memory T → Prop} : Ends (writeAt p i v) m (fun _ m' => m.Extends m') E := by
  rcases h with h | ⟨a, k, rfl, ha, hk⟩
  · omega
  · refine ends_of_ok (a := ()) ?_ (extends_setArray ha (List.length_set (i := k + i) (a := v)))
    rw [writeAt, if_pos (show k + i < m.length a by omega)]

theorem ends_newArray (n : Nat) {fails : Bool} {E : Fault → Memory T → Prop}
    (hE : E .badAlloc m) :
    Ends (newArray n fails) m (fun a m' => m.Extends m' ∧ m'.Points (some (a, 0)) n ∧
      a < m'.arrays.size ∧ m'.length a = n) E := by
  cases fails with
  | true => exact hE
  | false =>
    have hlen : ((m.arrays.alloc (createArray m.fresh m.arrays.size n)).get
        m.arrays.size).length = n := by
      rw [Store.get_alloc_new, length_createArray]
    have hlt : m.arrays.size < (m.arrays.alloc (createArray m.fresh m.arrays.size n)).size := by
      rw [Store.size_alloc]
      omega
    refine ends_of_ok rfl ⟨⟨Nat.le_of_lt hlt, fun a ha => ?_⟩,
      .inr ⟨m.arrays.size, 0, rfl, hlt, ?_⟩, hlt, hlen⟩
    · exact congrArg List.length (Store.get_alloc_old ha _)
    · exact Nat.le_of_eq ((Nat.zero_add n).trans hlen.symm)

/-- `std::copy` between places that are there. -/
theorem ends_copy {src dist : Pointer} {n : Nat} (hsrc : m.Points src n)
    (hdist : m.Points dist n) {E : Fault → Memory T → Prop} :
    Ends (copy src dist n) m (fun _ m' => m.Extends m') E := by
  have key : ∀ (n i N : Nat) (m : Memory T), i + n ≤ N → m.Points src N → m.Points dist N →
      Ends (copyLoop src dist i n) m (fun _ m' => m.Extends m') E := by
    intro n
    induction n with
    | zero => exact fun i N m _ _ _ => ends_pure (.refl m)
    | succ n ih =>
      intro i N m hle hsrc hdist
      refine ends_bind (ends_readAt hsrc (by omega)) ?_
      rintro v _ rfl
      refine ends_bind (ends_writeAt hdist (by omega) v) fun _ m' hext => ?_
      exact (ih (i + 1) N m' (by omega) (hsrc.extends hext) (hdist.extends hext)).mono
        (fun _ _ hext' => hext.trans hext') fun _ _ he => he
  exact key n 0 n m (by omega) hsrc hdist

end Access

end KgCpp.Slice
