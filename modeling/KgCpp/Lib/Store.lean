import Mathlib.Data.List.Basic
import Mathlib.Tactic

/-!
# A store of objects

Objects that a program shares through pointers live in a `Store`: a reference
is the position of the object, `alloc` makes a new object under a reference no
earlier one has, and `set` overwrites one object. Objects are never removed: an
object no pointer reaches any more is garbage, and what a program can observe
does not depend on it.
-/

namespace Lib

universe u

/-- A reference to an object of a store. -/
abbrev Ref := Nat

/-- Objects of type `α`, by reference. -/
structure Store (α : Type u) : Type u where
  cells : List α

namespace Store

variable {α : Type u}

/-- The store without objects. -/
def empty : Store α := ⟨[]⟩

/-- The number of objects made so far; also the next fresh reference. -/
def size (s : Store α) : Nat := s.cells.length

/-- The object under `r`. -/
def get [Inhabited α] (s : Store α) (r : Ref) : α := s.cells.getD r default

/-- Make a new object; its reference is `s.size`. -/
def alloc (s : Store α) (a : α) : Store α := ⟨s.cells ++ [a]⟩

/-- Overwrite the object under `r`. -/
def set (s : Store α) (r : Ref) (a : α) : Store α := ⟨s.cells.set r a⟩

@[simp] theorem size_alloc (s : Store α) (a : α) : (s.alloc a).size = s.size + 1 := by
  simp [alloc, size]

@[simp] theorem size_set (s : Store α) (r : Ref) (a : α) : (s.set r a).size = s.size := by
  simp [set, size]

/-- Overwriting the newest object. -/
theorem set_alloc_new (s : Store α) (a b : α) : (s.alloc a).set s.size b = s.alloc b := by
  simp [set, alloc, size]

/-- Overwriting an older object. -/
theorem set_alloc_old {s : Store α} {r : Ref} (h : r < s.size) (a b : α) :
    (s.alloc a).set r b = (s.set r b).alloc a := by
  have hr : r < s.cells.length := h
  simp [set, alloc, List.set_append_left _ _ hr]

variable [Inhabited α]

@[simp] theorem get_alloc_new (s : Store α) (a : α) : (s.alloc a).get s.size = a := by
  simp [alloc, size, get]

/-- Making a new object leaves the old ones alone. -/
theorem get_alloc_old {s : Store α} {r : Ref} (h : r < s.size) (a : α) :
    (s.alloc a).get r = s.get r := by
  have hr : r < s.cells.length := h
  simp [alloc, get, List.getElem?_append_left hr]

/-- No object was made under `r` yet. -/
theorem get_of_size_le {s : Store α} {r : Ref} (h : s.size ≤ r) : s.get r = default := by
  have hr : s.cells.length ≤ r := h
  simp [get, hr]

theorem get_set_self {s : Store α} {r : Ref} (h : r < s.size) (a : α) :
    (s.set r a).get r = a := by
  have hr : r < s.cells.length := h
  simp [set, get, hr]

/-- Overwriting an object with itself. -/
theorem set_get {s : Store α} {r : Ref} (h : r < s.size) : s.set r (s.get r) = s := by
  have hr : r < s.cells.length := h
  rw [set, get, List.getD, List.getElem?_eq_getElem hr, Option.getD_some, List.set_getElem_self]

/-- Overwriting one object leaves the others alone. -/
theorem get_set_ne {s : Store α} {r q : Ref} (h : q ≠ r) (a : α) :
    (s.set r a).get q = s.get q := by
  simp [set, get, List.getElem?_set_ne (Ne.symm h)]

end Store

end Lib
