import KgCpp.Lib.Copy
import KgCpp.Types

/-!
# `basic_fragmentation_t` (`bytes/fragmentation.hpp`)

A fragment is an array that is filled from the left and drained from the left:
the readable bytes are `size` bytes from `offset` on. The counters keep
`offset + size ≤ capacity`, and the array has `capacity` bytes (none behind a
null pointer); both are fields of the structure, so each operation proves that
it keeps them.
-/

namespace KgCpp.Bytes

open Lib

/-- `basic_fragmentation_t`. `array` are the bytes behind `_array`, none when
the pointer is null. -/
structure Fragmentation where
  array : List Byte
  capacity : Nat
  offset : Nat
  size : Nat
  length_array : array.length = capacity
  bound : offset + size ≤ capacity
deriving DecidableEq

namespace Fragmentation

/-- A fragment without an array. -/
def null : Fragmentation := ⟨[], 0, 0, 0, rfl, Nat.le_refl _⟩

instance : Inhabited Fragmentation := ⟨null⟩

/-- The constructor. `arrayFails`: `create_array` throws `std::bad_alloc`, which
the constructor swallows. `k` tells which array `fresh` describes. -/
def create (fresh : Nat → Nat → Byte) (k size : Nat) (arrayFails : Bool) : Fragmentation :=
  if size = 0 then null
  else if arrayFails then null
  else ⟨createArray fresh k size, size, 0, 0, length_createArray .., Nat.zero_le _⟩

/-- `reinit`: the array stays, with its old bytes. -/
def reinit (f : Fragmentation) : Fragmentation :=
  ⟨f.array, f.capacity, 0, 0, f.length_array, Nat.zero_le _⟩

/-- `reset`: the array is given back. -/
def reset (_ : Fragmentation) : Fragmentation := null

/-- `get_free`. -/
def getFree (f : Fragmentation) : Nat := subSize (subSize f.capacity f.offset) f.size

/-- The unsigned subtractions of `get_free` never wrap. -/
theorem getFree_eq (f : Fragmentation) : f.getFree = f.capacity - f.offset - f.size := by
  have h := f.bound
  have hoff : subSize f.capacity f.offset = f.capacity - f.offset := subSize_of_le (by omega)
  rw [getFree, hoff, subSize_of_le (by omega)]

/-- The readable bytes. -/
def content (f : Fragmentation) : List Byte := window f.array f.offset f.size

@[simp] theorem length_content (f : Fragmentation) : f.content.length = f.size :=
  length_window (by rw [f.length_array]; exact f.bound)

/-- How many of `n` bytes `write` takes. -/
def accepted (f : Fragmentation) (n : Nat) : Nat :=
  if n > f.getFree then f.getFree else n

theorem accepted_le (f : Fragmentation) (n : Nat) :
    f.offset + f.size + f.accepted n ≤ f.capacity ∧ f.accepted n ≤ n := by
  have h := f.bound
  have hfree := f.getFree_eq
  unfold accepted
  split <;> omega

/-- `write`: the number of bytes taken, and the fragment with them. -/
def write (f : Fragmentation) (bytes : List Byte) : Nat × Fragmentation :=
  (f.accepted bytes.length,
    { f with
      array := blit f.array (f.offset + f.size) (bytes.take (f.accepted bytes.length))
      size := f.size + f.accepted bytes.length
      length_array := by
        have h := f.accepted_le bytes.length
        rw [length_blit (by rw [List.length_take, f.length_array]; omega), f.length_array]
      bound := by
        have h := f.accepted_le bytes.length
        omega })

/-- How many bytes `read` and `copy_to` hand out when asked for `n`. -/
def available (f : Fragmentation) (n : Nat) : Nat :=
  if n > f.size then f.size else n

theorem available_eq (f : Fragmentation) (n : Nat) : f.available n = min n f.size := by
  unfold available
  split <;> omega

/-- `read`: the number of bytes handed out, the bytes, and what is left. -/
def read (f : Fragmentation) (n : Nat) : Nat × List Byte × Fragmentation :=
  (f.available n, window f.array f.offset (f.available n),
    { f with
      offset := f.offset + f.available n
      size := f.size - f.available n
      bound := by
        have h := f.bound
        have hav := f.available_eq n
        omega })

/-- `copy_to` without skip: the number of bytes handed out, and the bytes. -/
def copyTo (f : Fragmentation) (n : Nat) : Nat × List Byte :=
  (f.available n, window f.array f.offset (f.available n))

/-- `copy_to` with skip: the number of bytes handed out, and the bytes. -/
def copyToSkip (f : Fragmentation) (skip n : Nat) : Nat × List Byte :=
  if skip ≥ f.size then (0, [])
  else
    let size := f.size - skip
    let need := if n > size then size else n
    (need, window f.array (f.offset + skip) need)

/-! ## What the operations do to the readable bytes -/

theorem content_create (fresh : Nat → Nat → Byte) (k size : Nat) (arrayFails : Bool) :
    (create fresh k size arrayFails).content = [] := by
  unfold create
  split
  · rfl
  · split
    · rfl
    · exact window_zero _ _

@[simp] theorem content_reinit (f : Fragmentation) : f.reinit.content = [] :=
  window_zero _ _

theorem getFree_reinit (f : Fragmentation) : f.reinit.getFree = f.capacity := by
  rw [getFree_eq]
  simp [reinit]

theorem getFree_create (fresh : Nat → Nat → Byte) (k size : Nat) (arrayFails : Bool) :
    (create fresh k size arrayFails).getFree = if arrayFails then 0 else size := by
  rw [getFree_eq]
  unfold create
  split
  · rename_i h
    simp [h, null]
  · split <;> simp [null]

theorem accepted_eq (f : Fragmentation) (n : Nat) : f.accepted n = min n f.getFree := by
  unfold accepted
  split <;> omega

theorem write_nil (f : Fragmentation) : (f.write []).2 = f := by
  have hacc : f.accepted 0 = 0 := by
    rw [accepted_eq, Nat.zero_min]
  rcases f with ⟨array, capacity, offset, size, hlen, hbound⟩
  simp only [write, List.length_nil, hacc, List.take_nil, blit_nil, Nat.add_zero]

theorem getFree_write (f : Fragmentation) (bytes : List Byte) :
    (f.write bytes).2.getFree = f.getFree - bytes.length := by
  have hfree := f.getFree_eq
  have hacc := f.accepted_eq bytes.length
  rw [getFree_eq]
  show f.capacity - f.offset - (f.size + f.accepted bytes.length) = _
  omega

/-- `write` appends the longest prefix that fits. -/
theorem content_write (f : Fragmentation) (bytes : List Byte) :
    (f.write bytes).2.content = f.content ++ bytes.take f.getFree := by
  have hle := f.accepted_le bytes.length
  have hpre : bytes.take f.getFree = bytes.take (f.accepted bytes.length) := by
    rw [accepted_eq, List.take_eq_take_iff]
    omega
  have hlen : (bytes.take (f.accepted bytes.length)).length = f.accepted bytes.length := by
    rw [List.length_take]
    omega
  have hpos : f.offset + f.size ≤ f.array.length := by
    rw [f.length_array]
    exact f.bound
  have hself : window (blit f.array (f.offset + f.size)
      (bytes.take (f.accepted bytes.length))) (f.offset + f.size)
      (f.accepted bytes.length) = bytes.take (f.accepted bytes.length) := by
    conv_lhs => arg 3; rw [← hlen]
    exact window_blit_self hpos
  show window (blit f.array (f.offset + f.size) (bytes.take (f.accepted bytes.length)))
    f.offset (f.size + f.accepted bytes.length) = _
  rw [← window_append, window_blit_left hpos (Nat.le_refl _), hself, hpre]
  rfl

/-- `copy_to` hands out the first bytes. -/
theorem copyTo_eq (f : Fragmentation) (n : Nat) :
    f.copyTo n = ((f.content.take n).length, f.content.take n) := by
  have h : window f.array f.offset (f.available n) = f.content.take n := by
    rw [content, take_window, available_eq]
  rw [List.length_take, length_content, ← h, ← available_eq]
  rfl

/-- `copy_to` with skip hands out the first bytes behind the skipped ones. -/
theorem copyToSkip_eq (f : Fragmentation) (skip n : Nat) :
    f.copyToSkip skip n =
      (((f.content.drop skip).take n).length, (f.content.drop skip).take n) := by
  have hlen : (f.content.drop skip).length = f.size - skip := by
    rw [List.length_drop, length_content]
  unfold copyToSkip
  split
  · rw [List.drop_of_length_le (by rw [length_content]; omega), List.take_nil]
    rfl
  · have hneed : (if n > f.size - skip then f.size - skip else n) = min n (f.size - skip) := by
      split <;> omega
    dsimp only
    rw [hneed, List.length_take, hlen, content, drop_window, take_window]

/-- `read` hands out the first bytes and keeps the others. -/
theorem read_eq (f : Fragmentation) (n : Nat) :
    (f.read n).1 = (f.content.take n).length ∧ (f.read n).2.1 = f.content.take n ∧
      (f.read n).2.2.content = f.content.drop n := by
  have h : window f.array f.offset (f.available n) = f.content.take n := by
    rw [content, take_window, available_eq]
  refine ⟨?_, h, ?_⟩
  · rw [List.length_take, length_content, ← available_eq]
    rfl
  · show window f.array (f.offset + f.available n) (f.size - f.available n) = _
    rw [content, drop_window, available_eq]
    rcases Nat.le_total n f.size with hle | hle
    · rw [Nat.min_eq_left hle]
    · rw [Nat.min_eq_right hle, Nat.sub_self, Nat.sub_eq_zero_of_le hle, window_zero,
        window_zero]

end Fragmentation

end KgCpp.Bytes
