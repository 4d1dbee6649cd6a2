import Mathlib.Data.List.Basic
import Mathlib.Tactic

/-!
# Integer types and allocation (`types.hpp`, `allocator.hpp`)

- `byte_t` is `Byte`, an 8-bit unsigned integer; `int` is `Int32`.
- `std::size_t` is a natural number. Sums of sizes of live memory stay far below
  `2 ^ 64` and are plain additions; where the source subtracts two sizes, or
  computes a size that no memory backs yet, the wrap-around is explicit
  (`subSize`, `addSize`, `mulSize`).
- `allocator_t::create_array` is `new T[n]`, whose elements hold whatever the
  memory held: `createArray fresh k n` takes them from `fresh`, a function of
  the array (the `k`-th one made) and the index. Nothing is assumed of `fresh`.
-/

namespace KgCpp

universe u

/-- `kg::byte_t`. -/
abbrev Byte := UInt8

/-- Conversion of an `int` to `std::size_t`. -/
def sizeOfInt (i : Int32) : Nat := (i.toInt % 2 ^ 64).toNat

theorem sizeOfInt_of_nonneg {i : Int32} (h : 0 ≤ i.toInt) : sizeOfInt i = i.toInt.toNat := by
  have hlt := i.toInt_lt
  rw [sizeOfInt, Int.emod_eq_of_lt h (by omega)]

/-- `a - b` on `std::size_t`. -/
def subSize (a b : Nat) : Nat := if b ≤ a then a - b else a + 2 ^ 64 - b

/-- `a + b` on `std::size_t`. -/
def addSize (a b : Nat) : Nat := (a + b) % 2 ^ 64

/-- `a * b` on `std::size_t`. -/
def mulSize (a b : Nat) : Nat := (a * b) % 2 ^ 64

theorem subSize_of_le {a b : Nat} (h : b ≤ a) : subSize a b = a - b := if_pos h

theorem addSize_of_lt {a b : Nat} (h : a + b < 2 ^ 64) : addSize a b = a + b :=
  Nat.mod_eq_of_lt h

theorem mulSize_of_lt {a b : Nat} (h : a * b < 2 ^ 64) : mulSize a b = a * b :=
  Nat.mod_eq_of_lt h

/-- `allocator_t::create_array`, when it does not throw. -/
def createArray {T : Type u} (fresh : Nat → Nat → T) (k n : Nat) : List T :=
  (List.range n).map (fresh k)

@[simp] theorem length_createArray {T : Type u} (fresh : Nat → Nat → T) (k n : Nat) :
    (createArray fresh k n).length = n := by
  simp [createArray]

end KgCpp
