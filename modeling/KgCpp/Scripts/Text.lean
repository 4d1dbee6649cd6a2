import Mathlib.Data.List.Basic
import Mathlib.Data.List.TakeWhile
import Mathlib.Tactic
import KgCpp.Types

/-!
# Texts

Strings are sequences of bytes: a Duktape string and a `std::string` may hold any
bytes, and a C string ends in front of its first zero byte.
-/

namespace KgCpp.Scripts

/-- The bytes of a string. -/
abbrev Str := List Byte

/-- The bytes of a literal of the source. -/
def text (s : String) : Str := s.toList.map fun c => UInt8.ofNat c.toNat

/-- What a `const char*` to the bytes of a string shows. -/
def cString (s : Str) : Str := s.takeWhile (· ≠ 0)

/-- A string without a zero byte, as a function that returns `const char*` gives
it. -/
abbrev CString := { s : Str // 0 ∉ s }

theorem cString_of_not_mem {s : Str} (h : 0 ∉ s) : cString s = s :=
  List.takeWhile_eq_self_iff.mpr fun _ hb => decide_eq_true fun hzero => h (hzero ▸ hb)

theorem zero_not_mem_cString (s : Str) : 0 ∉ cString s := fun h => by
  have hne := List.mem_takeWhile_imp h
  exact of_decide_eq_true hne rfl

theorem cString_eq_self_iff {s : Str} : cString s = s ↔ 0 ∉ s :=
  ⟨fun h => h ▸ zero_not_mem_cString s, cString_of_not_mem⟩

/-- A white space of `boost::trim` in the classic locale. -/
def isSpace (b : Byte) : Bool := b = 32 ∨ (9 ≤ b ∧ b ≤ 13)

/-- `boost::trim`. -/
def trim (s : Str) : Str := ((s.dropWhile isSpace).reverse.dropWhile isSpace).reverse

end KgCpp.Scripts
