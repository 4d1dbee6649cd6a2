import Mathlib.Algebra.BigOperators.Group.List.Basic
import Mathlib.Tactic

/-!
# Blocks that double

A block of storage that holds more and more is replaced, when it is full, by one
at least twice as large. `Doubled c size cap made` says how that stands: the first
block had room for `c`, the one in use has room for `cap` and holds `size`, and
`made` are the capacities of those that were made on the way. `start`, `stay` and
`grow` are its rules; what follows is that all of them together are less than four
times what the last one holds (`sum_lt`), and that their number is logarithmic
(`two_pow_length_lt`).
-/

namespace Lib

/-- How blocks that double stand. -/
structure Doubled (c size cap : Nat) (made : List Nat) : Prop where
  room : size ≤ cap
  total : made.sum + 2 * c ≤ 2 * cap
  count : made ≠ [] → 2 ^ made.length ≤ 2 * cap
  tight : made = [] ∧ cap = c ∨ made ≠ [] ∧ cap < 2 * size

namespace Doubled

variable {c size cap n : Nat} {made : List Nat}

theorem start (h : size ≤ c) : Doubled c size c [] where
  room := h
  total := by rw [List.sum_nil, Nat.zero_add]
  count h := absurd rfl h
  tight := .inl ⟨rfl, rfl⟩

/-- There is room for what comes. -/
theorem stay (h : Doubled c size cap made) (hn : size ≤ n) (hroom : n ≤ cap) :
    Doubled c n cap made where
  room := hroom
  total := h.total
  count := h.count
  tight := h.tight.imp_right fun hlt => ⟨hlt.1, by omega⟩

/-- There is none, and a larger block is made. -/
theorem grow (h : Doubled c size cap made) (hfull : cap < n) :
    Doubled c n (max (2 * cap) n) (made ++ [max (2 * cap) n]) where
  room := Nat.le_max_right ..
  total := by
    have htotal := h.total
    rw [List.sum_append, List.sum_singleton]
    omega
  count _ := by
    rw [List.length_append, List.length_singleton, pow_succ]
    cases made with
    | nil =>
      rw [List.length_nil, pow_zero]
      omega
    | cons k made =>
      have hcount := h.count (List.cons_ne_nil k made)
      omega
  tight := .inr ⟨List.append_ne_nil_of_right_ne_nil _ (List.cons_ne_nil _ _), by omega⟩

/-- All blocks together are less than four times what the last one holds. -/
theorem sum_lt (h : Doubled c size cap made) (hlt : cap < 2 * size) : made.sum < 4 * size := by
  have htotal := h.total
  omega

/-- Their number is logarithmic. -/
theorem two_pow_length_lt (h : Doubled c size cap made) (hne : made ≠ [])
    (hlt : cap < 2 * size) : 2 ^ made.length < 4 * size := by
  have hcount := h.count hne
  omega

end Doubled

end Lib
