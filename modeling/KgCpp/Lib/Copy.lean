import Mathlib.Data.List.Basic
import Mathlib.Tactic

/-!
# Block copies on lists

A contiguous block of memory is a list of cells, and the two things a C program
does to a block with `memcpy` are two list functions:

- `window l pos n`: the `n` cells from `pos` on (what a copy *out of* the block
  reads);
- `blit l pos src`: the block with the cells from `pos` on replaced by `src`
  (what a copy *into* the block leaves).

The lemmas say how a window sees a blit: it reads back what was written
(`window_blit_self`), it does not see what was written elsewhere
(`window_blit_left`), and adjacent windows join (`window_append`).
-/

namespace Lib

universe u

variable {α : Type u}

/-- The `n` cells of `l` from position `pos` on. -/
def window (l : List α) (pos n : Nat) : List α :=
  (l.drop pos).take n

/-- `l` with the cells from `pos` on overwritten by `src`. -/
def blit (l : List α) (pos : Nat) (src : List α) : List α :=
  l.take pos ++ src ++ l.drop (pos + src.length)

@[simp] theorem window_zero (l : List α) (pos : Nat) : window l pos 0 = [] := by
  simp [window]

theorem length_window {l : List α} {pos n : Nat} (h : pos + n ≤ l.length) :
    (window l pos n).length = n := by
  rw [window, List.length_take, List.length_drop]
  omega

/-- Adjacent windows join. -/
theorem window_append (l : List α) (pos m n : Nat) :
    window l pos m ++ window l (pos + m) n = window l pos (m + n) := by
  rw [window, window, window, ← List.drop_drop, ← List.take_add]

/-- Cutting a window short. -/
theorem take_window (l : List α) (pos m n : Nat) :
    (window l pos n).take m = window l pos (min m n) := by
  rw [window, window, List.take_take]

/-- Cutting the front off a window. -/
theorem drop_window (l : List α) (pos m n : Nat) :
    (window l pos n).drop m = window l (pos + m) (n - m) := by
  rw [window, window, List.drop_take, List.drop_drop]

theorem length_blit {l src : List α} {pos : Nat} (h : pos + src.length ≤ l.length) :
    (blit l pos src).length = l.length := by
  simp only [blit, List.length_append, List.length_take, List.length_drop]
  omega

@[simp] theorem blit_nil (l : List α) (pos : Nat) : blit l pos [] = l := by
  simp [blit]

/-- A window on what was just written reads it back. -/
theorem window_blit_self {l src : List α} {pos : Nat} (h : pos ≤ l.length) :
    window (blit l pos src) pos src.length = src := by
  have hlen : (l.take pos).length = pos := by
    rw [List.length_take]
    omega
  rw [window, blit, List.append_assoc, List.drop_append_of_le_length (by omega),
    List.drop_of_length_le (by omega), List.nil_append, List.take_left]

/-- A window that ends before the written cells does not see the write. -/
theorem window_blit_left {l src : List α} {pos p n : Nat} (hl : pos ≤ l.length)
    (h : p + n ≤ pos) : window (blit l pos src) p n = window l p n := by
  have hlen : (l.take pos).length = pos := by
    rw [List.length_take]
    omega
  rw [window, window, blit, List.append_assoc,
    List.drop_append_of_le_length (by omega),
    List.take_append_of_le_length (by rw [List.length_drop]; omega),
    List.drop_take, List.take_take, Nat.min_eq_left (by omega)]

/-- Cells before the written ones stay. -/
theorem getD_blit_of_lt {l src : List α} {pos i : Nat} (hl : pos ≤ l.length) (hi : i < pos)
    (d : α) : (blit l pos src).getD i d = l.getD i d := by
  have hlen : i < (l.take pos).length := by
    rw [List.length_take]
    omega
  rw [List.getD, List.getD, blit, List.append_assoc, List.getElem?_append_left hlen,
    List.getElem?_take_of_lt hi]

/-- Writing one more cell: what a copying loop does in each turn. -/
theorem blit_append_singleton {l src : List α} {pos : Nat} (a : α)
    (h : pos + src.length < l.length) :
    blit l pos (src ++ [a]) = (blit l pos src).set (pos + src.length) a := by
  have hlen : (l.take pos ++ src).length = pos + src.length := by
    rw [List.length_append, List.length_take]
    omega
  rw [blit, blit, List.set_append_right _ _ (by omega), hlen, Nat.sub_self,
    List.drop_eq_getElem_cons h, List.set_cons_zero, List.length_append, List.length_singleton,
    ← Nat.add_assoc]
  simp

/-- Two blits one behind the other, from the front, are one. -/
theorem blit_zero_append (l a b : List α) :
    blit l 0 (a ++ b) = blit (blit l 0 a) a.length b := by
  simp only [blit, List.take_zero, List.nil_append, Nat.zero_add, List.take_left,
    List.drop_length_add_append, List.drop_drop, List.length_append, List.append_assoc]

/-! ## Taking from a list in two turns -/

/-- What the first turn takes of `xs` and the second of the rest is what one turn takes
of both lists. -/
theorem take_two_turns (xs ys : List α) (n : Nat) :
    xs.take n ++ (xs.drop n ++ ys).take (n - (xs.take n).length) = (xs ++ ys).take n := by
  rw [List.length_take]
  rcases Nat.le_total n xs.length with hle | hle
  · rw [Nat.min_eq_left hle, Nat.sub_self, List.take_zero, List.append_nil,
      List.take_append_of_le_length hle]
  · rw [Nat.min_eq_right hle, List.drop_of_length_le hle, List.nil_append, List.take_append]

theorem drop_two_turns (xs ys : List α) (n : Nat) :
    (xs.drop n ++ ys).drop (n - (xs.take n).length) = (xs ++ ys).drop n := by
  rw [List.length_take]
  rcases Nat.le_total n xs.length with hle | hle
  · rw [Nat.min_eq_left hle, Nat.sub_self, List.drop_zero, List.drop_append_of_le_length hle]
  · rw [Nat.min_eq_right hle, List.drop_of_length_le hle, List.nil_append, List.drop_append,
      List.drop_of_length_le hle, List.nil_append]

end Lib
