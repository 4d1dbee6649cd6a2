import KgCpp.Lib.Run

/-!
# Taking turns in blocks

A scheduler that hands the same value to `size` turns in a row, and then takes a
new one, keeps the value and how many turns of its block are left. `run_turn`
says what a run of such turns is: within a block all get the same, and a new
value is taken exactly at the turns whose number is a multiple of `size`, but for
the first.
-/

namespace Lib

namespace Blocks

universe u

variable {α : Type u}

/-- One turn, when the value to take would be `new`. -/
def turn (size : Nat) (s : Nat × α) (new : α) : (Nat × α) × α :=
  if s.1 ≠ 0 then ((s.1 - 1, s.2), s.2) else ((size - 1, new), new)

/-- What the turn with the number `i` gets, when the values to take are `news`: the
value taken at the beginning of its block. -/
def chosen (size : Nat) (first : α) (news : List α) (i : Nat) : Option α :=
  if i < size then some first else news[i / size * size]?

/-- How many turns of its block are left before the turn with the number `n`. -/
def left (size n : Nat) : Nat := if n = 0 then size else (size - n % size) % size

section Number

variable {size n : Nat}

/-- Before the end of a block. -/
theorem succ_inside (h : n % size + 1 < size) :
    (n + 1) / size = n / size ∧ (n + 1) % size = n % size + 1 := by
  refine (Nat.div_mod_unique (by omega)).mpr ⟨?_, h⟩
  have := Nat.mod_add_div n size
  omega

/-- At the end of a block. -/
theorem succ_end (h : n % size + 1 = size) :
    (n + 1) / size = n / size + 1 ∧ (n + 1) % size = 0 := by
  refine (Nat.div_mod_unique (by omega)).mpr ⟨?_, by omega⟩
  have := Nat.mod_add_div n size
  rw [Nat.mul_succ]
  omega

theorem left_eq_zero (hsize : 0 < size) : left size n = 0 ↔ 0 < n ∧ size ∣ n := by
  have hlt := Nat.mod_lt n hsize
  unfold left
  rw [Nat.dvd_iff_mod_eq_zero]
  split
  · omega
  · rcases Nat.eq_zero_or_pos (n % size) with hzero | hpos
    · rw [hzero, Nat.sub_zero, Nat.mod_self]
      omega
    · rw [Nat.mod_eq_of_lt (by omega)]
      omega

theorem left_succ (hsize : 0 < size) :
    left size (n + 1) = if left size n = 0 then size - 1 else left size n - 1 := by
  have hlt := Nat.mod_lt n hsize
  have hsucc : left size (n + 1) = size - 1 - n % size := by
    rw [left, if_neg (Nat.succ_ne_zero n)]
    by_cases hend : n % size + 1 = size
    · rw [(succ_end hend).2, Nat.sub_zero, Nat.mod_self]
      omega
    · rw [(succ_inside (by omega)).2, Nat.mod_eq_of_lt (by omega)]
      omega
  rw [hsucc, left]
  by_cases hn : n = 0
  · rw [if_pos hn, if_neg (by omega), hn, Nat.zero_mod, Nat.sub_zero]
  · rw [if_neg hn]
    by_cases hzero : n % size = 0
    · rw [hzero, Nat.sub_zero, Nat.sub_zero, Nat.mod_self, if_pos rfl]
    · rw [Nat.mod_eq_of_lt (show size - n % size < size by omega), if_neg (by omega)]
      omega

/-- The turns of a block get the same. -/
theorem chosen_congr (hsize : 0 < size) (first : α) (news : List α) {i j : Nat}
    (h : i / size = j / size) : chosen size first news i = chosen size first news j := by
  have hi : i < size ↔ i / size = 0 := (Nat.div_eq_zero_iff_lt hsize).symm
  have hj : j < size ↔ j / size = 0 := (Nat.div_eq_zero_iff_lt hsize).symm
  unfold chosen
  rw [h]
  exact if_congr (by rw [hi, hj, h]) rfl rfl

theorem chosen_append (first : α) {news : List α} (new : α) {i : Nat} (h : i < news.length) :
    chosen size first (news ++ [new]) i = chosen size first news i := by
  have hle := Nat.div_mul_le_self i size
  unfold chosen
  rw [List.getElem?_append_left (by omega)]

end Number

/-- What holds after turns that got `outs`, when the values to take were `news`. -/
structure Turns (size : Nat) (first : α) (news outs : List α) (s : Nat × α) : Prop where
  length : outs.length = news.length
  count : s.1 = left size news.length
  outs : ∀ i < news.length, outs[i]? = chosen size first news i
  value : some s.2 = if news.length = 0 then some first
    else chosen size first news (news.length - 1)

theorem Turns.turn {size : Nat} (hsize : 0 < size) {first : α} {news outs : List α}
    {s : Nat × α} (h : Turns size first news outs s) (new : α) :
    Turns size first (news ++ [new]) (outs ++ [(turn size s new).2]) (turn size s new).1 := by
  have hout : some (Blocks.turn size s new).2 =
      chosen size first (news ++ [new]) news.length := by
    unfold Blocks.turn
    by_cases hcount : s.1 = 0
    · -- a new block, whose value is the one taken now
      obtain ⟨hpos, hdvd⟩ := (left_eq_zero hsize).mp (h.count.symm.trans hcount)
      rw [if_neg (fun hne => hne hcount), chosen,
        if_neg (Nat.not_lt.mpr (Nat.le_of_dvd hpos hdvd)), Nat.div_mul_cancel hdvd,
        List.getElem?_concat_length]
    · rw [if_pos hcount, h.value]
      by_cases hn : news.length = 0
      · rw [if_pos hn, hn, chosen, if_pos hsize]
      · have hne : left size news.length ≠ 0 := fun h0 => hcount (h.count.trans h0)
        rw [if_neg hn, ← chosen_append first new (by omega)]
        refine chosen_congr hsize first _ ?_
        -- the last turn was in the same block
        have hinside : (news.length - 1) % size + 1 < size := by
          have hlt := Nat.mod_lt (news.length - 1) hsize
          by_contra hend
          have hmod := (succ_end (n := news.length - 1) (by omega : _ = size)).2
          rw [Nat.sub_add_cancel (by omega)] at hmod
          exact hne ((left_eq_zero hsize).mpr ⟨by omega, Nat.dvd_of_mod_eq_zero hmod⟩)
        have hdiv := (succ_inside hinside).1
        rw [Nat.sub_add_cancel (by omega)] at hdiv
        exact hdiv.symm
  have hsame : (Blocks.turn size s new).1.2 = (Blocks.turn size s new).2 := by
    unfold Blocks.turn
    split <;> rfl
  refine ⟨?_, ?_, ?_, ?_⟩
  · rw [List.length_append, List.length_append, h.length]
    rfl
  · rw [List.length_append, List.length_singleton, left_succ hsize, ← h.count]
    unfold Blocks.turn
    by_cases hcount : s.1 = 0
    · rw [if_neg (fun hne => hne hcount), if_pos hcount]
    · rw [if_pos hcount, if_neg hcount]
  · intro i hi
    rw [List.length_append, List.length_singleton] at hi
    rcases Nat.lt_succ_iff_lt_or_eq.mp hi with hlt | rfl
    · rw [List.getElem?_append_left (by rw [h.length]; exact hlt), h.outs i hlt,
        chosen_append first new hlt]
    · rw [← hout, ← h.length, List.getElem?_concat_length]
  · rw [List.length_append, List.length_singleton, if_neg (Nat.succ_ne_zero _),
      Nat.add_sub_cancel, hsame]
    exact hout

/-- A run of turns that begins with a whole block. -/
theorem run_turn {size : Nat} (hsize : 0 < size) (first : α) (news : List α) :
    Turns size first news (run (turn size) (size, first) news).2
      (run (turn size) (size, first) news).1 := by
  refine run_history (turn size) (fun _ => True) (Turns size first)
    (fun _ _ _ new h _ => h.turn hsize new) ⟨rfl, rfl, fun i hi => ?_, rfl⟩ news
    fun _ _ => trivial
  exact absurd hi (Nat.not_lt_zero i)

end Blocks

end Lib
