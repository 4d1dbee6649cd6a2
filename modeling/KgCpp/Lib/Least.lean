import Mathlib.Data.List.Basic
import Mathlib.Tactic

/-!
# Scanning for a least value

A loop that keeps the least value so far, and where it was found, and takes over
a value only when it is strictly less. `scanLeast_cases` and the bounds say what
it ends with: the value it started with, or one it came across that is below
that; and nothing it came across is less.
-/

namespace Lib

universe u v

variable {α : Type u} {ι : Type v} [LinearOrder α]

/-- Scan `is`, starting from the best value so far and its place. -/
def scanLeast (f : ι → α) : α × ι → List ι → α × ι
  | best, [] => best
  | best, i :: is => scanLeast f (if f i < best.1 then (f i, i) else best) is

variable {f : ι → α}

/-- The scan does not get worse. -/
theorem scanLeast_le_start (best : α × ι) (is : List ι) : (scanLeast f best is).1 ≤ best.1 := by
  induction is generalizing best with
  | nil => exact le_rfl
  | cons i is ih =>
    refine (ih _).trans ?_
    split
    · rename_i hlt
      exact hlt.le
    · exact le_rfl

/-- Nothing the scan came across is less. -/
theorem scanLeast_le (best : α × ι) {is : List ι} {i : ι} (hi : i ∈ is) :
    (scanLeast f best is).1 ≤ f i := by
  induction is generalizing best with
  | nil => cases hi
  | cons j is ih =>
    rcases List.mem_cons.mp hi with rfl | hi
    · refine (scanLeast_le_start _ is).trans ?_
      split
      · exact le_rfl
      · rename_i hle
        exact not_lt.mp hle
    · exact ih _ hi

/-- The scan ends with what it started with, or with a value that is less. -/
theorem scanLeast_cases (best : α × ι) (is : List ι) :
    scanLeast f best is = best ∨
      ∃ i ∈ is, scanLeast f best is = (f i, i) ∧ f i < best.1 := by
  induction is generalizing best with
  | nil => exact .inl rfl
  | cons i is ih =>
    rw [scanLeast]
    rcases ih (if f i < best.1 then (f i, i) else best) with h | ⟨j, hj, h, hlt⟩
    · rw [h]
      split
      · rename_i hlt
        exact .inr ⟨i, List.mem_cons_self .., rfl, hlt⟩
      · exact .inl rfl
    · refine .inr ⟨j, List.mem_cons_of_mem i hj, h, hlt.trans_le ?_⟩
      split
      · rename_i hi
        exact hi.le
      · exact le_rfl

/-- Nothing is less than what the scan starts with. -/
theorem scanLeast_eq_start {best : α × ι} {is : List ι} (h : ∀ i ∈ is, best.1 ≤ f i) :
    scanLeast f best is = best := by
  rcases scanLeast_cases (f := f) best is with hs | ⟨i, hi, -, hlt⟩
  · exact hs
  · exact absurd hlt (not_lt.mpr (h i hi))

/-- Of several least values the scan ends with the first. -/
theorem scanLeast_first {best : α × ι} {pre post : List ι} {i : ι} (hlt : f i < best.1)
    (hpre : ∀ j ∈ pre, f i < f j) (hpost : ∀ j ∈ post, f i ≤ f j) :
    scanLeast f best (pre ++ i :: post) = (f i, i) := by
  induction pre generalizing best with
  | nil =>
    rw [List.nil_append, scanLeast, if_pos hlt]
    exact scanLeast_eq_start hpost
  | cons j pre ih =>
    rw [List.cons_append, scanLeast]
    refine ih ?_ fun k hk => hpre k (List.mem_cons_of_mem _ hk)
    split
    · exact hpre j (List.mem_cons_self ..)
    · exact hlt

theorem scanLeast_congr {f g : ι → α} {is : List ι} (h : ∀ i ∈ is, f i = g i) (best : α × ι) :
    scanLeast f best is = scanLeast g best is := by
  induction is generalizing best with
  | nil => rfl
  | cons i is ih =>
    rw [scanLeast, scanLeast, h i (List.mem_cons_self ..)]
    exact ih (fun j hj => h j (List.mem_cons_of_mem _ hj)) _

/-- A scan of numbers that others make smaller meanwhile, `k` turns after its start: the least
one so far, as often as there were turns, and those that were not looked at yet are together
at most what all of them were. -/
theorem scan_share {g : Nat → Nat} {total k least i n N : Nat} (hi : i < N) (hn : n ≤ g i)
    (h : k * least + ∑ j ∈ Finset.Ico i N, g j ≤ total) :
    (k + 1) * (if n < least then n else least) + ∑ j ∈ Finset.Ico (i + 1) N, g j ≤ total := by
  rw [Finset.sum_eq_sum_Ico_succ_bot hi] at h
  have hleast : (if n < least then n else least) ≤ least := by split <;> omega
  have hmin : (if n < least then n else least) ≤ n := by split <;> omega
  have hk := Nat.mul_le_mul_left k hleast
  rw [Nat.succ_mul]
  omega

end Lib
