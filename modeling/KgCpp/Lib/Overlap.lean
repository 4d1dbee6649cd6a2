import Mathlib.Logic.Function.Basic
import Mathlib.Tactic

/-!
# Copying place by place

A memory is a function from places to what they hold. A copying loop reads one
place and writes another, in turn; when the places it reads and the places it
writes overlap, it may read what it has written itself.

`copyEach_faithful_iff` says exactly when the places written hold, at the end,
what the places read held before the loop: whenever a place is written before it
is read, what it held must be what was written there.

A loop may compute what it writes from several places: `writeEach`. Each place holds
in the end what was computed when it was written (`writeEach_dst`).
-/

namespace Lib

universe u v

variable {P : Type u} {V : Type v} [DecidableEq P]

/-- `n` places copied, the first one first: from `src i` to `dst i`. -/
def copyEach (f : P → V) (src dst : Nat → P) : Nat → P → V
  | 0 => f
  | n + 1 => Function.update (copyEach f src dst n) (dst n) (copyEach f src dst n (src n))

variable {f : P → V} {src dst : Nat → P} {n : Nat}

theorem copyEach_succ : copyEach f src dst (n + 1) =
    Function.update (copyEach f src dst n) (dst n) (copyEach f src dst n (src n)) := rfl

/-- A place that is not written keeps what it holds. -/
theorem copyEach_outside {p : P} (h : ∀ i < n, dst i ≠ p) : copyEach f src dst n p = f p := by
  induction n with
  | zero => rfl
  | succ n ih =>
    rw [copyEach_succ, Function.update_of_ne (Ne.symm (h n (Nat.lt_succ_self n)))]
    exact ih fun i hi => h i (Nat.lt_succ_of_lt hi)

/-- A place that is written holds what was read when it was written. -/
theorem copyEach_dst (hdst : Function.Injective dst) {i : Nat} (hi : i < n) :
    copyEach f src dst n (dst i) = copyEach f src dst i (src i) := by
  induction n with
  | zero => exact absurd hi (Nat.not_lt_zero i)
  | succ n ih =>
    rw [copyEach_succ]
    rcases Nat.lt_succ_iff_lt_or_eq.mp hi with hlt | rfl
    · rw [Function.update_of_ne (fun h => Nat.ne_of_lt hlt (hdst h))]
      exact ih hlt
    · rw [Function.update_self]

/-- The places written hold what the places read held before. -/
def Faithful (f : P → V) (src dst : Nat → P) (n : Nat) : Prop :=
  ∀ i < n, copyEach f src dst n (dst i) = f (src i)

/-- A loop that reads no place it has written is faithful. -/
theorem faithful_of_apart (hdst : Function.Injective dst)
    (h : ∀ i < n, ∀ j < i, dst j ≠ src i) : Faithful f src dst n := by
  intro i hi
  rw [copyEach_dst hdst hi]
  exact copyEach_outside (h i hi)

/-- What a place holds when it is read after having been written. -/
theorem copyEach_reread (hdst : Function.Injective dst) {i j : Nat} (hi : i < n) (hj : j < i)
    (h : dst j = src i) : copyEach f src dst n (dst i) = copyEach f src dst n (dst j) := by
  rw [copyEach_dst hdst hi, ← h, copyEach_dst hdst hj, copyEach_dst hdst (hj.trans hi)]

/-- **Overlapping copies**: the loop is faithful exactly when every place that
is written before it is read held already what is written there. -/
theorem copyEach_faithful_iff (hdst : Function.Injective dst) :
    Faithful f src dst n ↔ ∀ i < n, ∀ j < i, dst j = src i → f (src j) = f (src i) := by
  constructor
  · intro h i hi j hj heq
    rw [← h j (hj.trans hi), ← h i hi, copyEach_reread hdst hi hj heq]
  · intro h i
    induction i using Nat.strong_induction_on with
    | h i ih =>
      intro hi
      by_cases hread : ∃ j < i, dst j = src i
      · obtain ⟨j, hj, heq⟩ := hread
        rw [copyEach_reread hdst hi hj heq, ih j hj (hj.trans hi)]
        exact h i hi j hj heq
      · rw [copyEach_dst hdst hi]
        exact copyEach_outside fun j hj heq => hread ⟨j, hj, heq⟩

/-! ## Loops that compute -/

/-- `n` places written, the first one first: at `dst i`, what `g i` makes of the
memory. -/
def writeEach (f : P → V) (dst : Nat → P) (g : Nat → (P → V) → V) : Nat → P → V
  | 0 => f
  | n + 1 => Function.update (writeEach f dst g n) (dst n) (g n (writeEach f dst g n))

section Write

variable {g : Nat → (P → V) → V}

theorem writeEach_succ : writeEach f dst g (n + 1) =
    Function.update (writeEach f dst g n) (dst n) (g n (writeEach f dst g n)) := rfl

/-- A place that is not written keeps what it holds. -/
theorem writeEach_outside {p : P} (h : ∀ i < n, dst i ≠ p) : writeEach f dst g n p = f p := by
  induction n with
  | zero => rfl
  | succ n ih =>
    rw [writeEach_succ, Function.update_of_ne (Ne.symm (h n (Nat.lt_succ_self n)))]
    exact ih fun i hi => h i (Nat.lt_succ_of_lt hi)

/-- A place that is written holds what was computed when it was written. -/
theorem writeEach_dst (hdst : Function.Injective dst) {i : Nat} (hi : i < n) :
    writeEach f dst g n (dst i) = g i (writeEach f dst g i) := by
  induction n with
  | zero => exact absurd hi (Nat.not_lt_zero i)
  | succ n ih =>
    rw [writeEach_succ]
    rcases Nat.lt_succ_iff_lt_or_eq.mp hi with hlt | rfl
    · rw [Function.update_of_ne (fun h => Nat.ne_of_lt hlt (hdst h))]
      exact ih hlt
    · rw [Function.update_self]

end Write

end Lib
