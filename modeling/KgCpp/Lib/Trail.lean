import Mathlib.Data.List.Basic
import Mathlib.Tactic

/-!
# A value that is handed from call to call

A program that works on a value of *any* type can only move the value around
and hand it to the functions it was given. Run at the type `Trail κ x`, whose
elements carry the calls they have been through since the value was `x`, it
records these calls, and by its type they are a `Chain`: each one got what the
one before had left.
-/

namespace Lib

universe u v

variable {κ : Type v} {σ : Type u}

/-- A call: which one it is, the value it got, and the value it left. -/
structure Visit (κ : Type v) (σ : Type u) : Type (max u v) where
  call : κ
  given : σ
  left : σ
deriving DecidableEq, Repr

/-- The calls handed one value on, from `x` to `y`. -/
def Chain (x : σ) : List (Visit κ σ) → σ → Prop
  | [], y => y = x
  | v :: vs, y => v.given = x ∧ Chain v.left vs y

theorem chain_append {x z : σ} {vs ws : List (Visit κ σ)} :
    Chain x (vs ++ ws) z ↔ ∃ y, Chain x vs y ∧ Chain y ws z := by
  induction vs generalizing x with
  | nil => simp [Chain]
  | cons v vs ih =>
    rw [List.cons_append, Chain, ih]
    constructor
    · rintro ⟨hgiven, y, hvs, hws⟩
      exact ⟨y, ⟨hgiven, hvs⟩, hws⟩
    · rintro ⟨y, ⟨hgiven, hvs⟩, hws⟩
      exact ⟨hgiven, y, hvs, hws⟩

theorem chain_singleton {x : σ} {v : Visit κ σ} {y : σ} :
    Chain x [v] y ↔ v.given = x ∧ y = v.left := Iff.rfl

/-- A value with the calls it has been through since it was `x`. -/
structure Trail (κ : Type v) {σ : Type u} (x : σ) : Type (max u v) where
  value : σ
  visits : List (Visit κ σ)
  chain : Chain x visits value

namespace Trail

variable {x : σ}

/-- No call yet. -/
def start (x : σ) : Trail κ x := ⟨x, [], rfl⟩

/-- One more call, that leaves `y`. -/
def visit (t : Trail κ x) (call : κ) (y : σ) : Trail κ x :=
  ⟨y, t.visits ++ [⟨call, t.value, y⟩],
    chain_append.mpr ⟨t.value, t.chain, chain_singleton.mpr ⟨rfl, rfl⟩⟩⟩

end Trail

end Lib
