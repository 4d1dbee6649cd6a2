import Mathlib.Data.List.Basic
import Mathlib.Tactic

/-!
# Actions that throw

A C++ function that changes the heap and may throw is an `Action ε σ α`: from a
state it comes back with a value or an exception, and in either case with a
state. `Ends x s Q E` says how `x` ends from `s`: with a value and a state in
`Q`, or with an exception and a state in `E`. The rules follow the shape of the
action (`ends_bind`, `ends_ite`, ...), so a proof about an action is a proof
about its steps.
-/

namespace Lib

universe u

/-- An action on states `σ` that returns an `α` or throws an `ε`. -/
abbrev Action (ε σ α : Type u) := EStateM ε σ α

variable {ε σ α β : Type u}

theorem bind_of_ok {x : Action ε σ α} {s s' : σ} {a : α} (h : x s = .ok a s')
    (f : α → Action ε σ β) : (x >>= f) s = f a s' := by
  show EStateM.bind x f s = _
  rw [EStateM.bind, h]

theorem bind_of_error {x : Action ε σ α} {s s' : σ} {e : ε} (h : x s = .error e s')
    (f : α → Action ε σ β) : (x >>= f) s = .error e s' := by
  show EStateM.bind x f s = _
  rw [EStateM.bind, h]

/-- The value of an action that ends. -/
theorem run'_of_ok {x : Action ε σ α} {s s' : σ} {a : α} (h : x s = .ok a s') :
    x.run' s = some a := by
  delta EStateM.run' EStateM.run
  rw [h]

/-- Two actions that begin alike and go on alike. -/
theorem bind_eq_bind {x y : Action ε σ α} {f g : α → Action ε σ β} {s : σ} (h : x s = y s)
    (hf : ∀ a s', f a s' = g a s') : (x >>= f) s = (y >>= g) s := by
  show EStateM.bind x f s = EStateM.bind y g s
  rw [EStateM.bind, EStateM.bind, h, show f = g from funext fun a => funext (hf a)]

/-- From `s`, the action ends in `Q`, or throws into `E`. -/
def Ends (x : Action ε σ α) (s : σ) (Q : α → σ → Prop) (E : ε → σ → Prop) : Prop :=
  match x s with
  | .ok a s' => Q a s'
  | .error e s' => E e s'

theorem ends_of_ok {x : Action ε σ α} {s s' : σ} {a : α} {Q : α → σ → Prop}
    {E : ε → σ → Prop} (h : x s = .ok a s') (hQ : Q a s') : Ends x s Q E := by
  rw [Ends, h]
  exact hQ

theorem ends_of_error {x : Action ε σ α} {s s' : σ} {e : ε} {Q : α → σ → Prop}
    {E : ε → σ → Prop} (h : x s = .error e s') (hE : E e s') : Ends x s Q E := by
  rw [Ends, h]
  exact hE

theorem ends_pure {a : α} {s : σ} {Q : α → σ → Prop} {E : ε → σ → Prop} (h : Q a s) :
    Ends (pure a) s Q E := h

theorem ends_throw {e : ε} {s : σ} {Q : α → σ → Prop} {E : ε → σ → Prop} (h : E e s) :
    Ends (throw e) s Q E := h

theorem ends_modify {f : σ → σ} {s : σ} {Q : PUnit → σ → Prop} {E : ε → σ → Prop}
    (h : Q ⟨⟩ (f s)) : Ends (modify f) s Q E := h

/-- One action after another. -/
theorem ends_bind {x : Action ε σ α} {f : α → Action ε σ β} {s : σ} {P : α → σ → Prop}
    {Q : β → σ → Prop} {E : ε → σ → Prop} (hx : Ends x s P E)
    (hf : ∀ a s', P a s' → Ends (f a) s' Q E) : Ends (x >>= f) s Q E := by
  rw [Ends] at hx
  cases h : x s with
  | ok a s' =>
    rw [h] at hx
    rw [Ends, bind_of_ok h]
    exact hf a s' hx
  | error e s' =>
    rw [h] at hx
    exact ends_of_error (bind_of_error h f) hx

/-- An action whose end is known comes first. -/
theorem ends_bind_of_ok {x : Action ε σ α} {f : α → Action ε σ β} {s s' : σ} {a : α}
    {Q : β → σ → Prop} {E : ε → σ → Prop} (h : x s = .ok a s') (hf : Ends (f a) s' Q E) :
    Ends (x >>= f) s Q E := by
  rw [Ends, bind_of_ok h]
  exact hf

/-- A branch. -/
theorem ends_ite {c : Prop} [Decidable c] {x y : Action ε σ α} {s : σ} {Q : α → σ → Prop}
    {E : ε → σ → Prop} (hx : c → Ends x s Q E) (hy : ¬ c → Ends y s Q E) :
    Ends (if c then x else y) s Q E := by
  by_cases h : c
  · rw [if_pos h]
    exact hx h
  · rw [if_neg h]
    exact hy h

/-- Weaker conclusions. -/
theorem Ends.mono {x : Action ε σ α} {s : σ} {Q Q' : α → σ → Prop} {E E' : ε → σ → Prop}
    (h : Ends x s Q E) (hQ : ∀ a s', Q a s' → Q' a s') (hE : ∀ e s', E e s' → E' e s') :
    Ends x s Q' E' := by
  unfold Ends at h ⊢
  cases hx : x s with
  | ok a s' =>
    rw [hx] at h
    exact hQ a s' h
  | error e s' =>
    rw [hx] at h
    exact hE e s' h

/-- However the action ends, it leaves a state in `P`. -/
abbrev Leaves (x : Action ε σ α) (s : σ) (P : σ → Prop) : Prop :=
  Ends x s (fun _ => P) fun _ => P

end Lib
