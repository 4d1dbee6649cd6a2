import Mathlib.Tactic
import KgCpp.Lib.Action

/-!
# Programs on a value stack

A library that hands values over on a stack is used by pushing values, and by
naming them through their index: from the bottom of the stack when it is not
negative, from its top when it is. A program on a `Frame` is an action on a world
and such a stack, and fails with `underflow` where an index names nothing.

`Tracks x st y R` connects it with a program without a stack: started on the
stack `st` in any world, `x` does to the world what `y` does, throws what `y`
throws, and where `y` returns, `x` returns with a result and a stack in `R`. The
rules follow the code of `x` from one call to the next, and with them what is on
the stack there; as `y` is stuck with none of this, an `x` that tracks it never
runs into `underflow` of its own.
-/

namespace Lib

universe u

/-- A world, and the value stack of the running function with its top first. -/
structure Frame (W V : Type u) : Type u where
  world : W
  stack : List V

namespace Stack

variable {ε W V α β γ : Type u}

/-- The value at an index. -/
def get? (st : List V) (i : Int) : Option V :=
  if 0 ≤ i then st.reverse[i.toNat]? else st[(-i - 1).toNat]?

/-- The stack without the `n` values on top. -/
def drop? : Nat → List V → Option (List V)
  | 0, st => some st
  | _ + 1, [] => none
  | n + 1, _ :: st => drop? n st

/-- The value at an index is read. -/
def peek (underflow : ε) (i : Int) : Action ε (Frame W V) V := fun s =>
  match get? s.stack i with
  | some v => .ok v s
  | none => .error underflow s

/-- What is at an index is looked at, if anything is. -/
def look (f : Option V → α) (i : Int) : Action ε (Frame W V) α := fun s =>
  .ok (f (get? s.stack i)) s

/-- A value is pushed. -/
def push (v : V) : Action ε (Frame W V) PUnit := fun s => .ok ⟨⟩ { s with stack := v :: s.stack }

/-- `n` values are popped. -/
def pop (underflow : ε) (n : Nat) : Action ε (Frame W V) PUnit := fun s =>
  match drop? n s.stack with
  | some st => .ok ⟨⟩ { s with stack := st }
  | none => .error underflow s

/-- The value on top is replaced. -/
def replace (underflow : ε) (v : V) : Action ε (Frame W V) PUnit := fun s =>
  match s.stack with
  | _ :: st => .ok ⟨⟩ { s with stack := v :: st }
  | [] => .error underflow s

/-- An action on the world leaves the stack alone. -/
def lift (y : Action ε W α) : Action ε (Frame W V) α := fun s =>
  match y s.world with
  | .ok a w => .ok a { s with world := w }
  | .error e w => .error e { s with world := w }

theorem lift_of_ok {y : Action ε W α} {w w' : W} {a : α} (h : y w = .ok a w') (st : List V) :
    (lift y : Action ε (Frame W V) α) ⟨w, st⟩ = .ok a ⟨w', st⟩ := by
  rw [lift]
  dsimp only
  rw [h]

/-- A function runs on a stack of its own. -/
def call (st : List V) (x : Action ε (Frame W V) α) : Action ε W α := fun w =>
  match x ⟨w, st⟩ with
  | .ok a s => .ok a s.world
  | .error e s => .error e s.world

/-! ## Programs that track one without a stack -/

/-- The results of a program with a stack, and of one without. -/
inductive Follows (R : α → β → List V → Prop) :
    EStateM.Result ε (Frame W V) α → EStateM.Result ε W β → Prop
  | returns {a : α} {b : β} {w : W} {st : List V} (h : R a b st) :
      Follows R (.ok a ⟨w, st⟩) (.ok b w)
  | throws (e : ε) (w : W) (st : List V) : Follows R (.error e ⟨w, st⟩) (.error e w)

/-- From the stack `st`, in any world, `x` does what `y` does. -/
def Tracks (x : Action ε (Frame W V) α) (st : List V) (y : Action ε W β)
    (R : α → β → List V → Prop) : Prop :=
  ∀ w, Follows R (x ⟨w, st⟩) (y w)

variable {st st' : List V} {R : α → β → List V → Prop}

theorem tracks_pure {a : α} {b : β} (h : R a b st) :
    Tracks (pure a : Action ε (Frame W V) α) st (pure b) R := fun _ => .returns h

theorem tracks_throw (e : ε) :
    Tracks (throw e : Action ε (Frame W V) α) st (throw e : Action ε W β) R :=
  fun w => .throws e w st

/-- One call after another, on both sides. -/
theorem tracks_bind {δ : Type u} {x : Action ε (Frame W V) γ} {f : γ → Action ε (Frame W V) α}
    {y : Action ε W δ} {g : δ → Action ε W β} {P : γ → δ → List V → Prop}
    (hx : Tracks x st y P)
    (hf : ∀ c d st', P c d st' → Tracks (f c) st' (g d) R) :
    Tracks (x >>= f) st (y >>= g) R := by
  intro w
  have hw := hx w
  generalize hr : x ⟨w, st⟩ = r at hw
  generalize hr' : y w = r' at hw
  cases hw with
  | returns h =>
    rw [bind_of_ok hr, bind_of_ok hr']
    exact hf _ _ _ h _
  | throws e w' st' =>
    rw [bind_of_error hr, bind_of_error hr']
    exact .throws e w' st'

/-- What holds of the results may be weakened. -/
theorem Tracks.mono {x : Action ε (Frame W V) α} {y : Action ε W β}
    {R' : α → β → List V → Prop} (h : Tracks x st y R) (hR : ∀ a b st', R a b st' → R' a b st') :
    Tracks x st y R' := by
  intro w
  have hw := h w
  generalize x ⟨w, st⟩ = r at hw ⊢
  generalize y w = r' at hw ⊢
  cases hw with
  | returns hr => exact .returns (hR _ _ _ hr)
  | throws e w' st' => exact .throws e w' st'

theorem tracks_lift (y : Action ε W α) :
    Tracks (lift y : Action ε (Frame W V) α) st y fun a b st' => a = b ∧ st' = st := by
  intro w
  rw [lift]
  dsimp only
  cases y w with
  | ok a w' => exact .returns ⟨rfl, rfl⟩
  | error e w' => exact .throws e w' st

/-- An action on the world, on both sides. -/
theorem tracks_lift_bind {y : Action ε W γ} {f : γ → Action ε (Frame W V) α}
    {g : γ → Action ε W β} (hf : ∀ c, Tracks (f c) st (g c) R) :
    Tracks (lift y >>= f) st (y >>= g) R :=
  tracks_bind (tracks_lift y) fun c d st' h => by
    obtain ⟨rfl, rfl⟩ := h
    exact hf c

/-- The call `x` only moves values on the stack, and returns `a`. -/
def Shifts (x : Action ε (Frame W V) γ) (st : List V) (a : γ) (st' : List V) : Prop :=
  ∀ w, x ⟨w, st⟩ = .ok a ⟨w, st'⟩

/-- A call that only moves values: the other side stays. -/
theorem tracks_shift {x : Action ε (Frame W V) γ} {f : γ → Action ε (Frame W V) α}
    {y : Action ε W β} {a : γ} (hx : Shifts x st a st') (hf : Tracks (f a) st' y R) :
    Tracks (x >>= f) st y R := by
  intro w
  rw [bind_of_ok (hx w)]
  exact hf w

theorem shifts_peek {underflow : ε} {i : Int} {v : V} (h : get? st i = some v) :
    Shifts (peek underflow i : Action ε (Frame W V) V) st v st := by
  intro w
  rw [peek]
  dsimp only
  rw [h]

theorem shifts_look (f : Option V → α) {i : Int} {v : Option V} (h : get? st i = v) :
    Shifts (look f i : Action ε (Frame W V) α) st (f v) st := fun _ => h ▸ rfl

theorem shifts_push (v : V) :
    Shifts (push v : Action ε (Frame W V) PUnit) st ⟨⟩ (v :: st) := fun _ => rfl

theorem shifts_pop {underflow : ε} {n : Nat} (h : drop? n st = some st') :
    Shifts (pop underflow n : Action ε (Frame W V) PUnit) st ⟨⟩ st' := by
  intro w
  rw [pop]
  dsimp only
  rw [h]

/-- Two calls that only move values. -/
theorem Shifts.bind {x : Action ε (Frame W V) γ} {f : γ → Action ε (Frame W V) α} {a : γ}
    {b : α} {st'' : List V} (hx : Shifts x st a st') (hf : Shifts (f a) st' b st'') :
    Shifts (x >>= f) st b st'' := by
  intro w
  rw [bind_of_ok (hx w)]
  exact hf w

/-- A function that tracks a program without a stack is that program. -/
theorem call_eq {x : Action ε (Frame W V) α} {y : Action ε W α}
    (h : Tracks x st y fun a b _ => a = b) : call st x = y := by
  funext w
  have hw := h w
  rw [call]
  generalize x ⟨w, st⟩ = r at hw
  generalize y w = r' at hw
  cases hw with
  | returns hab => rw [hab]
  | throws e w' st' => rfl

end Stack

end Lib
