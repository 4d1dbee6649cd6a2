import KgCpp.Lib.Action
import KgCpp.Net.EchoServer

/-!
# The pointer to the session (`net/echo_server.hpp`)

`basic_session` is null when `coroutine_read` starts, and `forward_connected`
makes it point to a session, unless `std::bad_alloc` is thrown: then it is still
null, and the connection is refused. `forward_closed` is called for refused
connections too, and dereferences the pointer when the user has set `closed`.

`pointer_iff`: that is the only way to dereference it while it is null.
-/

namespace KgCpp.Net

open Lib Bytes

universe u

variable {σ : Type u}

/-- How the forwarding callbacks are left: by an exception, or by the undefined
behaviour of dereferencing a null `basic_session`. -/
inductive Exit : Type u where
  | thrown (e : Thrown)
  | nullSession
deriving DecidableEq, Repr

/-- An action on `basic_session`, which is null or points to a session. -/
abbrev OnSession (σ : Type u) := Action Exit.{u} (Option (BasicSession σ))

/-- The user callbacks `connected` and `closed`, when they are set. -/
structure Hooks (σ : Type u) : Type u where
  connected : Option (σ → Except Thrown Bool × σ)
  closed : Option (σ → σ)

/-- `*basic_session`. -/
def deref : OnSession σ (BasicSession σ) := fun p =>
  match p with
  | none => .error .nullSession p
  | some b => .ok b p

/-- `basic_session` points to `b`. -/
def point (b : BasicSession σ) : OnSession σ PUnit := modify fun _ => some b

/-- How a connection starts: `session_t()`, what a new `basic_session_t` holds,
and whether its allocation throws. -/
structure Opening (σ : Type u) : Type u where
  zero : σ
  blank : σ
  fresh : Nat → Nat → Byte
  fails : Bool

/-- A chunk that is read; whether what `forward_readed` throws, if it does, is a
`boost::system::system_error`. -/
structure Chunk where
  bytes : List Byte
  faults : ForwardFaults
  systemError : Bool

namespace Hooks

variable (hooks : Hooks σ) (s : EchoServer σ)

/-- `forward_connected`. -/
def forwardConnected (opening : Opening σ) : OnSession σ (ULift Bool) :=
  -- the pointer stays null
  if opening.fails then pure ⟨false⟩
  else do
    point (.create opening.blank opening.fresh)
    match hooks.connected with
    | none => do
      let b ← deref
      point { b with session := opening.zero }
      pure ⟨true⟩
    | some connected =>
      match connected opening.zero with
      | (.error e, _) => throw (.thrown e)
      -- what `connected` left is lost, but there is a session
      | (.ok false, _) => pure ⟨false⟩
      | (.ok true, session) => do
        let b ← deref
        point { b with session := session }
        pure ⟨true⟩

/-- `forward_readed`. -/
def forwardReaded (chunk : Chunk) : OnSession σ (ULift Bool) :=
  match s.readed with
  | none => pure ⟨true⟩
  | some _ => do
    let b ← deref
    -- the session is what it is now also when the callback throws
    point (s.forwardReaded b chunk.bytes chunk.faults).basic
    match (s.forwardReaded b chunk.bytes chunk.faults).answer with
    | .ok ok => pure ⟨ok⟩
    | .error e => throw (.thrown e)

/-- `forward_closed`. -/
def forwardClosed : OnSession σ PUnit := do
  match hooks.closed with
  | none => pure ⟨⟩
  | some closed => do
    let b ← deref
    point { b with session := closed b.session }
  modify fun _ => none

/-- `catch(const boost::system::system_error&)`, which ends the loop. -/
def catchSystemError (chunk : Chunk) (x : OnSession σ (ULift Bool)) :
    OnSession σ (ULift Bool) := fun p =>
  match x p with
  | .error (.thrown e) p' => if chunk.systemError then .ok ⟨false⟩ p' else .error (.thrown e) p'
  | r => r

/-- The loop of `coroutine_read` over the chunks it reads. Behind the last one a
read fails. -/
def readLoop : List Chunk → OnSession σ PUnit
  | [] => pure ⟨⟩
  | chunk :: chunks => do
    let ok ← catchSystemError chunk (forwardReaded s chunk)
    if ok.down then readLoop chunks else pure ⟨⟩

/-- `coroutine_read`, with the callbacks of the server forwarded. -/
def coroutineRead (opening : Opening σ) (chunks : List Chunk) : OnSession σ PUnit := do
  -- outside the `try` block
  let ok ← hooks.forwardConnected opening
  if ok.down then readLoop s chunks else pure ⟨⟩
  hooks.forwardClosed

/-- A null `basic_session` is never dereferenced. -/
def NeverNull (opening : Opening σ) (chunks : List Chunk) : Prop :=
  ∀ p, hooks.coroutineRead s opening chunks none ≠ .error .nullSession p

/-- The pointer is not null afterwards, or was not dereferenced while it was. -/
abbrev Points {α : Type u} (x : OnSession σ α) (p : Option (BasicSession σ)) : Prop :=
  Ends x p (fun _ p' => p' ≠ none) fun e p' => e ≠ .nullSession ∧ p' ≠ none

section Pointing

variable {hooks : Hooks σ} {s : EchoServer σ} {p : Option (BasicSession σ)}

theorem ends_deref (hp : p ≠ none) {E : Exit.{u} → Option (BasicSession σ) → Prop} :
    Ends (deref : OnSession σ (BasicSession σ)) p (fun _ p' => p' ≠ none) E := by
  cases p with
  | none => exact absurd rfl hp
  | some b => exact ends_of_ok rfl hp

theorem points_point (b : BasicSession σ) : Points (point b) p :=
  ends_modify fun h => by cases h

/-- A session that is allocated is pointed to, whatever `connected` does. -/
theorem points_forwardConnected {opening : Opening σ} (h : opening.fails = false) :
    Points (hooks.forwardConnected opening) p := by
  unfold forwardConnected
  rw [h]
  refine ends_bind (points_point _) fun _ p₁ h₁ => ?_
  cases hooks.connected with
  | none =>
    exact ends_bind (ends_deref h₁) fun b p₂ h₂ => ends_bind (points_point _) fun _ _ h₃ => h₃
  | some connected =>
    dsimp only
    rcases connected opening.zero with ⟨answer, session⟩
    rcases answer with e | ok
    · exact ends_throw ⟨(fun h => by cases h), h₁⟩
    · cases ok with
      | false => exact h₁
      | true =>
        exact ends_bind (ends_deref h₁) fun b p₂ h₂ =>
          ends_bind (points_point _) fun _ _ h₃ => h₃

theorem points_forwardReaded (hp : p ≠ none) (chunk : Chunk) :
    Points (forwardReaded s chunk) p := by
  unfold forwardReaded
  cases s.readed with
  | none => exact hp
  | some readed =>
    refine ends_bind (ends_deref hp) fun b p₁ h₁ => ?_
    refine ends_bind (points_point _) fun _ p₂ h₂ => ?_
    cases (s.forwardReaded b chunk.bytes chunk.faults).answer with
    | ok ok => exact h₂
    | error e => exact ends_throw ⟨(fun h => by cases h), h₂⟩

theorem points_catchSystemError {x : OnSession σ (ULift Bool)} (h : Points x p)
    (chunk : Chunk) : Points (catchSystemError chunk x) p := by
  unfold Points Ends at h ⊢
  unfold catchSystemError
  cases hx : x p with
  | ok ok p' =>
    rw [hx] at h
    exact h
  | error e p' =>
    rw [hx] at h
    cases e with
    | nullSession => exact absurd rfl h.1
    | thrown e =>
      cases chunk.systemError with
      | true => exact h.2
      | false => exact h

theorem points_readLoop (hp : p ≠ none) (chunks : List Chunk) : Points (readLoop s chunks) p := by
  induction chunks generalizing p with
  | nil => exact hp
  | cons chunk chunks ih =>
    refine ends_bind (points_catchSystemError (points_forwardReaded hp chunk) chunk)
      fun ok p' hp' => ?_
    exact ends_ite (fun _ => ih hp') fun _ => hp'

/-- `forward_closed` needs the session when `closed` is set. -/
theorem forwardClosed_iff (hooks : Hooks σ) (p : Option (BasicSession σ)) :
    (∀ p', hooks.forwardClosed p ≠ .error .nullSession p') ↔
      (hooks.closed.isSome = true → p ≠ none) := by
  unfold forwardClosed
  cases hooks.closed with
  | none => exact iff_of_true (fun p' h => by cases h) fun h => by cases h
  | some closed =>
    cases p with
    | none => exact iff_of_false (fun h => h none rfl) fun h => h rfl rfl
    | some b => exact iff_of_true (fun p' h => by cases h) fun _ h => by cases h

theorem ends_forwardClosed {hooks : Hooks σ} (hp : p ≠ none) :
    Ends hooks.forwardClosed p (fun _ _ => True) fun e _ => e ≠ .nullSession := by
  have hclosed := (forwardClosed_iff hooks p).mpr fun _ => hp
  unfold Ends
  cases hx : hooks.forwardClosed p with
  | ok a p' => trivial
  | error e p' =>
    rintro rfl
    exact hclosed p' hx

end Pointing

/-- **When `basic_session` is not null**: whatever the callbacks do, and whatever
is read, a null `basic_session` is never dereferenced if and only if its
allocation does not fail or `closed` is not set. -/
theorem pointer_iff (hooks : Hooks σ) (s : EchoServer σ) (opening : Opening σ)
    (chunks : List Chunk) :
    hooks.NeverNull s opening chunks ↔ (opening.fails = true → hooks.closed = none) := by
  unfold NeverNull
  cases hfails : opening.fails with
  | true =>
    -- the refused connection is torn down with the pointer still null
    have hrun : hooks.coroutineRead s opening chunks none = hooks.forwardClosed none := by
      unfold coroutineRead forwardConnected
      rw [hfails]
      rfl
    rw [hrun, forwardClosed_iff]
    cases hooks.closed <;> simp
  | false =>
    refine iff_of_true (fun p' => ?_) fun h => by cases h
    have hends : Ends (hooks.coroutineRead s opening chunks) none (fun _ _ => True)
        fun e _ => e ≠ .nullSession := by
      refine ends_bind ((points_forwardConnected hfails).mono (fun _ _ h => h)
        fun _ _ h => h.1) fun ok p₁ h₁ => ?_
      refine ends_ite (fun _ => ?_) fun _ => ends_forwardClosed h₁
      exact ends_bind ((points_readLoop h₁ chunks).mono (fun _ _ h => h) fun _ _ h => h.1)
        fun _ p₂ h₂ => ends_forwardClosed h₂
    unfold Ends at hends
    intro hrun
    rw [hrun] at hends
    exact hends rfl

/-- The allocation fails, and `closed` is set. -/
theorem null_session : ¬ ∀ (hooks : Hooks Nat) (s : EchoServer Nat) (opening : Opening Nat)
    (chunks : List Chunk), hooks.NeverNull s opening chunks :=
  fun hall => hall ⟨none, some id⟩ (.create 4) ⟨0, 0, fun _ _ => 0, true⟩ [] none rfl

end Hooks

end KgCpp.Net
