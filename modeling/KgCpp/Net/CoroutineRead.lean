import KgCpp.Lib.Run
import KgCpp.Types

/-!
# `coroutine_read` and its inactivity timer (`net/basic_server.hpp`)

The connections of one service. Its thread runs one handler at a time, so a
`coroutine_read` goes from one suspension point to the next without anything in
between; while it is suspended anything else may run: other coroutines, timer
handlers that are in the queue, and `clear` on behalf of `stop`.

A timer holds the waits that are pending. Its deadline makes them handlers in
the queue of the service, `cancel` and `expires_from_now` make them handlers
with an error; a handler that is in the queue stays as it is until it runs, and
the queue may run in any order.
-/

namespace KgCpp.Net.CoroutineRead

/-- What the server gives each connection: which of its callbacks are set, and
`_timeout`. -/
structure Settings where
  connected : Bool
  readed : Bool
  closed : Bool
  timeout : Nat
deriving DecidableEq, Repr

/-- Where a coroutine is suspended: inside a callback or in `async_read_some`. -/
inductive Point where
  | unborn
  | connected
  | reading
  | readed
  | closed
  | ended
deriving DecidableEq, Repr

/-- The coroutine has started, and has not torn its connection down. -/
def Point.isLive : Point → Bool
  | .connected => true
  | .reading => true
  | .readed => true
  | _ => false

/-- What a coroutine does with its connection: a callback is called, or returns or
throws; `async_read_some` gives it bytes or fails; it closes the socket, and takes
it out of `_clients`. -/
inductive Event where
  | connected
  | received (bytes : List Byte)
  | failed
  | readed (bytes : List Byte)
  | returned (ok : Bool)
  | threw
  | shut
  | erased
  | closed
deriving DecidableEq, Repr

/-- An `async_wait` of the timer. `armedAt` is the number of reads that had
completed with bytes on the connection by then. -/
structure Wait where
  armedAt : Nat
deriving DecidableEq, Repr

/-- A `handler_timer` in the queue, with its error code. -/
structure Handler where
  wait : Wait
  error : Bool
deriving DecidableEq, Repr

/-- How an `async_read_some` ends. -/
inductive Completion where
  | read (bytes : List Byte)
  | error
deriving DecidableEq, Repr

/-- A connection: where its coroutine is, whether its socket is open, the number
of reads that have completed with bytes (the coroutine may not have them yet), the
waits of its timer and their handlers in the queue, the completion of its read when
that is in the queue, and what the coroutine has done. -/
structure Connection where
  point : Point
  isOpen : Bool
  received : Nat
  pending : List Wait
  queued : List Handler
  completion : Option Completion
  seen : List Event
deriving DecidableEq, Repr

namespace Connection

/-- No coroutine yet. -/
def unborn : Connection := ⟨.unborn, false, 0, [], [], none, []⟩

/-- An accepted socket. -/
def accepted : Connection := ⟨.unborn, true, 0, [], [], none, []⟩

/-- Note what happens. -/
def saw (c : Connection) (events : List Event) : Connection :=
  { c with seen := c.seen ++ events }

/-- `shutdown` and `close` of the socket. -/
def close (c : Connection) : Connection := { c with isOpen := false }

/-! ## The timer -/

/-- The pending waits become handlers in the queue. -/
def complete (c : Connection) (error : Bool) : Connection :=
  { c with pending := [], queued := c.queued ++ c.pending.map fun w => ⟨w, error⟩ }

/-- `timer.cancel`. -/
def cancel (c : Connection) : Connection := c.complete true

/-- The deadline of the timer passes. -/
def expire (c : Connection) : Connection := c.complete false

/-- `timer.expires_from_now` and `timer.async_wait`. -/
def arm (c : Connection) : Connection :=
  { c.cancel with pending := [⟨c.received⟩] }

/-- `if(timeout) timer.cancel(ec);` -/
def disarm (cfg : Settings) (c : Connection) : Connection :=
  if cfg.timeout = 0 then c else c.cancel

/-- The `i`-th handler of the queue runs: `handler_timer`. -/
def handlerTimer (c : Connection) (i : Nat) : Connection :=
  match c.queued[i]? with
  | none => c
  | some h =>
    if h.error then { c with queued := c.queued.eraseIdx i }
    else { c.close with queued := c.queued.eraseIdx i }

/-! ## The coroutine -/

/-- The top of the loop: arm the timer and wait in `async_read_some`. -/
def awaitRead (cfg : Settings) (c : Connection) : Connection :=
  { (if cfg.timeout = 0 then c else c.arm) with point := .reading, completion := none }

/-- The part from the start to the first suspension. -/
def begin (cfg : Settings) (c : Connection) : Connection :=
  if cfg.connected then { c.saw [.connected] with point := .connected } else c.awaitRead cfg

/-- A read completes with bytes: its handler is in the queue. -/
def arrive (c : Connection) (bytes : List Byte) : Connection :=
  { c with received := c.received + 1, completion := some (.read bytes) }

/-- The part after a read with these bytes. -/
def handOn (cfg : Settings) (c : Connection) (bytes : List Byte) : Connection :=
  let c := ({ c with completion := none }.saw [.received bytes]).disarm cfg
  if cfg.readed then { c.saw [.readed bytes] with point := .readed } else c.awaitRead cfg

/-- The teardown, which ends inside `_closed` when that is set. -/
def teardown (cfg : Settings) (c : Connection) : Connection :=
  let c := (c.close.saw [.shut]).saw [.erased]
  if cfg.closed then { c.saw [.closed] with point := .closed } else { c with point := .ended }

/-- What a handler does to the connection: it leaves the queue, and closes the
socket when it has no error. -/
theorem handlerTimer_eq {c : Connection} {i : Nat} {h : Handler} (hi : c.queued[i]? = some h) :
    c.handlerTimer i =
      { c with queued := c.queued.eraseIdx i, isOpen := c.isOpen && h.error } := by
  rw [handlerTimer, hi]
  cases herror : h.error <;> simp [herror, close]

@[simp] theorem isOpen_teardown {cfg : Settings} {c : Connection} :
    (c.teardown cfg).isOpen = false := by
  unfold teardown
  split <;> rfl

end Connection

/-- A service: its connections, numbered as their coroutines start, its
`_clients` and its `clients`. -/
structure Service where
  conns : Nat → Connection
  started : Nat
  clients : Finset Nat
  count : Int

/-- The steps of a service.

- `start`: the coroutine of the next accepted socket starts.
- `connectedReturned`, `readedReturned`, `readedThrew`, `closedReturned`: a
  callback the coroutine is suspended in comes back, and the coroutine goes on.
- `arrive`, `fail`: the read completes, and its handler is in the queue.
- `resume`: the handler of the read runs, and the coroutine goes on.
- `expire`: the deadline of the timer passes.
- `timer`: a `handler_timer` in the queue runs.
- `clear`: `stop` runs `clear()`. -/
inductive Label where
  | start
  | connectedReturned (k : Nat) (ok : Bool)
  | arrive (k : Nat) (bytes : List Byte)
  | fail (k : Nat)
  | resume (k : Nat)
  | readedReturned (k : Nat) (ok : Bool)
  | readedThrew (k : Nat)
  | closedReturned (k : Nat)
  | expire (k : Nat)
  | timer (k : Nat) (i : Nat)
  | clear
deriving DecidableEq, Repr

namespace Service

/-- A service that has just been made. -/
def initial : Service := ⟨fun _ => .unborn, 0, ∅, 0⟩

/-- The connections whose coroutines have started and not torn down. -/
def live (s : Service) : Finset Nat :=
  (Finset.range s.started).filter fun k => (s.conns k).point.isLive = true

/-- Change a connection. -/
def set (s : Service) (k : Nat) (c : Connection) : Service :=
  { s with conns := Function.update s.conns k c }

@[simp] theorem conns_set_self (s : Service) (k : Nat) (c : Connection) :
    (s.set k c).conns k = c := Function.update_self ..

theorem conns_set_of_ne {s : Service} {j k : Nat} {c : Connection} (h : j ≠ k) :
    (s.set k c).conns j = s.conns j := Function.update_of_ne h ..

/-- What holds of the changed connection and of the others holds of all. -/
theorem forall_set {P : Connection → Prop} {s : Service} {k : Nat} {c : Connection} (hc : P c)
    (h : ∀ j, P (s.conns j)) (j : Nat) : P ((s.set k c).conns j) := by
  by_cases hj : j = k
  · subst hj
    rwa [conns_set_self]
  · rw [conns_set_of_ne hj]
    exact h j

/-- `insert`, `++clients`, and the coroutine up to its first suspension. -/
def start (cfg : Settings) (s : Service) : Service :=
  { s.set s.started (Connection.accepted.begin cfg) with
    started := s.started + 1
    clients := insert s.started s.clients
    count := s.count + 1 }

/-- The end of a coroutine from `shutdown` on, `erase` and `--clients` included. -/
def teardown (cfg : Settings) (s : Service) (k : Nat) (c : Connection) : Service :=
  { s.set k (c.teardown cfg) with
    clients := s.clients.erase k
    count := s.count - 1 }

/-- `clear`. -/
def clear (s : Service) : Service :=
  { s with
    conns := fun k => if k ∈ s.clients then (s.conns k).close else s.conns k
    clients := ∅ }

/-- When a step can be taken. -/
def Enabled (s : Service) : Label → Prop
  | .start => True
  | .connectedReturned k _ => (s.conns k).point = .connected
  | .arrive k _ =>
    (s.conns k).point = .reading ∧ (s.conns k).completion = none ∧ (s.conns k).isOpen = true
  | .fail k => (s.conns k).point = .reading ∧ (s.conns k).completion = none
  | .resume k => (s.conns k).point = .reading ∧ (s.conns k).completion.isSome = true
  | .readedReturned k _ => (s.conns k).point = .readed
  | .readedThrew k => (s.conns k).point = .readed
  | .closedReturned k => (s.conns k).point = .closed
  | .expire k => (s.conns k).pending ≠ []
  | .timer k i => i < (s.conns k).queued.length
  | .clear => True

instance (s : Service) : ∀ l : Label, Decidable (s.Enabled l)
  | .start => inferInstanceAs (Decidable True)
  | .connectedReturned _ _ => inferInstanceAs (Decidable (_ = _))
  | .arrive _ _ => inferInstanceAs (Decidable (_ ∧ _))
  | .fail _ => inferInstanceAs (Decidable (_ ∧ _))
  | .resume _ => inferInstanceAs (Decidable (_ ∧ _))
  | .readedReturned _ _ => inferInstanceAs (Decidable (_ = _))
  | .readedThrew _ => inferInstanceAs (Decidable (_ = _))
  | .closedReturned _ => inferInstanceAs (Decidable (_ = _))
  | .expire _ => inferInstanceAs (Decidable (_ ≠ _))
  | .timer _ _ => inferInstanceAs (Decidable (_ < _))
  | .clear => inferInstanceAs (Decidable True)

/-- What a step does. -/
def effect (cfg : Settings) (s : Service) : Label → Service
  | .start => s.start cfg
  | .connectedReturned k ok =>
    let c := (s.conns k).saw [.returned ok]
    -- the timer is made only when the connection is accepted
    if ok then s.set k (c.awaitRead cfg) else s.teardown cfg k c
  | .arrive k bytes => s.set k ((s.conns k).arrive bytes)
  | .fail k => s.set k { s.conns k with completion := some .error }
  | .resume k =>
    match (s.conns k).completion with
    | none => s
    | some (.read bytes) => s.set k ((s.conns k).handOn cfg bytes)
    | some .error => s.teardown cfg k (((s.conns k).saw [.failed]).disarm cfg)
  | .readedReturned k ok =>
    let c := (s.conns k).saw [.returned ok]
    if ok then s.set k (c.awaitRead cfg) else s.teardown cfg k (c.disarm cfg)
  | .readedThrew k => s.teardown cfg k (((s.conns k).saw [.threw]).disarm cfg)
  | .closedReturned k => s.set k { s.conns k with point := .ended }
  | .expire k => s.set k (s.conns k).expire
  | .timer k i => s.set k ((s.conns k).handlerTimer i)
  | .clear => s.clear

/-- One step. -/
def step (cfg : Settings) (s : Service) (l : Label) : Option Service :=
  if s.Enabled l then some (s.effect cfg l) else none

theorem step_eq_some {cfg : Settings} {s t : Service} {l : Label} :
    s.step cfg l = some t ↔ s.Enabled l ∧ t = s.effect cfg l := by
  rw [step, Option.ite_none_right_eq_some, Option.some_inj]
  exact and_congr_right fun _ => eq_comm

end Service

end KgCpp.Net.CoroutineRead
