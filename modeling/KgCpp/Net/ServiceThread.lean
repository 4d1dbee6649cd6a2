import KgCpp.Lib.Run

/-!
# `service_t` and its thread (`net/basic_server.hpp`)

A service is a queue of handlers that one thread serves, and other threads act
on it meanwhile: the accept handler spawns coroutines on its queue, and `stop`
runs `work.reset()`, `clear()` and `thread->join()`. Its steps come in any order
that `Enabled` admits, and a run is a list of them.

A coroutine is in the queue, with its socket accepted, before it starts; only
then does it `insert` the socket into `_clients`, the one place where `clear`
looks for sockets to close.
-/

namespace KgCpp.Net

/-- How far `stop` is: `_run` is down from `halted` on. -/
inductive Stage where
  | running
  | halted
  | workReset
  | cleared
  | joined
deriving DecidableEq, Repr

/-- `clear()` has run. -/
def Stage.isClear : Stage → Bool
  | .cleared => true
  | .joined => true
  | _ => false

/-- A `coroutine_read` that has started: it waits in `async_read_some`, or is on
its way to the teardown. -/
structure Coroutine where
  sock : Nat
  waiting : Bool
deriving DecidableEq, Repr

/-- A `service_t`. Sockets are numbered as they are accepted; `shut` are the
closed ones, `clients` is `_clients` and `count` the member `clients`.
`accepting` says that `post_accept_handler` is past its look at `_run`, and
`exited` that the thread has left `io_service::run`. -/
structure ServiceThread where
  stage : Stage
  accepting : Bool
  posted : List Nat
  coroutines : List Coroutine
  clients : List Nat
  count : Nat
  shut : List Nat
  exited : Bool
  next : Nat
deriving DecidableEq, Repr

/-- The steps of the threads.

- `accept`, `spawn`: `post_accept_handler` finds `_run` up, and later spawns the
  coroutine of a new socket.
- `start`: the coroutine at the head of the queue inserts its socket and calls
  `_connected`; when that is true it waits in `async_read_some`.
- `received`: a read completes, and `_readed` says whether to read again.
- `failed`: a read fails.
- `timeout`: `handler_timer` closes a socket.
- `teardown`: the rest of a coroutine.
- `halt`, `resetWork`, `clear`, `join`: `stop` of the server, as far as it is
  about this service.
- `exit`: `io_service::run` returns, with no work, no handler and no coroutine
  left. -/
inductive Label where
  | accept
  | spawn
  | start (sock : Nat) (connected : Bool)
  | received (sock : Nat) (again : Bool)
  | failed (sock : Nat)
  | timeout (sock : Nat)
  | teardown (sock : Nat)
  | halt
  | resetWork
  | clear
  | exit
  | join
deriving DecidableEq, Repr

namespace ServiceThread

/-- A service that has just been made. -/
def initial : ServiceThread where
  stage := .running
  accepting := false
  posted := []
  coroutines := []
  clients := []
  count := 0
  shut := []
  exited := false
  next := 0

/-- The sockets of the coroutines that have started. -/
def socks (s : ServiceThread) : List Nat := s.coroutines.map Coroutine.sock

/-- `insert`. -/
def insert (s : ServiceThread) (sock : Nat) : ServiceThread :=
  { s with clients := s.clients.insert sock }

/-- `erase`. -/
def erase (s : ServiceThread) (sock : Nat) : ServiceThread :=
  { s with clients := s.clients.filter (· != sock) }

/-- `shutdown` and `close` of a socket. -/
def close (s : ServiceThread) (sock : Nat) : ServiceThread :=
  { s with shut := sock :: s.shut }

/-- `clear`. -/
def clear (s : ServiceThread) : ServiceThread :=
  { s with shut := s.clients ++ s.shut, clients := [] }

/-- The coroutine of a socket waits from now on, or does not. -/
def setWaiting (s : ServiceThread) (sock : Nat) (waiting : Bool) : ServiceThread :=
  { s with coroutines := s.coroutines.map fun c =>
      if c.sock = sock then { c with waiting := waiting } else c }

/-- The first part of `coroutine_read`. -/
def start (s : ServiceThread) (sock : Nat) (connected : Bool) : ServiceThread :=
  { s.insert sock with
    posted := s.posted.tail
    coroutines := ⟨sock, connected⟩ :: s.coroutines
    count := s.count + 1 }

/-- The last part of `coroutine_read`. -/
def teardown (s : ServiceThread) (sock : Nat) : ServiceThread :=
  { (s.close sock).erase sock with
    coroutines := s.coroutines.filter fun c => c.sock != sock
    count := s.count - 1 }

/-- When a step can be taken. -/
def Enabled (s : ServiceThread) : Label → Prop
  | .accept => s.stage = .running ∧ s.accepting = false
  | .spawn => s.accepting = true
  | .start sock _ => s.posted.head? = some sock ∧ s.exited = false
  | .received sock _ => ⟨sock, true⟩ ∈ s.coroutines
  | .failed sock => ⟨sock, true⟩ ∈ s.coroutines
  | .timeout sock => sock ∈ s.socks
  | .teardown sock => ⟨sock, false⟩ ∈ s.coroutines
  | .halt => s.stage = .running
  | .resetWork => s.stage = .halted
  | .clear => s.stage = .workReset
  | .exit => (s.stage = .workReset ∨ s.stage = .cleared) ∧ s.posted = [] ∧ s.coroutines = []
  | .join => s.stage = .cleared ∧ s.exited = true

instance (s : ServiceThread) : ∀ l : Label, Decidable (s.Enabled l)
  | .accept => inferInstanceAs (Decidable (_ ∧ _))
  | .spawn => inferInstanceAs (Decidable (_ = _))
  | .start _ _ => inferInstanceAs (Decidable (_ ∧ _))
  | .received _ _ => inferInstanceAs (Decidable (_ ∈ s.coroutines))
  | .failed _ => inferInstanceAs (Decidable (_ ∈ s.coroutines))
  | .timeout _ => inferInstanceAs (Decidable (_ ∈ s.socks))
  | .teardown _ => inferInstanceAs (Decidable (_ ∈ s.coroutines))
  | .halt => inferInstanceAs (Decidable (_ = _))
  | .resetWork => inferInstanceAs (Decidable (_ = _))
  | .clear => inferInstanceAs (Decidable (_ = _))
  | .exit => inferInstanceAs (Decidable (_ ∧ _))
  | .join => inferInstanceAs (Decidable (_ ∧ _))

/-- What a step does. -/
def effect (s : ServiceThread) : Label → ServiceThread
  | .accept => { s with accepting := true }
  | .spawn =>
    -- the socket is open, and in no `_clients` yet
    { s with accepting := false, posted := s.posted ++ [s.next], next := s.next + 1 }
  | .start sock connected => s.start sock connected
  | .received sock again => s.setWaiting sock again
  | .failed sock => s.setWaiting sock false
  | .timeout sock => s.close sock
  | .teardown sock => s.teardown sock
  | .halt => { s with stage := .halted }
  | .resetWork => { s with stage := .workReset }
  | .clear => { s.clear with stage := .cleared }
  | .exit => { s with exited := true }
  | .join => { s with stage := .joined }

/-- One step. -/
def step (s : ServiceThread) (l : Label) : Option ServiceThread :=
  if s.Enabled l then some (s.effect l) else none

theorem step_eq_some {s t : ServiceThread} {l : Label} :
    s.step l = some t ↔ s.Enabled l ∧ t = s.effect l := by
  rw [step]
  by_cases h : s.Enabled l
  · rw [if_pos h]
    constructor
    · intro ht
      exact ⟨h, (Option.some.inj ht).symm⟩
    · rintro ⟨-, rfl⟩
      rfl
  · rw [if_neg h]
    constructor
    · intro ht
      cases ht
    · rintro ⟨ht, -⟩
      exact absurd ht h

end ServiceThread

end KgCpp.Net
