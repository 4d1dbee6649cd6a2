import KgCpp.Net.AcceptThread

/-!
# `stop` against the accept thread (`net/basic_server.hpp`)

`stop` takes `_run` down, cancels and resets `_acceptor`, stops `_service` and the
services, and joins the accept thread. It holds no lock, and the accept thread looks at
`_run` only when a handler begins: a handler that has found it up goes on to
`_services` and `_acceptor` while `stop` takes them away.

`Shutdown.step` has `stop` statement by statement, and between two of its statements any
step of the accept thread and of the service threads.
-/

namespace KgCpp.Net

open Lib

/-- What `stop` does next. -/
inductive StopStage where
  | look
  | cancel
  | resetAcceptor
  | stopService
  | resetService
  | stopServices (i : Nat)
  | clearServices
  | join
  | returned
deriving DecidableEq, Repr

/-- Where the accept thread is.

- `waiting`: in `io_service::run`, with an accept posted.
- `entered`: at the beginning of `post_accept_handler`.
- `posting`: past its look at `_run`, in `post_accept`; how far is the phase of the
  `AcceptThread`.
- `declined`: the handler has returned and has posted nothing.
- `exited`: `io_service::run` has returned.
- `undefined`: it has used what is not there. -/
inductive HandlerStage where
  | waiting
  | entered (ok : Bool)
  | posting
  | declined
  | exited
  | undefined (u : Undefined)
deriving DecidableEq, Repr

/-- The server with its accept thread and a caller of `stop`. `stopped` says that
`_service` has been stopped. -/
structure Shutdown where
  accept : AcceptThread
  handler : HandlerStage
  stop : StopStage
  stopped : Bool
deriving DecidableEq, Repr

/-- The steps of the threads.

- `complete`: a handler begins, of an accept that ended well or not.
- `look`: it looks at `_run`.
- `accept`: a step of `post_accept`, or of a service thread.
- `exit`: `io_service::run` returns.
- `stop`: the next step of `stop`. -/
inductive ShutdownLabel where
  | complete (ok : Bool)
  | look
  | accept (l : AcceptLabel)
  | exit
  | stop
deriving DecidableEq, Repr

namespace AcceptLabel

/-- The step is one of a service thread. -/
def isCount : AcceptLabel → Bool
  | .start _ => true
  | .finish _ => true
  | _ => false

end AcceptLabel

namespace AcceptThread

/-- What a step of `post_accept` uses that is not there. -/
def fault (s : AcceptThread) : AcceptLabel → Option Undefined
  | .enter =>
    match s.phase with
    | .posting _ => if s.server.pos < s.server.services.length then none else some .badIndex
    | _ => none
  | .leave =>
    match s.phase with
    | .scanning _ _ i =>
      -- the loop is left, and `_services[_pos]` returned
      if i < s.server.services.length ∨ s.server.pos < s.server.services.length then none
      else some .badIndex
    | _ => none
  | .post =>
    match s.phase with
    | .chosen _ _ => if s.server.acceptor then none else some .nullAcceptor
    | _ => none
  | _ => none

end AcceptThread

namespace Shutdown

/-- A server that runs, with an accept posted on the service at `i`. -/
def initial (server : BasicServer) (i : Nat) : Shutdown :=
  ⟨⟨server, .accepting i, []⟩, .waiting, .look, false⟩

/-- After an assignment to the server object. -/
def withServer (s : Shutdown) (server : BasicServer) : Shutdown :=
  { s with accept := { s.accept with server := server } }

/-- `post_accept_handler` looks at `_run`. -/
def look (s : Shutdown) : Option Shutdown :=
  match s.handler with
  | .entered ok =>
    if s.accept.server.run then
      (s.accept.step (.complete ok)).map fun a => { s with accept := a, handler := .posting }
    else some { s with handler := .declined }
  | _ => none

/-- A step of `post_accept`, or of a service thread. -/
def acceptStep (s : Shutdown) (l : AcceptLabel) : Option Shutdown :=
  if l.isCount then (s.accept.step l).map fun a => { s with accept := a }
  else if s.handler = .posting then
    match s.accept.fault l with
    | some u => some { s with handler := .undefined u }
    | none =>
      (s.accept.step l).map fun a =>
        { s with accept := a, handler := if l = .post then .waiting else .posting }
  else none

/-- The next step of `stop`. What `service_t::stop` does and waits for is in
`ServiceThread`; here it returns. -/
def stopStep (s : Shutdown) : Option Shutdown :=
  let server := s.accept.server
  match s.stop with
  | .look =>
    if server.run then some { s.withServer { server with run := false } with stop := .cancel }
    else some { s with stop := .returned }
  | .cancel => some { s with stop := if server.acceptor then .resetAcceptor else .stopService }
  | .resetAcceptor =>
    some { s.withServer { server with acceptor := false } with stop := .stopService }
  | .stopService =>
    if server.service then some { s with stop := .resetService, stopped := true }
    else some { s with stop := .stopServices 0 }
  | .resetService =>
    some { s.withServer { server with service := false } with stop := .stopServices 0 }
  | .stopServices i =>
    some { s with stop := if i < server.services.length then .stopServices (i + 1)
      else .clearServices }
  | .clearServices => some { s.withServer { server with services := [] } with stop := .join }
  | .join =>
    if server.thread = false ∨ s.handler = .exited then
      some { s.withServer { server with thread := false } with stop := .returned }
    else none
  | .returned => none

/-- One step, when it can be taken. -/
def step (s : Shutdown) : ShutdownLabel → Option Shutdown
  | .complete ok =>
    if s.handler = .waiting ∧ s.stopped = false then some { s with handler := .entered ok }
    else none
  | .look => s.look
  | .accept l => s.acceptStep l
  | .exit =>
    if s.handler = .declined ∨ s.handler = .waiting ∧ s.stopped = true then
      some { s with handler := .exited }
    else none
  | .stop => s.stopStep

/-- One step of the accept thread or of a service thread. -/
def goOn (s : Shutdown) (l : ShutdownLabel) : Option Shutdown :=
  if l = .stop then none else s.step l

theorem step_of_goOn {s t : Shutdown} {l : ShutdownLabel} (hl : s.goOn l = some t) :
    l ≠ .stop ∧ s.step l = some t := by
  rw [goOn, Option.ite_none_left_eq_some] at hl
  exact hl

/-- The steps a state has, by what they do. -/
inductive Takes (s : Shutdown) : ShutdownLabel → Shutdown → Prop where
  | complete {ok : Bool} (hhandler : s.handler = .waiting) (hstopped : s.stopped = false) :
      Takes s (.complete ok) { s with handler := .entered ok }
  | goesOn {ok : Bool} {a : AcceptThread} (hhandler : s.handler = .entered ok)
      (hrun : s.accept.server.run = true) (ha : s.accept.step (.complete ok) = some a) :
      Takes s .look { s with accept := a, handler := .posting }
  | declines {ok : Bool} (hhandler : s.handler = .entered ok)
      (hrun : s.accept.server.run = false) : Takes s .look { s with handler := .declined }
  | counts {l : AcceptLabel} {a : AcceptThread} (hl : l.isCount = true)
      (ha : s.accept.step l = some a) : Takes s (.accept l) { s with accept := a }
  | faults {l : AcceptLabel} {u : Undefined} (hhandler : s.handler = .posting)
      (hfault : s.accept.fault l = some u) :
      Takes s (.accept l) { s with handler := .undefined u }
  | posts {l : AcceptLabel} {a : AcceptThread} (hl : l.isCount = false)
      (hhandler : s.handler = .posting) (hfault : s.accept.fault l = none)
      (ha : s.accept.step l = some a) :
      Takes s (.accept l)
        { s with accept := a, handler := if l = .post then .waiting else .posting }
  | exit (hhandler : s.handler = .declined ∨ s.handler = .waiting) :
      Takes s .exit { s with handler := .exited }
  | stop {t : Shutdown} (ht : s.stopStep = some t) : Takes s .stop t

theorem takes_of_step {s t : Shutdown} {l : ShutdownLabel} (hl : s.step l = some t) :
    Takes s l t := by
  cases l with
  | complete ok =>
    rw [step] at hl
    split at hl <;> cases hl
    rename_i h
    exact .complete h.1 h.2
  | look =>
    rw [step, look] at hl
    split at hl
    · rename_i ok hhandler
      split at hl
      · rename_i hrun
        obtain ⟨a, ha, rfl⟩ := Option.map_eq_some_iff.mp hl
        exact .goesOn hhandler hrun ha
      · rename_i hrun
        cases hl
        exact .declines hhandler (Bool.eq_false_of_not_eq_true hrun)
    · cases hl
  | accept l =>
    rw [step, acceptStep] at hl
    split at hl
    · rename_i hcount
      obtain ⟨a, ha, rfl⟩ := Option.map_eq_some_iff.mp hl
      exact .counts hcount ha
    · rename_i hcount
      split at hl
      · rename_i hhandler
        cases hfault : s.accept.fault l with
        | some u =>
          rw [hfault] at hl
          cases hl
          exact .faults hhandler hfault
        | none =>
          rw [hfault] at hl
          obtain ⟨a, ha, rfl⟩ := Option.map_eq_some_iff.mp hl
          exact .posts (Bool.eq_false_of_not_eq_true hcount) hhandler hfault ha
      · cases hl
  | exit =>
    rw [step] at hl
    split at hl <;> cases hl
    rename_i h
    exact .exit (h.imp_right And.left)
  | stop => exact .stop hl

end Shutdown

end KgCpp.Net
