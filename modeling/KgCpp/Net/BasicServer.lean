import KgCpp.Lib.Action
import KgCpp.Types

/-!
# `basic_server_t` (`net/basic_server.hpp`)

The server object: what construction leaves of it, and what `run`, `stop`,
`join` and the accept handler do to it. Sockets and connections are not here;
what the server asks of the operating system and of `boost` is an environment
that says how each step of construction goes, and each call says how its own
allocations go.

A call that would dereference a null `_acceptor`, or index `_services` outside
it, is undefined: it comes back with an `Undefined`, which no other way out of a
call is.
-/

namespace KgCpp.Net

open Lib

/-- How one step of construction, or the creation of a thread, goes. -/
inductive StepResult where
  | done
  | badAlloc
  | systemError (ev : Int32)
deriving DecidableEq, Repr

/-- `boost::system::system_error`, of the category `basic_server_category` or of
another, and `std::bad_alloc`. -/
inductive ServerThrown where
  | code (ev : Int32)
  | system (ev : Int32)
  | badAlloc
deriving DecidableEq, Repr

/-- Behaviour that C++ leaves undefined. -/
inductive Undefined where
  | nullAcceptor
  | badIndex
deriving DecidableEq, Repr

/-- `KG_NET_BASIC_SERVER_CODE_BAD_ALLOC`. -/
def serverCodeBadAlloc : Int32 := 1

/-- `KG_NET_BASIC_SERVER_CODE_BAD_ADDR`. -/
def serverCodeBadAddr : Int32 := 100

/-- What construction meets: `lexicalCast` is
`boost::lexical_cast<unsigned short>`, `none` when it throws; then how each
construction goes, the result of `hardware_concurrency()`, and for each service
how its object, its work, its thread and its place in the vector go. -/
structure Environment where
  lexicalCast : List Char → Option Nat
  service : StepResult
  acceptor : StepResult
  hardwareConcurrency : Nat
  object : Nat → StepResult
  work : Nat → StepResult
  thread : Nat → StepResult
  place : Nat → StepResult

/-- `service_t`, as far as the server reads it. -/
structure Service where
  clients : Nat
deriving DecidableEq, Repr

/-- `basic_server_t`. The pointers `_service`, `_acceptor` and `_thread` are
there or null. -/
structure BasicServer where
  service : Bool
  acceptor : Bool
  services : List Service
  flag : Nat
  pos : Nat
  poll : Nat
  timeout : Nat
  run : Bool
  thread : Bool
deriving DecidableEq, Repr

namespace BasicServer

/-! ## Construction -/

/-- `std::string::find_last_of(c)`. -/
def findLastOf (s : List Char) (c : Char) : Option Nat :=
  (List.range s.length).reverse.find? fun i => s[i]? == some c

/-- The port in an address: what follows the last colon, 0 when it is not a
number. -/
def port (env : Environment) (laddr : List Char) (find : Nat) : Nat :=
  (env.lexicalCast (laddr.drop (find + 1))).getD 0

/-- One step of construction. -/
def perform (r : StepResult) : Action ServerThrown BasicServer Unit :=
  match r with
  | .done => pure ()
  | .badAlloc => throw .badAlloc
  | .systemError ev => throw (.system ev)

/-- The loop of `init` that makes the services from the `i`-th on. A service
whose making fails on the way is gone with the exception. -/
def initServices (env : Environment) (i : Nat) : Nat → Action ServerThrown BasicServer Unit
  | 0 => pure ()
  | n + 1 => do
    perform (env.object i)
    perform (env.work i)
    perform (env.thread i)
    perform (env.place i)
    modify fun s => { s with services := s.services ++ [⟨0⟩] }
    initServices env (i + 1) n

/-- The part of `init` that makes the asio objects. -/
def initAsio (env : Environment) : Action ServerThrown BasicServer Unit := do
  perform env.service
  modify fun s => { s with service := true }
  perform env.acceptor
  modify fun s => { s with acceptor := true }
  initServices env 0 env.hardwareConcurrency

/-- `catch(const std::bad_alloc&)` around it. -/
def orBadAlloc (x : Action ServerThrown BasicServer Unit) :
    Action ServerThrown BasicServer Unit := fun s =>
  match x s with
  | .error .badAlloc s' => .error (.code serverCodeBadAlloc) s'
  | r => r

/-- `init`. -/
def init (laddr : List Char) (env : Environment) : Action ServerThrown BasicServer Unit :=
  match findLastOf laddr ':' with
  | none => throw (.code serverCodeBadAddr)
  | some find =>
    if port env laddr find = 0 then throw (.code serverCodeBadAddr)
    else orBadAlloc (initAsio env)

/-- The object before `init`. -/
def blank (poll timeout : Nat) : BasicServer where
  service := false
  acceptor := false
  services := []
  flag := if poll < 1 then 10 else poll
  pos := 0
  poll := if poll < 1 then 10 else poll
  timeout := timeout
  run := false
  thread := false

/-- The two constructors. -/
inductive Constructor where
  | throwing
  | errorCode
deriving DecidableEq, Repr

/-- Construction: the live object, when there is one, and the error the caller
is told. The throwing constructor leaves no object when `init` throws. -/
def construct (ctor : Constructor) (laddr : List Char) (poll timeout : Nat)
    (env : Environment) : Option BasicServer × Option ServerThrown :=
  match init laddr env (blank poll timeout), ctor with
  | .ok () s, _ => (some s, none)
  | .error e _, .throwing => (none, some e)
  | .error e s, .errorCode => (some s, some e)

/-! ## Accepting -/

/-- The loop of `get_service`: the least count so far, and its place. -/
def leastLoaded (services : List Service) (min : Nat) : Nat × Nat :=
  (List.range' 1 (services.length - 1)).foldl
    (fun (min, pos) i =>
      if (services.getD i ⟨0⟩).clients < min then ((services.getD i ⟨0⟩).clients, i)
      else (min, pos))
    (min, 0)

/-- `get_service`: the place of the chosen service. -/
def getService (s : BasicServer) : Except Undefined (Nat × BasicServer) :=
  match s.services[s.pos]? with
  | none => .error .badIndex
  | some current =>
    -- `_poll` connections in a row go to the same service
    if s.flag ≠ 0 then .ok (s.pos, { s with flag := s.flag - 1 })
    else
      let pos := (leastLoaded s.services current.clients).2
      .ok (pos, { s with flag := subSize s.poll 1, pos := pos })

/-- How an attempt to post an accept fails with a `std::exception`: before
`_acceptor` is dereferenced, or in `async_accept`. -/
inductive Attempt where
  | socket
  | asyncAccept
deriving DecidableEq, Repr

/-- `post_accept`, when the attempts before the one that succeeds fail as
`attempts` says. -/
def postAccept (s : BasicServer) : List Attempt → Except Undefined BasicServer
  | [] =>
    match s.getService with
    | .error u => .error u
    | .ok (_, s) => if s.acceptor then .ok s else .error .nullAcceptor
  | attempt :: attempts =>
    match s.getService with
    | .error u => .error u
    | .ok (_, s) =>
      -- `catch(const std::exception&)` posts again, by calling itself
      match attempt with
      | .socket => postAccept s attempts
      | .asyncAccept => if s.acceptor then postAccept s attempts else .error .nullAcceptor

/-! ## Calls -/

/-- What a call comes back with. -/
inductive Outcome where
  | returned
  | threw (e : ServerThrown)
  | reported (e : ServerThrown)
  | undefined (u : Undefined)
deriving DecidableEq, Repr

/-- `run`. An exception in the creation of the thread leaves `_run` set. -/
def start (s : BasicServer) (attempts : List Attempt) (thread : StepResult) :
    BasicServer × Outcome :=
  if s.run then (s, .returned)
  else
    -- neither `_acceptor` nor `_services` is looked at before
    match s.postAccept attempts with
    | .error u => (s, .undefined u)
    | .ok s =>
      match thread with
      | .done => ({ s with run := true, thread := true }, .returned)
      | .badAlloc => ({ s with run := true }, .threw (.code serverCodeBadAlloc))
      | .systemError ev => ({ s with run := true }, .threw (.system ev))

/-- `run(ec)`: the error becomes `ec`. -/
def startEc (s : BasicServer) (attempts : List Attempt) (thread : StepResult) :
    BasicServer × Outcome :=
  match s.start attempts thread with
  | (s, .threw e) => (s, .reported e)
  | r => r

/-- `stop`. -/
def stop (s : BasicServer) : BasicServer :=
  if s.run then
    { s with run := false, acceptor := false, service := false, services := [], thread := false }
  else s

/-- `post_accept_handler`, on the server object and with nothing in between
(`Shutdown` has it statement by statement, against `stop`): whether the accept
ended in an error matters for the new connection only. -/
def postAcceptHandler (s : BasicServer) (attempts : List Attempt) : BasicServer × Outcome :=
  if s.run then
    match s.postAccept attempts with
    | .error u => (s, .undefined u)
    | .ok s => (s, .returned)
  else (s, .returned)

end BasicServer

end KgCpp.Net
