import KgCpp.Net.BasicServerSpread

/-!
# The accept thread among the service threads (`net/basic_server.hpp`)

One thread accepts: it chooses a service, posts an accept on it, and when that ends
chooses again before it starts the coroutine of the connection that came in. The threads
of the services meanwhile start and end their coroutines and count them, so the counts that
the loop of `get_service` compares are read at different times.

`AcceptThread.step` has the loop turn by turn, and between two of its turns any step of
the other threads. A call that none of them gets in between of is `get_service`
(`exec_call`).
-/

namespace KgCpp.Net

open Lib

/-- Where the accept thread is. `old` is the service of the connection that has come in
and is not spawned yet.

- `posting`: `post_accept` is about to call `get_service`.
- `scanning`: the loop of `get_service` is at `i`, and `min` is the least count so far.
- `chosen`: `get_service` has returned.
- `accepting`: the accept is posted, and the thread waits. -/
inductive AcceptPhase where
  | posting (old : Option Nat)
  | scanning (old : Option Nat) (min i : Nat)
  | chosen (old : Option Nat) (service : Nat)
  | accepting (service : Nat)
deriving DecidableEq, Repr

/-- The server, its accept thread and the queues of its services: `spawned` are the services
of the coroutines that have not started. -/
structure AcceptThread where
  server : BasicServer
  phase : AcceptPhase
  spawned : List Nat
deriving DecidableEq, Repr

/-- The steps of the threads.

- `enter`, `look`, `leave`: `get_service` up to its loop, a turn of the loop, and the rest.
- `fail`: an exception in `post_accept`, which then posts again.
- `post`: `async_accept` returns, and the connection that came in before is spawned.
- `complete`: the accept ends, with a connection or with an error.
- `start`, `finish`: a coroutine of a service counts its connection, and counts it off. -/
inductive AcceptLabel where
  | enter
  | look
  | leave
  | fail
  | post
  | complete (ok : Bool)
  | start (i : Nat)
  | finish (i : Nat)
deriving DecidableEq, Repr

namespace BasicServer

/-- `--clients`. -/
def countedOff (s : BasicServer) (i : Nat) : BasicServer :=
  { s with services := s.services.modify i fun x => ⟨x.clients - 1⟩ }

end BasicServer

namespace AcceptThread

/-- `run` calls `post_accept`. -/
def initial (server : BasicServer) : AcceptThread := ⟨server, .posting none, []⟩

/-- `get_service`, up to its loop. -/
def enter (s : AcceptThread) (old : Option Nat) : AcceptThread :=
  if s.server.flag ≠ 0 then
    { s with
      server := { s.server with flag := s.server.flag - 1 }
      phase := .chosen old s.server.pos }
  else
    { s with
      server := { s.server with pos := 0 }
      phase := .scanning old (s.server.load s.server.pos) 1 }

/-- A turn of the loop. -/
def look (s : AcceptThread) (old : Option Nat) (min i : Nat) : AcceptThread :=
  if s.server.load i < min then
    { s with
      server := { s.server with pos := i }
      phase := .scanning old (s.server.load i) (i + 1) }
  else { s with phase := .scanning old min (i + 1) }

/-- The rest of `get_service`. -/
def leave (s : AcceptThread) (old : Option Nat) : AcceptThread :=
  { s with
    server := { s.server with flag := subSize s.server.poll 1 }
    phase := .chosen old s.server.pos }

/-- One step, when it can be taken. -/
def step (s : AcceptThread) : AcceptLabel → Option AcceptThread
  | .enter =>
    match s.phase with
    | .posting old =>
      -- `_services[_pos]` is looked at first
      if s.server.pos < s.server.services.length then some (s.enter old) else none
    | _ => none
  | .look =>
    match s.phase with
    | .scanning old min i =>
      if i < s.server.services.length then some (s.look old min i) else none
    | _ => none
  | .leave =>
    match s.phase with
    | .scanning old _ i => if i < s.server.services.length then none else some (s.leave old)
    | _ => none
  | .fail =>
    match s.phase with
    | .chosen old _ => some { s with phase := .posting old }
    | _ => none
  | .post =>
    match s.phase with
    | .chosen old service =>
      if s.server.acceptor then
        some { s with phase := .accepting service, spawned := s.spawned ++ old.toList }
      else none
    | _ => none
  | .complete ok =>
    match s.phase with
    | .accepting service => some { s with phase := .posting (if ok then some service else none) }
    | _ => none
  | .start i =>
    if i ∈ s.spawned then
      some { s with server := s.server.counted i, spawned := s.spawned.erase i }
    else none
  | .finish i =>
    if 0 < s.server.load i then some { s with server := s.server.countedOff i } else none

/-- The steps a state has, by the phase they belong to. -/
inductive Takes (s : AcceptThread) : AcceptLabel → AcceptThread → Prop where
  | enter {old : Option Nat} (hphase : s.phase = .posting old)
      (hpos : s.server.pos < s.server.services.length) : Takes s .enter (s.enter old)
  | look {old : Option Nat} {least k : Nat} (hphase : s.phase = .scanning old least k)
      (hk : k < s.server.services.length) : Takes s .look (s.look old least k)
  | leave {old : Option Nat} {least k : Nat} (hphase : s.phase = .scanning old least k)
      (hk : ¬ k < s.server.services.length) : Takes s .leave (s.leave old)
  | fail {old : Option Nat} {service : Nat} (hphase : s.phase = .chosen old service) :
      Takes s .fail { s with phase := .posting old }
  | post {old : Option Nat} {service : Nat} (hphase : s.phase = .chosen old service)
      (hacceptor : s.server.acceptor = true) :
      Takes s .post { s with phase := .accepting service, spawned := s.spawned ++ old.toList }
  | complete {ok : Bool} {service : Nat} (hphase : s.phase = .accepting service) :
      Takes s (.complete ok) { s with phase := .posting (if ok then some service else none) }
  | start {j : Nat} (hj : j ∈ s.spawned) :
      Takes s (.start j) { s with server := s.server.counted j, spawned := s.spawned.erase j }
  | finish {j : Nat} (hj : 0 < s.server.load j) :
      Takes s (.finish j) { s with server := s.server.countedOff j }

theorem takes_of_step {s t : AcceptThread} {l : AcceptLabel} (hl : s.step l = some t) :
    Takes s l t := by
  unfold step at hl
  cases l with
  | enter =>
    dsimp only at hl
    split at hl
    · rename_i hphase
      split at hl <;> cases hl
      rename_i hpos
      exact .enter hphase hpos
    · cases hl
  | look =>
    dsimp only at hl
    split at hl
    · rename_i hphase
      split at hl <;> cases hl
      rename_i hk
      exact .look hphase hk
    · cases hl
  | leave =>
    dsimp only at hl
    split at hl
    · rename_i hphase
      split at hl <;> cases hl
      rename_i hk
      exact .leave hphase hk
    · cases hl
  | fail =>
    dsimp only at hl
    split at hl <;> cases hl
    rename_i hphase
    exact .fail hphase
  | post =>
    dsimp only at hl
    split at hl
    · rename_i hphase
      split at hl <;> cases hl
      rename_i hacceptor
      exact .post hphase hacceptor
    · cases hl
  | complete ok =>
    dsimp only at hl
    split at hl <;> cases hl
    rename_i hphase
    exact .complete hphase
  | start j =>
    dsimp only at hl
    split at hl <;> cases hl
    rename_i hj
    exact .start hj
  | finish j =>
    dsimp only at hl
    split at hl <;> cases hl
    rename_i hj
    exact .finish hj

/-! ## The connections of a service -/

/-- The connection that has come in and is not spawned yet. -/
def incoming (s : AcceptThread) : List Nat :=
  match s.phase with
  | .posting old => old.toList
  | .scanning old _ _ => old.toList
  | .chosen old _ => old.toList
  | .accepting _ => []

/-- The service that the next connection goes to, when it is chosen. -/
def next (s : AcceptThread) : List Nat :=
  match s.phase with
  | .chosen _ service => [service]
  | .accepting service => [service]
  | _ => []

/-- How many connections of a service are not counted yet. -/
def waiting (s : AcceptThread) (i : Nat) : Nat := s.spawned.count i + s.incoming.count i

/-- How many connections a service has. -/
def conns (s : AcceptThread) (i : Nat) : Nat := s.server.load i + s.waiting i

/-- How many connections there are. -/
def total (s : AcceptThread) : Nat :=
  ∑ i ∈ Finset.range s.server.services.length, s.conns i

theorem load_counted_le (s : BasicServer) (i j : Nat) :
    (s.counted i).load j ≤ s.load j + if i = j then 1 else 0 := by
  unfold BasicServer.load BasicServer.counted
  rw [List.getD_eq_getElem?_getD, List.getD_eq_getElem?_getD, List.getElem?_modify]
  cases s.services[j]? with
  | none => simp
  | some x => by_cases hij : i = j <;> simp [hij]

theorem load_countedOff_le (s : BasicServer) (i j : Nat) :
    (s.countedOff i).load j ≤ s.load j := by
  unfold BasicServer.load BasicServer.countedOff
  rw [List.getD_eq_getElem?_getD, List.getD_eq_getElem?_getD, List.getElem?_modify]
  cases s.services[j]? with
  | none => simp
  | some x => by_cases hij : i = j <;> simp [hij]

section Step

variable {i : Nat} {s t : AcceptThread}

theorem conns_congr (hload : t.server.load i = s.server.load i) (hspawned : t.spawned = s.spawned)
    (hincoming : t.incoming = s.incoming) : t.conns i = s.conns i := by
  rw [conns, conns, waiting, waiting, hload, hspawned, hincoming]

theorem conns_enter {old : Option Nat} (hphase : s.phase = .posting old) :
    (s.enter old).conns i = s.conns i := by
  have hincoming : s.incoming = old.toList := by rw [incoming, hphase]
  unfold enter
  split <;> exact conns_congr rfl rfl hincoming.symm

theorem conns_look {old : Option Nat} {least k : Nat} (hphase : s.phase = .scanning old least k) :
    (s.look old least k).conns i = s.conns i := by
  have hincoming : s.incoming = old.toList := by rw [incoming, hphase]
  unfold look
  split <;> exact conns_congr rfl rfl hincoming.symm

theorem conns_leave {old : Option Nat} {least k : Nat} (hphase : s.phase = .scanning old least k) :
    (s.leave old).conns i = s.conns i := by
  have hincoming : s.incoming = old.toList := by rw [incoming, hphase]
  exact conns_congr rfl rfl hincoming.symm

theorem conns_fail {old : Option Nat} {service : Nat} (hphase : s.phase = .chosen old service) :
    conns { s with phase := .posting old } i = s.conns i := by
  have hincoming : s.incoming = old.toList := by rw [incoming, hphase]
  exact conns_congr rfl rfl hincoming.symm

/-- The connection that came in before is spawned. -/
theorem conns_post {old : Option Nat} {service : Nat} (hphase : s.phase = .chosen old service) :
    conns { s with phase := .accepting service, spawned := s.spawned ++ old.toList } i =
      s.conns i := by
  rw [conns, conns, waiting, waiting, incoming, incoming, hphase]
  dsimp only
  rw [List.count_append, List.count_nil, Nat.add_zero]

/-- The connection that comes in is one more. -/
theorem conns_complete {ok : Bool} {service : Nat} (hphase : s.phase = .accepting service) :
    conns { s with phase := .posting (if ok then some service else none) } i =
      s.conns i + if ok then s.next.count i else 0 := by
  rw [conns, conns, waiting, waiting, incoming, incoming, next, hphase]
  cases ok with
  | true => exact (Nat.add_assoc ..).symm
  | false => rfl

/-- A connection that is counted was waiting. -/
theorem conns_start {j : Nat} (hj : j ∈ s.spawned) :
    conns { s with server := s.server.counted j, spawned := s.spawned.erase j } i ≤ s.conns i := by
  have hload := load_counted_le s.server j i
  have hpos := List.count_pos_iff.mpr hj
  rw [conns, conns, waiting, waiting, incoming, incoming, List.count_erase]
  dsimp only
  by_cases hji : j = i
  · subst hji
    rw [if_pos rfl] at hload
    simp only [beq_self_eq_true, if_true]
    omega
  · rw [if_neg hji] at hload
    rw [if_neg (by simpa using hji)]
    omega

theorem conns_finish (s : AcceptThread) (j : Nat) :
    conns { s with server := s.server.countedOff j } i ≤ s.conns i :=
  Nat.add_le_add_right (load_countedOff_le s.server j i) _

/-- A step brings a service a connection only when an accept ends with one. -/
theorem conns_step {l : AcceptLabel} (hl : s.step l = some t) (hok : l ≠ .complete true) :
    t.conns i ≤ s.conns i := by
  cases takes_of_step hl with
  | enter hphase => exact (conns_enter hphase).le
  | look hphase => exact (conns_look hphase).le
  | leave hphase => exact (conns_leave hphase).le
  | fail hphase => exact (conns_fail hphase).le
  | post hphase => exact (conns_post hphase).le
  | @complete ok _ hphase =>
    cases ok with
    | true => exact absurd rfl hok
    | false => exact (conns_complete hphase).le
  | start hj => exact conns_start hj
  | @finish j => exact conns_finish s j

end Step

/-! ## `get_service` without the other threads -/

theorem look_scan (server : BasicServer) (old : Option Nat) (spawned : List Nat)
    (best : Nat × Nat) (i : Nat) :
    look ⟨{ server with pos := best.2 }, .scanning old best.1 i, spawned⟩ old best.1 i =
      ⟨{ server with pos := (if server.load i < best.1 then (server.load i, i) else best).2 },
        .scanning old (if server.load i < best.1 then (server.load i, i) else best).1 (i + 1),
        spawned⟩ := by
  have hload : BasicServer.load { server with pos := best.2 } i = server.load i := rfl
  unfold look
  dsimp only
  rw [hload]
  split <;> rfl

/-- Turns of the loop. -/
theorem exec_look (server : BasicServer) (old : Option Nat) (spawned : List Nat) (n : Nat) :
    ∀ (best : Nat × Nat) (i : Nat), i + n ≤ server.services.length →
      exec step ⟨{ server with pos := best.2 }, .scanning old best.1 i, spawned⟩
        (List.replicate n .look) =
      some ⟨{ server with pos := (scanLeast server.load best (List.range' i n)).2 },
        .scanning old (scanLeast server.load best (List.range' i n)).1 (i + n), spawned⟩ := by
  induction n with
  | zero =>
    intro best i _
    rfl
  | succ n ih =>
    intro best i hi
    rw [List.replicate_succ, List.range'_succ, scanLeast]
    refine exec_cons.mpr ⟨_, if_pos (by dsimp only; omega), ?_⟩
    rw [look_scan, show i + (n + 1) = i + 1 + n by omega]
    exact ih _ (i + 1) (by omega)

/-- A call of `get_service` that no other thread gets in between of. -/
def call (server : BasicServer) : List AcceptLabel :=
  if server.flag ≠ 0 then [.enter]
  else .enter :: (List.replicate (server.services.length - 1) .look ++ [.leave])

/-- It goes through its steps as `get_service` does. -/
theorem exec_call {server : BasicServer} (hpos : server.pos < server.services.length)
    (old : Option Nat) (spawned : List Nat) :
    ∃ i server', server.getService = .ok (i, server') ∧
      exec step ⟨server, .posting old, spawned⟩ (call server) =
        some ⟨server', .chosen old i, spawned⟩ := by
  have hcurrent : server.services[server.pos].clients = server.load server.pos := by
    rw [BasicServer.load, List.getD, List.getElem?_eq_getElem hpos, Option.getD_some]
  rw [BasicServer.getService, List.getElem?_eq_getElem hpos, call]
  dsimp only
  by_cases hflag : server.flag ≠ 0
  · rw [if_pos hflag, if_pos hflag]
    refine ⟨_, _, rfl, exec_cons.mpr ⟨_, if_pos hpos, ?_⟩⟩
    rw [AcceptThread.enter, if_pos hflag]
    rfl
  · rw [if_neg hflag, if_neg hflag]
    refine ⟨_, _, rfl, exec_cons.mpr ⟨_, if_pos hpos, ?_⟩⟩
    rw [AcceptThread.enter, if_neg hflag]
    refine exec_append.mpr ⟨_, exec_look server old spawned _ (_, 0) 1 (by omega), ?_⟩
    refine exec_cons.mpr ⟨_, if_neg (by dsimp only; omega), ?_⟩
    rw [BasicServer.leastLoaded_eq, hcurrent]
    rfl

end AcceptThread

end KgCpp.Net
