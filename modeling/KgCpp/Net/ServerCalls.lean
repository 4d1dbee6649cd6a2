import KgCpp.Net.ServerShutdownRuns

/-!
# The calls of a program on its server (`net/basic_server.hpp`)

A program constructs a server, by either constructor and with whatever outcome, and then
calls `run`, `stop` and `join` one after another. `run` starts the accept thread, which
goes on between the statements of `stop`.

`stop` empties the members that `run` and the accept thread need, and the error code
constructor leaves an object behind that never had them. Nobody looks whether they are
there: `allFine_iff` says exactly which runs stay clear of it.
-/

namespace KgCpp.Net

open Lib

/-- A call of the program. -/
inductive ServerCall where
  | run (attempts : List BasicServer.Attempt) (thread : StepResult)
  | runEc (attempts : List BasicServer.Attempt) (thread : StepResult)
  | stop
  | join
deriving DecidableEq, Repr

/-- A step: a call begins, or the accept thread, a service thread or the call of `stop` that
is under way goes on. -/
inductive ServerLabel where
  | call (c : ServerCall)
  | thread (l : ShutdownLabel)
deriving DecidableEq, Repr

/-- A server with its threads, and what a `run` has used that is not there. Between the
calls `stop` counts as returned. -/
structure ServerCalls where
  threads : Shutdown
  fault : Option Undefined
deriving DecidableEq, Repr

namespace ServerCall

/-- The call is one of `run` and `run(ec)`. -/
def isRun : ServerCall → Bool
  | .run _ _ => true
  | .runEc _ _ => true
  | _ => false

/-- What a call comes back with. -/
def answer (s : BasicServer) : ServerCall → BasicServer.Outcome
  | .run attempts thread => (s.start attempts thread).2
  | .runEc attempts thread => (s.startEc attempts thread).2
  | .stop => .returned
  | .join => .returned

/-- Nothing undefined happens, and a `run` that cannot be served says so. -/
structure Fine (s : BasicServer) (c : ServerCall) : Prop where
  defined : ∀ u, c.answer s ≠ .undefined u
  reported : c.isRun = true → s.run = false → ¬ s.Usable →
    ∃ e, c.answer s = .threw e ∨ c.answer s = .reported e

end ServerCall

namespace ServerCalls

/-- The server object. -/
def server (s : ServerCalls) : BasicServer := s.threads.accept.server

/-- After construction: there is no accept thread. -/
def initial (server : BasicServer) : ServerCalls :=
  ⟨⟨⟨server, .accepting server.pos, []⟩, .exited, .returned, false⟩, none⟩

/-- After an assignment to the server object. -/
def withServer (s : ServerCalls) (server : BasicServer) : ServerCalls :=
  { s with threads := s.threads.withServer server }

/-- The accept thread is made. It waits for the accept that was posted on the service that
`get_service` has left `_pos` at. -/
def withThread (s : ServerCalls) (server : BasicServer) : ServerCalls :=
  { s with threads := { s.threads with
      accept := { s.threads.accept with server := server, phase := .accepting server.pos }
      handler := .waiting } }

/-- `run`; `run(ec)` tells an error in another way. -/
def start (s : ServerCalls) (attempts : List BasicServer.Attempt) (thread : StepResult) :
    ServerCalls :=
  match s.server.start attempts thread with
  | (_, .undefined u) => { s with fault := some u }
  | (server, .returned) => if s.server.run then s.withServer server else s.withThread server
  | (server, _) => s.withServer server

/-- A call, as far as it goes at once. Of `stop` that is the look at `_run`; `join` comes
back when the accept thread has. -/
def call (s : ServerCalls) : ServerCall → Option ServerCalls
  | .run attempts thread => some (s.start attempts thread)
  | .runEc attempts thread => some (s.start attempts thread)
  | .stop => ({ s.threads with stop := .look }).stopStep.map fun t => { s with threads := t }
  | .join => if s.server.thread = false ∨ s.threads.handler = .exited then some s else none

/-- One step, when it can be taken: a call begins when the one before has come back. -/
def step (s : ServerCalls) : ServerLabel → Option ServerCalls
  | .call c => if s.fault = none ∧ s.threads.stop = .returned then s.call c else none
  | .thread l =>
    if s.fault = none then (s.threads.step l).map fun t => { s with threads := t } else none

/-- The accept thread has used nothing that is not there, and does not while the program
makes no further step. -/
def Calm (s : ServerCalls) : Prop := ¬ Reaches Shutdown.goOn Shutdown.Broken s.threads

/-- Every call of a run is fine, and so is the accept thread wherever the run comes. -/
def AllFine : ServerCalls → List ServerLabel → Prop
  | s, [] => s.Calm
  | s, l :: ls =>
    s.Calm ∧ (∀ c, l = .call c → c.Fine s.server) ∧ ∀ t, s.step l = some t → AllFine t ls

/-- The calls of a run. -/
def callsOf (ls : List ServerLabel) : List ServerCall :=
  ls.filterMap fun
    | .call c => some c
    | .thread _ => none

/-- There is a `run`. -/
def hasRun (cs : List ServerCall) : Bool := cs.any ServerCall.isRun

/-- There is a `run` after a `stop`. -/
def runAfterStop : List ServerCall → Bool
  | [] => false
  | c :: cs => (c == .stop && hasRun cs) || runAfterStop cs

/-- There is a `run` after a `stop` after a `run`. -/
def restarts : List ServerCall → Bool
  | [] => false
  | c :: cs => (c.isRun && runAfterStop cs) || restarts cs

/-- The step is `_acceptor.reset()`, and the accept thread is between its look at `_run` and
`async_accept`. -/
def resets (s : ServerCalls) (l : ServerLabel) : Bool :=
  l == .thread .stop && s.threads.stop == .resetAcceptor && s.threads.handler == .posting

/-- There is such a step in the run. -/
def resetsInside : ServerCalls → List ServerLabel → Bool
  | _, [] => false
  | s, l :: ls => s.resets l ||
    match s.step l with
    | none => false
    | some t => resetsInside t ls

/-! ## What the accept thread can use -/

/-- The accept thread has all it uses, or posts no more, or there is none. -/
def Safe (t : Shutdown) : Prop := t.Whole ∨ t.Quiet ∨ t.handler = .exited

section Threads

variable {t u : Shutdown} {l : ShutdownLabel}

theorem exited_of_step (h : t.handler = .exited) (hl : t.step l = some u) :
    u.handler = .exited := by
  cases Shutdown.takes_of_step hl with
  | complete hhandler => rw [h] at hhandler; cases hhandler
  | goesOn hhandler => rw [h] at hhandler; cases hhandler
  | declines hhandler => rw [h] at hhandler; cases hhandler
  | counts => exact h
  | faults hhandler => rw [h] at hhandler; cases hhandler
  | posts _ hhandler => rw [h] at hhandler; cases hhandler
  | exit => rfl
  | stop ht =>
    unfold Shutdown.stopStep at ht
    dsimp only at ht
    split at ht
    · split at ht <;> cases ht <;> exact h
    · cases ht; exact h
    · cases ht; exact h
    · split at ht <;> cases ht <;> exact h
    · cases ht; exact h
    · cases ht; exact h
    · cases ht; exact h
    · split at ht <;> cases ht
      exact h
    · cases ht

theorem safe_of_goOn (h : Safe t) (hl : t.goOn l = some u) : Safe u := by
  obtain ⟨hstop, hl⟩ := Shutdown.step_of_goOn hl
  rcases h with hwhole | hquiet | hexited
  · exact .inl (Shutdown.whole_of_step hwhole hl hstop)
  · exact .inr (.inl (Shutdown.quiet_of_step hquiet hl))
  · exact .inr (.inr (exited_of_step hexited hl))

theorem calm_of_safe {s : ServerCalls} (h : Safe s.threads) : s.Calm := by
  intro hbroken
  obtain ⟨u, ⟨x, hx⟩, hsafe⟩ := hbroken.invariant (fun _ _ _ hs hl => safe_of_goOn hs hl) h
  rcases hsafe with hwhole | hquiet | hexited
  · exact hwhole.defined x hx
  · exact hquiet.defined x hx
  · rw [hx] at hexited
    cases hexited

end Threads

/-! ## The modes of a run -/

/-- The server can run, and has not run yet. -/
structure Fresh (s : ServerCalls) : Prop where
  fault : s.fault = none
  stop : s.threads.stop = .returned
  exited : s.threads.handler = .exited
  run : s.server.run = false
  usable : s.server.Usable

/-- The server runs, and no `stop` is under way. -/
structure Running (s : ServerCalls) : Prop where
  fault : s.fault = none
  stop : s.threads.stop = .returned
  run : s.server.run = true
  safe : s.threads.Whole ∨ s.threads.handler = .exited

/-- The server does not run, and cannot any more. -/
structure Closed (s : ServerCalls) : Prop where
  fault : s.fault = none
  begun : s.threads.stop ≠ .look
  run : s.server.run = false
  gone : s.threads.stop.isLate = true → s.server.acceptor = false ∨ s.server.services = []
  safe : s.threads.Whole ∧ s.threads.stop.isLate = false ∨ s.threads.Quiet ∨
    s.threads.handler = .exited

section Modes

variable {s t : ServerCalls} {l : ServerLabel}

theorem Running.calm (h : Running s) : s.Calm := calm_of_safe (h.safe.imp_right .inr)

theorem Closed.calm (h : Closed s) : s.Calm := calm_of_safe (h.safe.imp_left And.left)

theorem Fresh.calm (h : Fresh s) : s.Calm := calm_of_safe (.inr (.inr h.exited))

/-- A call begins. -/
theorem step_call {c : ServerCall} (hl : s.step (.call c) = some t) :
    s.threads.stop = .returned ∧ s.call c = some t := by
  rw [step, Option.ite_none_right_eq_some] at hl
  exact ⟨hl.1.2, hl.2⟩

/-- Between the calls `stop` makes no step. -/
theorem ne_stop_of_returned (h : s.threads.stop = .returned) {l : ShutdownLabel} {u : Shutdown}
    (hu : s.threads.step l = some u) : l ≠ .stop := by
  rintro rfl
  rw [Shutdown.step, Shutdown.stopStep, h] at hu
  cases hu

/-- A thread goes on. -/
theorem step_thread {l : ShutdownLabel} (hl : s.step (.thread l) = some t) :
    ∃ u, s.threads.step l = some u ∧ t = { s with threads := u } := by
  rw [step, Option.ite_none_right_eq_some] at hl
  obtain ⟨u, hu, rfl⟩ := Option.map_eq_some_iff.mp hl.2
  exact ⟨u, hu, rfl⟩

theorem fine_of_not_isRun {c : ServerCall} (hc : c.isRun = false) (s : BasicServer) : c.Fine s := by
  refine ⟨fun u hu => ?_, fun hr => by rw [hc] at hr; cases hr⟩
  cases c with
  | run attempts thread => cases hc
  | runEc attempts thread => cases hc
  | stop => cases hu
  | join => cases hu

theorem of_isRun {c : ServerCall} (hc : c.isRun = true) :
    ∃ attempts thread, (c = .run attempts thread ∨ c = .runEc attempts thread) ∧
      (∀ s u, c.answer s = .undefined u ↔ (s.start attempts thread).2 = .undefined u) ∧
      ∀ s : ServerCalls, s.call c = some (s.start attempts thread) := by
  cases c with
  | run attempts thread =>
    exact ⟨attempts, thread, .inl rfl, fun _ _ => Iff.rfl, fun _ => rfl⟩
  | runEc attempts thread =>
    exact ⟨attempts, thread, .inr rfl, fun s u => (s.startEc_eq attempts thread).2 u, fun _ => rfl⟩
  | stop => cases hc
  | join => cases hc

/-- `stop` finds `_run` down, and `join` does nothing. -/
theorem eq_of_call (hrun : s.server.run = false) {c : ServerCall} (hc : c.isRun = false)
    (hl : s.step (.call c) = some t) : t = s := by
  obtain ⟨hstop, hcall⟩ := step_call hl
  cases c with
  | run attempts thread => cases hc
  | runEc attempts thread => cases hc
  | stop =>
    rw [call, Shutdown.stopStep] at hcall
    dsimp only at hcall
    rw [if_neg (by rw [show s.threads.accept.server.run = false from hrun]; decide),
      Option.map_some, ← hstop] at hcall
    exact (Option.some.inj hcall).symm
  | join =>
    rw [call, Option.ite_none_right_eq_some] at hcall
    exact (Option.some.inj hcall.2).symm

/-! ### A server that is closed -/

/-- `run` finds no acceptor or no service. -/
theorem Closed.not_fine (h : Closed s) (hstop : s.threads.stop = .returned) {c : ServerCall}
    (hc : c.isRun = true) : ¬ c.Fine s.server := by
  intro hfine
  have hunusable : ¬ s.server.Usable := by
    rintro ⟨hacceptor, hpos⟩
    rcases h.gone (by rw [hstop]; rfl) with hnone | hnone
    · rw [hnone] at hacceptor
      cases hacceptor
    · rw [hnone] at hpos
      exact absurd hpos (Nat.not_lt_zero _)
  obtain ⟨attempts, thread, -, hanswer, -⟩ := of_isRun hc
  obtain ⟨u, hu⟩ := BasicServer.start_unusable hunusable h.run attempts thread
  exact hfine.defined u ((hanswer s.server u).mpr hu)

/-- `_acceptor->cancel`, when there is one. -/
theorem closed_of_cancel (h : Closed s) (hstage : s.threads.stop = .cancel) {u : Shutdown}
    (hu : s.threads.stopStep = some u) : Closed { s with threads := u } := by
  rw [Shutdown.stopStep, hstage] at hu
  cases hu
  cases hacceptor : s.threads.accept.server.acceptor with
  | false =>
    refine ⟨h.fault, (fun h => by cases h), h.run, fun _ => .inl hacceptor, ?_⟩
    rcases h.safe with ⟨hwhole, -⟩ | hquiet | hexited
    · rw [hwhole.usable.1] at hacceptor
      cases hacceptor
    · have hlate := hquiet.late
      rw [hstage] at hlate
      cases hlate
    · exact .inr (.inr hexited)
  | true =>
    refine ⟨h.fault, (fun h => by cases h), h.run, (fun hlate => by cases hlate), ?_⟩
    rcases h.safe with ⟨hwhole, -⟩ | hquiet | hexited
    · exact .inl ⟨⟨hwhole.usable, hwhole.thread, hwhole.idle, hwhole.defined⟩, rfl⟩
    · have hlate := hquiet.late
      rw [hstage] at hlate
      cases hlate
    · exact .inr (.inr hexited)

/-- `_acceptor.reset()`, when the accept thread is not about to use it. -/
theorem closed_of_reset (h : Closed s) (hstage : s.threads.stop = .resetAcceptor) {u : Shutdown}
    (hu : s.threads.step .stop = some u) (hposting : s.threads.handler ≠ .posting) :
    Closed { s with threads := u } := by
  have hsafe : u.Quiet ∨ u.handler = .exited := by
    rcases h.safe with ⟨hwhole, -⟩ | hquiet | hexited
    · have hbefore : s.threads.Before := ⟨hwhole, fun _ => h.run⟩
      exact .inl (hbefore.quiet hstage hu hposting)
    · have hlate := hquiet.late
      rw [hstage] at hlate
      cases hlate
    · exact .inr (exited_of_step hexited hu)
  obtain rfl := Shutdown.reset_of_stage hstage hu
  exact ⟨h.fault, (fun h => by cases h), h.run, fun _ => .inl rfl, .inr hsafe⟩

/-- What `stop` does after that. -/
theorem closed_of_late (h : Closed s) (hlate : s.threads.stop.isLate = true) {u : Shutdown}
    (hu : s.threads.step .stop = some u) : Closed { s with threads := u } := by
  have hon := Shutdown.stopsOn_of_late hu hlate
  refine ⟨h.fault, ?_, hon.run.trans h.run, fun _ => (h.gone hlate).imp hon.acceptor hon.services,
    ?_⟩
  · intro hlook
    have hlate' := hon.late
    rw [hlook] at hlate'
    cases hlate'
  · rcases h.safe with ⟨-, hearly⟩ | hquiet | hexited
    · rw [hlate] at hearly
      cases hearly
    · exact .inr (.inl (Shutdown.quiet_of_step hquiet hu))
    · exact .inr (.inr (exited_of_step hexited hu))

/-- A statement of `stop`, unless it takes `_acceptor` away under the accept thread. -/
theorem closed_of_stop (h : Closed s) {u : Shutdown} (hu : s.threads.step .stop = some u)
    (hresets : s.resets (.thread .stop) = false) : Closed { s with threads := u } := by
  cases hlate : s.threads.stop.isLate with
  | true => exact closed_of_late h hlate hu
  | false =>
    cases hstage : s.threads.stop with
    | look => exact absurd hstage h.begun
    | cancel => exact closed_of_cancel h hstage hu
    | resetAcceptor =>
      refine closed_of_reset h hstage hu fun hposting => ?_
      rw [resets, hstage, hposting] at hresets
      cases hresets
    | _ =>
      rw [hstage] at hlate
      cases hlate

theorem closed_of_thread (h : Closed s) {l : ShutdownLabel} (hl : s.step (.thread l) = some t)
    (hresets : s.resets (.thread l) = false) : Closed t := by
  obtain ⟨u, hu, rfl⟩ := step_thread hl
  by_cases hstop : l = .stop
  · subst hstop
    exact closed_of_stop h hu hresets
  · have htakes := Shutdown.takes_of_step hu
    have hsame := Shutdown.sameMembers_of_takes htakes hstop
    have hstage := Shutdown.stop_of_takes htakes hstop
    refine ⟨h.fault, ?_, hsame.run.trans h.run, fun hlate => ?_, ?_⟩
    · rw [hstage]
      exact h.begun
    · rw [hstage] at hlate
      refine (h.gone hlate).imp hsame.acceptor.trans fun hnone => ?_
      have hlength := hsame.length
      rw [show s.threads.accept.server.services = [] from hnone] at hlength
      exact List.length_eq_zero_iff.mp hlength
    · rw [hstage]
      rcases h.safe with ⟨hwhole, hearly⟩ | hquiet | hexited
      · exact .inl ⟨Shutdown.whole_of_step hwhole hu hstop, hearly⟩
      · exact .inr (.inl (Shutdown.quiet_of_step hquiet hu))
      · exact .inr (.inr (exited_of_step hexited hu))

/-- A statement of `stop` that does. -/
theorem not_calm_of_resets (h : Closed s) (hl : s.step l = some t) (hresets : s.resets l = true) :
    ¬ t.Calm := by
  rw [resets, Bool.and_eq_true, Bool.and_eq_true, beq_iff_eq, beq_iff_eq, beq_iff_eq] at hresets
  obtain ⟨⟨rfl, hstage⟩, hposting⟩ := hresets
  obtain ⟨u, hu, rfl⟩ := step_thread hl
  have hwhole : s.threads.Whole := by
    rcases h.safe with ⟨hwhole, -⟩ | hquiet | hexited
    · exact hwhole
    · exact absurd hposting hquiet.idle
    · rw [hposting] at hexited
      cases hexited
  have hbefore : s.threads.Before := ⟨hwhole, fun _ => h.run⟩
  exact not_not.mpr (hbefore.doomed hstage hu hposting).breaks

/-! ### A server that runs -/

theorem running_of_call (h : Running s) {c : ServerCall} (hc : c ≠ .stop)
    (hl : s.step (.call c) = some t) : c.Fine s.server ∧ Running t := by
  obtain ⟨hstop, hcall⟩ := step_call hl
  cases hrun : c.isRun with
  | true =>
    obtain ⟨attempts, thread, -, hanswer, hstart⟩ := of_isRun hrun
    have hreturns : s.server.start attempts thread = (s.server, .returned) := if_pos h.run
    constructor
    · refine ⟨fun u hu => ?_, fun _ hno => by rw [h.run] at hno; cases hno⟩
      have hreturned := (hanswer s.server u).mp hu
      rw [hreturns] at hreturned
      cases hreturned
    · have hsame : s.start attempts thread = s := by
        rw [start, hreturns]
        exact if_pos h.run
      rw [hstart, hsame] at hcall
      exact Option.some.inj hcall ▸ h
  | false =>
    refine ⟨fine_of_not_isRun hrun _, ?_⟩
    cases c with
    | run attempts thread => cases hrun
    | runEc attempts thread => cases hrun
    | stop => exact absurd rfl hc
    | join =>
      rw [call, Option.ite_none_right_eq_some] at hcall
      exact Option.some.inj hcall.2 ▸ h

/-- `stop` takes `_run` down. -/
theorem closed_of_running (h : Running s) (hl : s.step (.call .stop) = some t) : Closed t := by
  obtain ⟨hstop, hcall⟩ := step_call hl
  rw [call, Shutdown.stopStep] at hcall
  dsimp only at hcall
  rw [if_pos (show s.threads.accept.server.run = true from h.run)] at hcall
  cases hcall
  refine ⟨h.fault, (fun h => by cases h), rfl, (fun hlate => by cases hlate), ?_⟩
  rcases h.safe with hwhole | hexited
  · exact .inl ⟨⟨hwhole.usable, hwhole.thread, hwhole.idle, hwhole.defined⟩, rfl⟩
  · exact .inr (.inr hexited)

theorem running_of_thread (h : Running s) {l : ShutdownLabel} (hl : s.step (.thread l) = some t) :
    Running t := by
  obtain ⟨u, hu, rfl⟩ := step_thread hl
  have hstop := ne_stop_of_returned h.stop hu
  have htakes := Shutdown.takes_of_step hu
  refine ⟨h.fault, (Shutdown.stop_of_takes htakes hstop).trans h.stop,
    (Shutdown.sameMembers_of_takes htakes hstop).run.trans h.run, ?_⟩
  exact h.safe.imp (fun hwhole => Shutdown.whole_of_step hwhole hu hstop)
    fun hexited => exited_of_step hexited hu

/-! ### A server that has not run yet -/

/-- `run` does what it is for. -/
theorem running_of_fresh (h : Fresh s) {c : ServerCall} (hc : c.isRun = true)
    (hl : s.step (.call c) = some t) : c.Fine s.server ∧ Running t := by
  obtain ⟨hstop, hcall⟩ := step_call hl
  obtain ⟨attempts, thread, -, hanswer, hstart⟩ := of_isRun hc
  obtain ⟨-, -, hdefined⟩ := BasicServer.start_usable h.usable h.run attempts thread
  refine ⟨⟨fun u hu => hdefined u ((hanswer s.server u).mp hu),
    fun _ _ hno => absurd h.usable hno⟩, ?_⟩
  rw [hstart] at hcall
  cases hcall
  obtain ⟨flag, pos, hpost, hpos⟩ := BasicServer.postAccept_usable h.usable attempts
  rw [start, BasicServer.start, h.run, if_neg (by decide), hpost]
  cases thread with
  | done =>
    -- the accept thread waits, and all it will use is there
    have hidle : (s.withThread { s.server with
        flag := flag, pos := pos, run := true, thread := true }).threads.accept.Idle := ⟨pos, rfl⟩
    exact ⟨h.fault, h.stop, rfl, .inl ⟨⟨h.usable.1, hpos⟩, rfl,
      iff_of_true hidle (fun h => by cases h), fun u hu => by cases hu⟩⟩
  | badAlloc => exact ⟨h.fault, h.stop, rfl, .inr h.exited⟩
  | systemError ev => exact ⟨h.fault, h.stop, rfl, .inr h.exited⟩

theorem fresh_of_thread (h : Fresh s) {l : ShutdownLabel} (hl : s.step (.thread l) = some t) :
    Fresh t := by
  obtain ⟨u, hu, rfl⟩ := step_thread hl
  have hstop := ne_stop_of_returned h.stop hu
  have htakes := Shutdown.takes_of_step hu
  refine ⟨h.fault, (Shutdown.stop_of_takes htakes hstop).trans h.stop, exited_of_step h.exited hu,
    (Shutdown.sameMembers_of_takes htakes hstop).run.trans h.run, ?_⟩
  exact Shutdown.usable_of_step h.usable hu hstop

/-! ## Runs -/

theorem AllFine.calm {ls : List ServerLabel} (h : s.AllFine ls) : s.Calm := by
  cases ls with
  | nil => exact h
  | cons l ls => exact h.1

/-- A step that is fine. -/
theorem allFine_cons (hcalm : s.Calm) (hfine : ∀ c, l = .call c → c.Fine s.server)
    (hl : s.step l = some t) (ls : List ServerLabel) : s.AllFine (l :: ls) ↔ t.AllFine ls := by
  constructor
  · intro hall
    exact hall.2.2 t hl
  · intro hall
    refine ⟨hcalm, hfine, fun u hu => ?_⟩
    cases hl.symm.trans hu
    exact hall

theorem allFine_call (hcalm : s.Calm) {c : ServerCall} (hfine : c.Fine s.server)
    (hl : s.step (.call c) = some t) (ls : List ServerLabel) :
    s.AllFine (.call c :: ls) ↔ t.AllFine ls := by
  refine allFine_cons hcalm (fun c' hc => ?_) hl ls
  cases hc
  exact hfine

theorem allFine_thread (hcalm : s.Calm) {l : ShutdownLabel} (hl : s.step (.thread l) = some t)
    (ls : List ServerLabel) : s.AllFine (.thread l :: ls) ↔ t.AllFine ls :=
  allFine_cons hcalm (fun c hc => by cases hc) hl ls

theorem resetsInside_cons (hl : s.step l = some t) (ls : List ServerLabel) :
    s.resetsInside (l :: ls) = (s.resets l || t.resetsInside ls) := by
  rw [resetsInside, hl]

theorem callsOf_call (c : ServerCall) (ls : List ServerLabel) :
    callsOf (.call c :: ls) = c :: callsOf ls := rfl

theorem callsOf_thread (l : ShutdownLabel) (ls : List ServerLabel) :
    callsOf (.thread l :: ls) = callsOf ls := rfl

theorem resets_call (s : ServerCalls) (c : ServerCall) : s.resets (.call c) = false := rfl

theorem resets_of_returned (h : s.threads.stop = .returned) (l : ServerLabel) :
    s.resets l = false := by
  rw [resets, h, show (StopStage.returned == .resetAcceptor) = false from rfl,
    Bool.and_false, Bool.false_and]

theorem runAfterStop_of_hasRun {cs : List ServerCall} (h : hasRun cs = false) :
    runAfterStop cs = false := by
  induction cs with
  | nil => rfl
  | cons c cs ih =>
    have hcs : hasRun cs = false := by
      rw [hasRun, List.any_cons, Bool.or_eq_false_iff] at h
      exact h.2
    rw [runAfterStop, hcs, Bool.and_false, ih hcs, Bool.or_false]

theorem restarts_of_runAfterStop {cs : List ServerCall} (h : runAfterStop cs = false) :
    restarts cs = false := by
  induction cs with
  | nil => rfl
  | cons c cs ih =>
    have hcs : runAfterStop cs = false := by
      rw [runAfterStop, Bool.or_eq_false_iff] at h
      exact h.2
    rw [restarts, hcs, Bool.and_false, ih hcs, Bool.or_false]

theorem hasRun_cons (c : ServerCall) (cs : List ServerCall) :
    hasRun (c :: cs) = (c.isRun || hasRun cs) := List.any_cons

/-- A server that is closed: no `run` may come, and `_acceptor` must not go under the accept
thread. -/
theorem closed_iff (h : Closed s) {ls : List ServerLabel} (hexec : exec step s ls = some t) :
    s.AllFine ls ↔ hasRun (callsOf ls) = false ∧ s.resetsInside ls = false := by
  induction ls generalizing s with
  | nil => exact iff_of_true h.calm ⟨rfl, rfl⟩
  | cons l ls ih =>
    obtain ⟨u, hu, hrest⟩ := exec_cons.mp hexec
    rw [resetsInside_cons hu]
    cases l with
    | call c =>
      rw [callsOf_call, hasRun_cons, resets_call, Bool.false_or]
      cases hc : c.isRun with
      | true =>
        refine iff_of_false (fun hall => ?_) fun h => by cases h.1
        exact h.not_fine (step_call hu).1 hc (hall.2.1 c rfl)
      | false =>
        have heq := eq_of_call h.run hc hu
        subst heq
        rw [Bool.false_or, ← ih h hrest]
        exact allFine_call h.calm (fine_of_not_isRun hc _) hu ls
    | thread l =>
      rw [callsOf_thread]
      cases hresets : s.resets (.thread l) with
      | true =>
        refine iff_of_false (fun hall => ?_) fun h => by cases h.2
        exact not_calm_of_resets h hu hresets (hall.2.2 u hu).calm
      | false =>
        rw [Bool.false_or, ← ih (closed_of_thread h hu hresets) hrest]
        exact allFine_thread h.calm hu ls

/-- A server that runs: no `run` may come after a `stop`. -/
theorem running_iff (h : Running s) {ls : List ServerLabel} (hexec : exec step s ls = some t) :
    s.AllFine ls ↔ runAfterStop (callsOf ls) = false ∧ s.resetsInside ls = false := by
  induction ls generalizing s with
  | nil => exact iff_of_true h.calm ⟨rfl, rfl⟩
  | cons l ls ih =>
    obtain ⟨u, hu, hrest⟩ := exec_cons.mp hexec
    rw [resetsInside_cons hu]
    cases l with
    | call c =>
      rw [callsOf_call, resets_call, Bool.false_or, runAfterStop]
      by_cases hstop : c = .stop
      · -- from here on the server is closed
        subst hstop
        rw [allFine_call h.calm (fine_of_not_isRun rfl _) hu,
          closed_iff (closed_of_running h hu) hrest, beq_self_eq_true, Bool.true_and,
          Bool.or_eq_false_iff]
        exact and_congr_left fun _ => (and_iff_left_of_imp runAfterStop_of_hasRun).symm
      · obtain ⟨hfine, hrunning⟩ := running_of_call h hstop hu
        rw [beq_eq_false_iff_ne.mpr hstop, Bool.false_and, Bool.false_or, ← ih hrunning hrest]
        exact allFine_call h.calm hfine hu ls
    | thread l =>
      rw [callsOf_thread, resets_of_returned h.stop, Bool.false_or,
        ← ih (running_of_thread h hu) hrest]
      exact allFine_thread h.calm hu ls

/-- A server that has not run yet: no `run` may come after a `stop` after a `run`. -/
theorem fresh_iff (h : Fresh s) {ls : List ServerLabel} (hexec : exec step s ls = some t) :
    s.AllFine ls ↔ restarts (callsOf ls) = false ∧ s.resetsInside ls = false := by
  induction ls generalizing s with
  | nil => exact iff_of_true h.calm ⟨rfl, rfl⟩
  | cons l ls ih =>
    obtain ⟨u, hu, hrest⟩ := exec_cons.mp hexec
    rw [resetsInside_cons hu]
    cases l with
    | call c =>
      rw [callsOf_call, resets_call, Bool.false_or, restarts]
      cases hc : c.isRun with
      | true =>
        obtain ⟨hfine, hrunning⟩ := running_of_fresh h hc hu
        rw [allFine_call h.calm hfine hu, running_iff hrunning hrest, Bool.true_and,
          Bool.or_eq_false_iff]
        exact and_congr_left fun _ => (and_iff_left_of_imp restarts_of_runAfterStop).symm
      | false =>
        have heq := eq_of_call h.run hc hu
        subst heq
        rw [Bool.false_and, Bool.false_or, ← ih h hrest]
        exact allFine_call h.calm (fine_of_not_isRun hc _) hu ls
    | thread l =>
      rw [callsOf_thread, resets_of_returned h.stop, Bool.false_or,
        ← ih (fresh_of_thread h hu) hrest]
      exact allFine_thread h.calm hu ls

theorem exited_of_call (h : s.threads.handler = .exited) {c : ServerCall} (hc : c.isRun = false)
    (hl : s.step (.call c) = some t) : t.threads.handler = .exited := by
  obtain ⟨-, hcall⟩ := step_call hl
  cases c with
  | run attempts thread => cases hc
  | runEc attempts thread => cases hc
  | stop =>
    obtain ⟨u, hu, rfl⟩ := Option.map_eq_some_iff.mp hcall
    exact exited_of_step (t := { s.threads with stop := .look }) (l := .stop) h hu
  | join =>
    rw [call, Option.ite_none_right_eq_some] at hcall
    exact Option.some.inj hcall.2 ▸ h

/-- Without a `run` nothing is reset under the accept thread: there is none. -/
theorem resetsInside_of_exited (h : s.threads.handler = .exited) {ls : List ServerLabel}
    (hexec : exec step s ls = some t) (hcalls : hasRun (callsOf ls) = false) :
    s.resetsInside ls = false := by
  induction ls generalizing s with
  | nil => rfl
  | cons l ls ih =>
    obtain ⟨u, hu, hrest⟩ := exec_cons.mp hexec
    have hresets : s.resets l = false := by
      rw [resets, h, show (HandlerStage.exited == .posting) = false from rfl, Bool.and_false]
    rw [resetsInside_cons hu, hresets, Bool.false_or]
    cases l with
    | call c =>
      rw [callsOf_call, hasRun_cons, Bool.or_eq_false_iff] at hcalls
      exact ih (exited_of_call h hcalls.1 hu) hrest hcalls.2
    | thread l =>
      obtain ⟨v, hv, rfl⟩ := step_thread hu
      exact ih (exited_of_step h hv) hrest hcalls

end Modes

/-- A constructed server that cannot run has no acceptor, or no service. -/
theorem closed_initial {server : BasicServer} (hrun : server.run = false) (hpos : server.pos = 0)
    (h : ¬ server.Usable) : Closed (initial server) := by
  refine ⟨rfl, (fun h => by cases h), hrun, fun _ => ?_, .inr (.inr rfl)⟩
  by_contra hgone
  rw [not_or, Bool.not_eq_false, ← ne_eq, ← List.length_pos_iff] at hgone
  exact h ⟨hgone.1, hpos ▸ hgone.2⟩

/-- **Which runs are fine**: for every outcome of construction, by either constructor, that
leaves a live object, and every sequence of calls with the steps of the threads in between,
every call is fine, and the accept thread wherever the run comes, if and only if there is no
`run` in it; or construction got as far as an acceptor and a first service, no `run` comes
after a `stop` after a `run`, and no `stop` resets `_acceptor` while the accept thread is
between its look at `_run` and `async_accept`. -/
theorem allFine_iff (ctor : BasicServer.Constructor) (laddr : List Char) (poll timeout : Nat)
    (env : Environment) (server : BasicServer)
    (h : (BasicServer.construct ctor laddr poll timeout env).1 = some server)
    (ls : List ServerLabel) (t : ServerCalls) (hexec : exec step (initial server) ls = some t) :
    (initial server).AllFine ls ↔ hasRun (callsOf ls) = false ∨
      BasicServer.Builds laddr env ∧ restarts (callsOf ls) = false ∧
        (initial server).resetsInside ls = false := by
  obtain ⟨hrun, husable⟩ := BasicServer.construct_spec h
  by_cases hb : BasicServer.Builds laddr env
  · have hfresh : Fresh (initial server) := ⟨rfl, rfl, rfl, hrun, husable.mpr hb⟩
    rw [fresh_iff hfresh hexec]
    constructor
    · exact fun hno => .inr ⟨hb, hno⟩
    · rintro (hno | ⟨-, hno⟩)
      · exact ⟨restarts_of_runAfterStop (runAfterStop_of_hasRun hno),
          resetsInside_of_exited rfl hexec hno⟩
      · exact hno
  · have hpos := (BasicServer.fresh_construct h).1
    rw [closed_iff (closed_initial hrun hpos fun hu => hb (husable.mp hu)) hexec]
    constructor
    · exact fun hno => .inl hno.1
    · intro hno
      have hnone := hno.resolve_right fun h' => hb h'.1
      exact ⟨hnone, resetsInside_of_exited rfl hexec hnone⟩

/-- The server runs and takes a connection, and `stop` returns. -/
def runAndStop : List ServerLabel :=
  [.call (.run [] .done), .thread (.complete true), .thread .look, .thread (.accept .enter),
    .thread (.accept .look), .thread (.accept .leave), .thread (.accept .post), .call .stop,
    .thread (.accept (.start 0)), .thread .stop, .thread .stop, .thread (.complete false),
    .thread .look, .thread .exit, .thread .stop, .thread .stop, .thread .stop, .thread .stop,
    .thread .stop, .thread .stop, .thread .stop, .call .join]

theorem allFine_iff_runAndStop :
    ∃ server t, BasicServer.construct .throwing [':', ':', '1', ':', '8', '0'] 1 0
        (BasicServer.host 2) = (some server, none) ∧
      exec step (initial server) runAndStop = some t ∧ (initial server).AllFine runAndStop :=
  ⟨_, _, rfl, rfl, (allFine_iff .throwing [':', ':', '1', ':', '8', '0'] 1 0 (BasicServer.host 2)
    _ rfl _ _ rfl).mpr <|
      .inr ⟨⟨⟨3, rfl, by decide⟩, rfl, rfl, by decide, rfl, rfl, rfl, rfl⟩, rfl, rfl⟩⟩

/-- The server runs and stops, and is to run again. -/
def restart : List ServerLabel :=
  [.call (.run [] .done), .call .stop, .thread .stop, .thread .stop, .thread .stop, .thread .exit,
    .thread .stop, .thread .stop, .thread .stop, .thread .stop, .thread .stop, .thread .stop,
    .call (.runEc [] .done)]

/-- `stop` resets `_acceptor` while a connection comes in. -/
def stopInside : List ServerLabel :=
  [.call (.run [] .done), .thread (.complete true), .thread .look, .call .stop, .thread .stop,
    .thread .stop, .thread (.accept .enter), .thread (.accept .look), .thread (.accept .leave),
    .thread (.accept .post)]

/-- The run comes to something undefined. -/
def Fails (server : BasicServer) (ls : List ServerLabel) (u : Undefined) : Prop :=
  ∃ t, exec step (initial server) ls = some t ∧
    (t.fault = some u ∨ t.threads.handler = .undefined u)

/-- An address without a colon, a processor count of 0, and a second `run` after `stop`: each
time `run` looks for a service that is not there. And `stop` while a connection comes in: the
accept thread looks for an acceptor that is not there. -/
theorem run_undefined :
    (∃ server, BasicServer.construct .errorCode ['8', '0'] 1 0 (BasicServer.host 2) =
        (some server, some (.code serverCodeBadAddr)) ∧
      Fails server [.call (.run [] .done)] .badIndex) ∧
    (∃ server, BasicServer.construct .throwing [':', ':', '1', ':', '8', '0'] 1 0
        (BasicServer.host 0) = (some server, none) ∧
      Fails server [.call (.run [] .done)] .badIndex) ∧
    ∃ server, BasicServer.construct .throwing [':', ':', '1', ':', '8', '0'] 1 0
        (BasicServer.host 2) = (some server, none) ∧
      Fails server restart .badIndex ∧ Fails server stopInside .nullAcceptor :=
  ⟨⟨_, rfl, _, rfl, .inl rfl⟩, ⟨_, rfl, _, rfl, .inl rfl⟩,
    _, rfl, ⟨_, rfl, .inl rfl⟩, _, rfl, .inr rfl⟩

end ServerCalls

end KgCpp.Net
