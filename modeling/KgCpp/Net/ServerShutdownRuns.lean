import KgCpp.Net.BasicServerRuns
import KgCpp.Net.ServerShutdown

/-!
# When `stop` returns

`stop_returns_iff`: `stop` can return, and nothing undefined happens, if and only if the
accept thread is not between its look at `_run` and `async_accept` when `_acceptor` is
reset. Otherwise it is lost: it can only fail to post for ever, or use the null `_acceptor`
or an element of `_services` that is gone, and `stop` waits for it.

Until the reset everything that `post_accept` uses is there (`Before`). After it the
accept thread either does not post any more, for `_run` is down (`Quiet`), or has not got to
`async_accept` (`Doomed`), and stays so.
-/

namespace KgCpp.Net

open Lib

/-- A server that `run` has returned from. -/
structure BasicServer.Up (s : BasicServer) : Prop where
  run : s.run = true
  service : s.service = true
  thread : s.thread = true
  usable : s.Usable

/-- `run` leaves such a server. -/
theorem BasicServer.up_start {s : BasicServer} (h : s.Usable) (hrun : s.run = false)
    (hservice : s.service = true) (attempts : List Attempt) : (s.start attempts .done).1.Up := by
  obtain ⟨flag, pos, hpost, hpos⟩ := postAccept_usable h attempts
  rw [start, hrun, if_neg (by decide), hpost]
  exact ⟨rfl, hservice, rfl, h.1, hpos⟩

/-! ## The accept thread -/

namespace AcceptThread

/-- An accept is posted, and `post_accept` is not under way. -/
def Idle (s : AcceptThread) : Prop := ∃ i, s.phase = .accepting i

/-- What the accept thread and the service threads leave as it is. -/
structure SameMembers (s t : BasicServer) : Prop where
  run : t.run = s.run
  acceptor : t.acceptor = s.acceptor
  service : t.service = s.service
  thread : t.thread = s.thread
  length : t.services.length = s.services.length

theorem SameMembers.refl (s : BasicServer) : SameMembers s s := ⟨rfl, rfl, rfl, rfl, rfl⟩

section Step

variable {s t : AcceptThread} {l : AcceptLabel}

theorem sameMembers_of_step (hl : s.step l = some t) : SameMembers s.server t.server := by
  cases takes_of_step hl with
  | enter => unfold enter; split <;> exact ⟨rfl, rfl, rfl, rfl, rfl⟩
  | look => unfold look; split <;> exact ⟨rfl, rfl, rfl, rfl, rfl⟩
  | leave => exact ⟨rfl, rfl, rfl, rfl, rfl⟩
  | fail => exact ⟨rfl, rfl, rfl, rfl, rfl⟩
  | post => exact ⟨rfl, rfl, rfl, rfl, rfl⟩
  | complete => exact ⟨rfl, rfl, rfl, rfl, rfl⟩
  | start => exact ⟨rfl, rfl, rfl, rfl, List.length_modify ..⟩
  | finish => exact ⟨rfl, rfl, rfl, rfl, List.length_modify ..⟩

/-- `_pos` stays within `_services`. -/
theorem pos_of_step (hl : s.step l = some t) (hpos : s.server.pos < s.server.services.length) :
    t.server.pos < t.server.services.length := by
  rw [(sameMembers_of_step hl).length]
  cases takes_of_step hl with
  | enter =>
    unfold enter
    split
    · exact hpos
    · exact Nat.zero_lt_of_lt hpos
  | look _ hk =>
    unfold look
    split
    · exact hk
    · exact hpos
  | leave => exact hpos
  | fail => exact hpos
  | post => exact hpos
  | complete => exact hpos
  | start => exact hpos
  | finish => exact hpos

theorem phase_of_count (hl : s.step l = some t) (hcount : l.isCount = true) :
    t.phase = s.phase := by
  cases takes_of_step hl with
  | start => rfl
  | finish => rfl
  | _ => cases hcount

/-- `post_accept` ends with the accept posted, and not before. -/
theorem idle_iff_post (hl : s.step l = some t) (hcount : l.isCount = false) :
    t.Idle ↔ l = .post := by
  cases takes_of_step hl with
  | enter =>
    unfold enter
    split <;> exact iff_of_false (fun ⟨_, hi⟩ => by cases hi) (fun h => by cases h)
  | look =>
    unfold look
    split <;> exact iff_of_false (fun ⟨_, hi⟩ => by cases hi) (fun h => by cases h)
  | leave => exact iff_of_false (fun ⟨_, hi⟩ => by cases hi) (fun h => by cases h)
  | fail => exact iff_of_false (fun ⟨_, hi⟩ => by cases hi) (fun h => by cases h)
  | post => exact iff_of_true ⟨_, rfl⟩ rfl
  | complete => exact iff_of_false (fun ⟨_, hi⟩ => by cases hi) (fun h => by cases h)
  | start => cases hcount
  | finish => cases hcount

/-- Everything that `post_accept` uses is there. -/
theorem fault_usable (h : s.server.Usable) (l : AcceptLabel) : s.fault l = none := by
  cases l with
  | enter =>
    rw [fault]
    split
    · exact if_pos h.2
    · rfl
  | leave =>
    rw [fault]
    split
    · exact if_pos (.inr h.2)
    · rfl
  | post =>
    rw [fault]
    split
    · exact if_pos h.1
    · rfl
  | _ => rfl

/-- There is no posting without an acceptor. -/
theorem fault_post (hl : s.step .post = some t) (hacc : s.server.acceptor = false) :
    s.fault .post ≠ none := by
  cases takes_of_step hl with
  | post _ hacceptor =>
    rw [hacc] at hacceptor
    cases hacceptor

end Step

end AcceptThread

/-- `_acceptor` has been reset. -/
def StopStage.isLate : StopStage → Bool
  | .look => false
  | .cancel => false
  | .resetAcceptor => false
  | _ => true

namespace Shutdown

/-- Everything that `post_accept` uses is there. -/
structure Whole (s : Shutdown) : Prop where
  usable : s.accept.server.Usable
  thread : s.accept.server.thread = true
  idle : s.accept.Idle ↔ s.handler ≠ .posting
  defined : ∀ u, s.handler ≠ .undefined u

/-- It is, and `stop` has taken `_run` down once it is past its look at it. -/
structure Before (s : Shutdown) : Prop extends Whole s where
  run : s.stop ≠ .look → s.accept.server.run = false

/-- `_acceptor` is gone, and the accept thread posts no more. -/
structure Quiet (s : Shutdown) : Prop where
  late : s.stop.isLate = true
  run : s.accept.server.run = false
  idle : s.handler ≠ .posting
  defined : ∀ u, s.handler ≠ .undefined u

/-- `_acceptor` is gone, and the accept thread has not got to `async_accept`. -/
structure Doomed (s : Shutdown) : Prop where
  late : s.stop.isLate = true
  acceptor : s.accept.server.acceptor = false
  thread : s.accept.server.thread = true
  waits : s.stop ≠ .returned
  lost : s.handler = .posting ∧ ¬ s.accept.Idle ∨ ∃ u, s.handler = .undefined u

/-- What the rest of `stop` does. -/
structure StopsOn (s t : Shutdown) : Prop where
  late : t.stop.isLate = true
  handler : t.handler = s.handler
  phase : t.accept.phase = s.accept.phase
  run : t.accept.server.run = s.accept.server.run
  acceptor : s.accept.server.acceptor = false → t.accept.server.acceptor = false
  services : s.accept.server.services = [] → t.accept.server.services = []
  joins : (t.stop ≠ .returned ∧ t.accept.server.thread = s.accept.server.thread) ∨
    s.accept.server.thread = false ∨ s.handler = .exited

section Step

variable {s t : Shutdown} {l : ShutdownLabel}

theorem stopsOn_of_late (hl : s.stopStep = some t) (hlate : s.stop.isLate = true) :
    StopsOn s t := by
  unfold stopStep at hl
  dsimp only at hl
  split at hl
  · rename_i hstage
    rw [hstage] at hlate
    cases hlate
  · rename_i hstage
    rw [hstage] at hlate
    cases hlate
  · rename_i hstage
    rw [hstage] at hlate
    cases hlate
  · split at hl <;> cases hl
    · exact ⟨rfl, rfl, rfl, rfl, id, id, .inl ⟨(fun h => by cases h), rfl⟩⟩
    · exact ⟨rfl, rfl, rfl, rfl, id, id, .inl ⟨(fun h => by cases h), rfl⟩⟩
  · cases hl
    exact ⟨rfl, rfl, rfl, rfl, id, id, .inl ⟨(fun h => by cases h), rfl⟩⟩
  · cases hl
    refine ⟨?_, rfl, rfl, rfl, id, id, .inl ⟨?_, rfl⟩⟩
    · dsimp only
      split <;> rfl
    · dsimp only
      split <;> exact fun h => by cases h
  · cases hl
    exact ⟨rfl, rfl, rfl, rfl, id, fun _ => rfl, .inl ⟨(fun h => by cases h), rfl⟩⟩
  · split at hl <;> cases hl
    rename_i hjoins
    exact ⟨rfl, rfl, rfl, rfl, id, id, .inr hjoins⟩
  · cases hl

/-- Only `stop` goes on with `stop`. -/
theorem stop_of_takes (h : Takes s l t) (hl : l ≠ .stop) : t.stop = s.stop := by
  cases h with
  | stop => exact absurd rfl hl
  | _ => rfl

theorem late_of_step (hl : s.step l = some t) (hlate : s.stop.isLate = true) :
    t.stop.isLate = true := by
  by_cases hstop : l = .stop
  · subst hstop
    exact (stopsOn_of_late hl hlate).late
  · rw [stop_of_takes (takes_of_step hl) hstop]
    exact hlate

theorem sameMembers_of_takes (h : Takes s l t) (hl : l ≠ .stop) :
    AcceptThread.SameMembers s.accept.server t.accept.server := by
  cases h with
  | goesOn _ _ ha => exact AcceptThread.sameMembers_of_step ha
  | counts _ ha => exact AcceptThread.sameMembers_of_step ha
  | posts _ _ _ ha => exact AcceptThread.sameMembers_of_step ha
  | stop => exact absurd rfl hl
  | _ => exact .refl _

/-- The accept thread and the service threads take nothing away. -/
theorem usable_of_step (h : s.accept.server.Usable) (hl : s.step l = some t) (hstop : l ≠ .stop) :
    t.accept.server.Usable := by
  have hacceptor := (sameMembers_of_takes (takes_of_step hl) hstop).acceptor.trans h.1
  cases takes_of_step hl with
  | goesOn _ _ ha => exact ⟨hacceptor, AcceptThread.pos_of_step ha h.2⟩
  | counts _ ha => exact ⟨hacceptor, AcceptThread.pos_of_step ha h.2⟩
  | posts _ _ _ ha => exact ⟨hacceptor, AcceptThread.pos_of_step ha h.2⟩
  | stop => exact absurd rfl hstop
  | _ => exact h

theorem whole_of_step (h : Whole s) (hl : s.step l = some t) (hstop : l ≠ .stop) : Whole t := by
  have husable := usable_of_step h.usable hl hstop
  have hthread := (sameMembers_of_takes (takes_of_step hl) hstop).thread.trans h.thread
  cases takes_of_step hl with
  | complete hhandler =>
    have hidle := h.idle.mpr (by rw [hhandler]; exact fun h => by cases h)
    exact ⟨h.usable, h.thread, iff_of_true hidle (fun h => by cases h), fun u hu => by cases hu⟩
  | goesOn hhandler hrun ha =>
    refine ⟨husable, hthread, iff_of_false ?_ (fun hne => hne rfl), fun u hu => by cases hu⟩
    rw [AcceptThread.idle_iff_post ha rfl]
    exact fun h => by cases h
  | declines hhandler =>
    have hidle := h.idle.mpr (by rw [hhandler]; exact fun h => by cases h)
    exact ⟨h.usable, h.thread, iff_of_true hidle (fun h => by cases h), fun u hu => by cases hu⟩
  | counts hcount ha =>
    refine ⟨husable, hthread, ?_, h.defined⟩
    rw [AcceptThread.Idle, AcceptThread.phase_of_count ha hcount]
    exact h.idle
  | faults _ hfault =>
    rw [AcceptThread.fault_usable h.usable] at hfault
    cases hfault
  | @posts l a hcount _ _ ha =>
    refine ⟨husable, hthread, ?_, fun u hu => ?_⟩
    · rw [AcceptThread.idle_iff_post ha hcount]
      by_cases hpost : l = .post <;> simp [hpost]
    · split at hu <;> cases hu
  | exit hhandler =>
    have hidle := h.idle.mpr (by rcases hhandler with h | h <;> simp [h])
    exact ⟨h.usable, h.thread, iff_of_true hidle (fun h => by cases h), fun u hu => by cases hu⟩
  | stop => exact absurd rfl hstop

/-- Nor does `stop` before the reset. -/
theorem before_of_stopStep (h : Before s) (ht : s.stopStep = some t)
    (hlate : t.stop.isLate = false) : Before t := by
  unfold stopStep at ht
  dsimp only at ht
  split at ht
  · split at ht <;> cases ht
    · exact ⟨⟨h.usable, h.thread, h.idle, h.defined⟩, fun _ => rfl⟩
    · cases hlate
  · rename_i hstage
    cases ht
    exact ⟨⟨h.usable, h.thread, h.idle, h.defined⟩,
      fun _ => h.run (by rw [hstage]; exact fun h => by cases h)⟩
  · cases ht
    cases hlate
  · rename_i hstage
    split at ht <;> cases ht <;> cases hlate
  · cases ht
    cases hlate
  · cases ht
    dsimp only at hlate
    split at hlate <;> cases hlate
  · cases ht
    cases hlate
  · split at ht <;> cases ht
    cases hlate
  · cases ht

/-- A step that comes before the reset. -/
theorem before_of_step (h : Before s) (hl : s.step l = some t) (hlate : t.stop.isLate = false) :
    Before t := by
  by_cases hstop : l = .stop
  · subst hstop
    exact before_of_stopStep h hl hlate
  · have htakes := takes_of_step hl
    refine ⟨whole_of_step h.toWhole hl hstop, fun hne => ?_⟩
    rw [stop_of_takes htakes hstop] at hne
    exact (sameMembers_of_takes htakes hstop).run.trans (h.run hne)

/-- `_acceptor` is reset. -/
theorem reset_of_stage (hstage : s.stop = .resetAcceptor) (hl : s.step .stop = some t) :
    t = { s.withServer { s.accept.server with acceptor := false } with stop := .stopService } := by
  rw [step, stopStep, hstage] at hl
  exact (Option.some.inj hl).symm

theorem Before.quiet (h : Before s) (hstage : s.stop = .resetAcceptor)
    (hl : s.step .stop = some t) (hposting : s.handler ≠ .posting) : Quiet t := by
  obtain rfl := reset_of_stage hstage hl
  exact ⟨rfl, h.run (by rw [hstage]; exact fun h => by cases h), hposting, h.defined⟩

theorem Before.doomed (h : Before s) (hstage : s.stop = .resetAcceptor)
    (hl : s.step .stop = some t) (hposting : s.handler = .posting) : Doomed t := by
  obtain rfl := reset_of_stage hstage hl
  exact ⟨rfl, rfl, h.thread, (fun h => by cases h),
    .inl ⟨hposting, fun hidle => h.idle.mp hidle hposting⟩⟩

theorem quiet_of_step (h : Quiet s) (hl : s.step l = some t) : Quiet t := by
  have hlate := late_of_step hl h.late
  cases takes_of_step hl with
  | complete => exact ⟨hlate, h.run, (fun h => by cases h), fun u hu => by cases hu⟩
  | goesOn _ hrun =>
    rw [h.run] at hrun
    cases hrun
  | declines => exact ⟨hlate, h.run, (fun h => by cases h), fun u hu => by cases hu⟩
  | counts _ ha =>
    exact ⟨hlate, (AcceptThread.sameMembers_of_step ha).run.trans h.run, h.idle, h.defined⟩
  | faults hhandler => exact absurd hhandler h.idle
  | posts _ hhandler => exact absurd hhandler h.idle
  | exit => exact ⟨hlate, h.run, (fun h => by cases h), fun u hu => by cases hu⟩
  | stop ht =>
    have hon := stopsOn_of_late ht h.late
    exact ⟨hlate, hon.run.trans h.run, hon.handler ▸ h.idle, hon.handler ▸ h.defined⟩

/-- The accept thread is in its handler, or lost. -/
theorem Doomed.handler_ne (h : Doomed s) : s.handler ≠ .waiting ∧ (∀ ok, s.handler ≠ .entered ok) ∧
    s.handler ≠ .declined ∧ s.handler ≠ .exited := by
  rcases h.lost with ⟨hhandler, -⟩ | ⟨u, hhandler⟩ <;> rw [hhandler] <;> simp

theorem doomed_of_step (h : Doomed s) (hl : s.step l = some t) : Doomed t := by
  have hlate := late_of_step hl h.late
  obtain ⟨hwaiting, hentered, hdeclined, hexited⟩ := h.handler_ne
  cases takes_of_step hl with
  | complete hhandler => exact absurd hhandler hwaiting
  | goesOn hhandler => exact absurd hhandler (hentered _)
  | declines hhandler => exact absurd hhandler (hentered _)
  | counts hcount ha =>
    have hsame := AcceptThread.sameMembers_of_step ha
    refine ⟨hlate, hsame.acceptor.trans h.acceptor, hsame.thread.trans h.thread, h.waits, ?_⟩
    rw [AcceptThread.Idle, AcceptThread.phase_of_count ha hcount]
    exact h.lost
  | faults => exact ⟨hlate, h.acceptor, h.thread, h.waits, .inr ⟨_, rfl⟩⟩
  | @posts l a hcount _ hfault ha =>
    have hsame := AcceptThread.sameMembers_of_step ha
    have hpost : l ≠ .post := by
      rintro rfl
      exact AcceptThread.fault_post ha h.acceptor hfault
    refine ⟨hlate, hsame.acceptor.trans h.acceptor, hsame.thread.trans h.thread, h.waits,
      .inl ⟨if_neg hpost, ?_⟩⟩
    rw [AcceptThread.idle_iff_post ha hcount]
    exact hpost
  | exit hhandler => exact absurd hhandler (by simp [hwaiting, hdeclined])
  | stop ht =>
    have hon := stopsOn_of_late ht h.late
    rcases hon.joins with ⟨hreturned, hthread⟩ | hthread | hhandler
    · refine ⟨hlate, hon.acceptor h.acceptor, hthread.trans h.thread, hreturned, ?_⟩
      rw [AcceptThread.Idle, hon.handler, hon.phase]
      exact h.lost
    · rw [h.thread] at hthread
      cases hthread
    · exact absurd hhandler hexited

end Step

/-! ## Where they lead -/

/-- `stop` has returned. -/
def Returned (s : Shutdown) : Prop := s.stop = .returned

/-- Something undefined has happened. -/
def Broken (s : Shutdown) : Prop := ∃ u, s.handler = .undefined u

section Quiet

variable {s : Shutdown}

theorem reaches_exit
    (hexit : s.handler = .declined ∨ s.handler = .waiting ∧ s.stopped = true) :
    Reaches step (fun t => t.handler = .exited) s :=
  .cons (i := .exit) (if_pos hexit) (.here rfl)

theorem reaches_decline (h : Quiet s) {ok : Bool} (hentered : s.handler = .entered ok) :
    Reaches step (fun t => t.handler = .exited) s := by
  have hlook : s.step .look = some { s with handler := .declined } := by
    rw [step, look, hentered]
    dsimp only
    rw [h.run, if_neg (by decide)]
  exact .cons hlook (reaches_exit (.inl rfl))

/-- The accept thread comes to its end. -/
theorem reaches_exited (h : Quiet s) : Reaches step (fun t => t.handler = .exited) s := by
  cases hhandler : s.handler with
  | waiting =>
    cases hstopped : s.stopped with
    | true => exact reaches_exit (.inr ⟨hhandler, hstopped⟩)
    | false =>
      -- the accept that was posted ends with an error
      have hcomplete : s.step (.complete false) = some { s with handler := .entered false } :=
        if_pos ⟨hhandler, hstopped⟩
      exact .cons hcomplete (reaches_decline (quiet_of_step h hcomplete) rfl)
  | entered ok => exact reaches_decline h hhandler
  | declined => exact reaches_exit (.inl hhandler)
  | exited => exact .here hhandler
  | posting => exact absurd hhandler h.idle
  | undefined u => exact absurd hhandler (h.defined u)

/-- A statement of `stop`. -/
theorem reaches_stop {t : Shutdown} (ht : s.stopStep = some t) (h : Reaches step Returned t) :
    Reaches step Returned s := .cons (i := .stop) ht h

theorem reaches_join (hexited : s.handler = .exited) (hstage : s.stop = .join) :
    Reaches step Returned s := by
  have hjoin : s.stopStep = some { s.withServer { s.accept.server with thread := false } with
      stop := .returned } := by
    rw [stopStep, hstage]
    exact if_pos (.inr hexited)
  exact reaches_stop hjoin (.here rfl)

theorem reaches_clear (hexited : s.handler = .exited) (hstage : s.stop = .clearServices) :
    Reaches step Returned s := by
  have hclear : s.stopStep = some { s.withServer { s.accept.server with services := [] } with
      stop := .join } := by
    rw [stopStep, hstage]
  exact reaches_stop hclear (reaches_join hexited rfl)

/-- The loop over the services. -/
theorem reaches_services (n : Nat) {i : Nat} (hexited : s.handler = .exited)
    (hstage : s.stop = .stopServices i) (hn : s.accept.server.services.length - i = n) :
    Reaches step Returned s := by
  have hturn : s.stopStep = some { s with
      stop := if i < s.accept.server.services.length then .stopServices (i + 1)
        else .clearServices } := by
    rw [stopStep, hstage]
  induction n generalizing s i with
  | zero => exact reaches_stop hturn (reaches_clear hexited (if_neg (by omega)))
  | succ n ih =>
    rw [if_pos (by omega)] at hturn
    exact reaches_stop hturn (ih hexited rfl (by dsimp only; omega) rfl)

theorem reaches_resetService (hexited : s.handler = .exited) (hstage : s.stop = .resetService) :
    Reaches step Returned s := by
  have hreset : s.stopStep = some { s.withServer { s.accept.server with service := false } with
      stop := .stopServices 0 } := by
    rw [stopStep, hstage]
  exact reaches_stop hreset (reaches_services _ hexited rfl rfl)

theorem reaches_returned (hlate : s.stop.isLate = true) (hexited : s.handler = .exited) :
    Reaches step Returned s := by
  cases hstage : s.stop with
  | look =>
    rw [hstage] at hlate
    cases hlate
  | cancel =>
    rw [hstage] at hlate
    cases hlate
  | resetAcceptor =>
    rw [hstage] at hlate
    cases hlate
  | stopService =>
    by_cases hservice : s.accept.server.service = true
    · have hstop : s.stopStep = some { s with stop := .resetService, stopped := true } := by
        rw [stopStep, hstage]
        exact if_pos hservice
      exact reaches_stop hstop (reaches_resetService hexited rfl)
    · have hstop : s.stopStep = some { s with stop := .stopServices 0 } := by
        rw [stopStep, hstage]
        exact if_neg hservice
      exact reaches_stop hstop (reaches_services _ hexited rfl rfl)
  | resetService => exact reaches_resetService hexited hstage
  | stopServices i => exact reaches_services _ hexited hstage rfl
  | clearServices => exact reaches_clear hexited hstage
  | join => exact reaches_join hexited hstage
  | returned => exact .here hstage

/-- What was posted ends, and `stop` returns. -/
theorem Quiet.returns (h : Quiet s) : Reaches step Returned s := by
  obtain ⟨ls, t, hexec, hexited⟩ := reaches_exited h
  obtain ⟨ks, u, hexec', hreturned⟩ :=
    reaches_returned (exec_invariant (fun _ _ _ hq hl => quiet_of_step hq hl) h hexec).late hexited
  exact ⟨ls ++ ks, u, exec_append.mpr ⟨t, hexec, hexec'⟩, hreturned⟩

end Quiet

section Doomed

variable {s : Shutdown}

/-- The step uses what is not there. -/
theorem breaks_fault (hposting : s.handler = .posting) {l : AcceptLabel} {u : Undefined}
    (hcount : l.isCount = false) (hfault : s.accept.fault l = some u) :
    Reaches goOn Broken s := by
  refine .cons (i := .accept l) (t := { s with handler := .undefined u }) ?_ (.here ⟨u, rfl⟩)
  rw [goOn, if_neg (fun h => by cases h), step, acceptStep, if_neg (by rw [hcount]; decide),
    if_pos hposting, hfault]

/-- The next step of `post_accept`, when it is not the posting. -/
theorem breaks_cons (hposting : s.handler = .posting) {l : AcceptLabel} {a : AcceptThread}
    (hcount : l.isCount = false) (hpost : l ≠ .post) (hfault : s.accept.fault l = none)
    (ha : s.accept.step l = some a)
    (h : Reaches goOn Broken { s with accept := a, handler := .posting }) :
    Reaches goOn Broken s := by
  refine .cons (i := .accept l) ?_ h
  rw [goOn, if_neg (fun h => by cases h), step, acceptStep, if_neg (by rw [hcount]; decide),
    if_pos hposting, hfault, ha, Option.map_some, if_neg hpost]

theorem breaks_chosen (hposting : s.handler = .posting)
    (hacc : s.accept.server.acceptor = false) {old : Option Nat} {i : Nat}
    (hphase : s.accept.phase = .chosen old i) : Reaches goOn Broken s := by
  refine breaks_fault (l := .post) (u := .nullAcceptor) hposting rfl ?_
  rw [AcceptThread.fault, hphase]
  exact if_neg (by rw [hacc]; decide)

theorem breaks_scanning (n : Nat) (hposting : s.handler = .posting)
    (hacc : s.accept.server.acceptor = false) {old : Option Nat} {least k : Nat}
    (hphase : s.accept.phase = .scanning old least k)
    (hn : s.accept.server.services.length - k = n) : Reaches goOn Broken s := by
  induction n generalizing s least k with
  | zero =>
    by_cases hpos : s.accept.server.pos < s.accept.server.services.length
    · refine breaks_cons (l := .leave) (a := s.accept.leave old) hposting rfl (by decide) ?_ ?_ ?_
      · rw [AcceptThread.fault, hphase]
        exact if_pos (.inr hpos)
      · rw [AcceptThread.step, hphase]
        exact if_neg (by omega)
      · exact breaks_chosen rfl hacc rfl
    · refine breaks_fault (l := .leave) (u := .badIndex) hposting rfl ?_
      rw [AcceptThread.fault, hphase]
      exact if_neg (by omega)
  | succ n ih =>
    have hstep : s.accept.step .look = some (s.accept.look old least k) := by
      rw [AcceptThread.step, hphase]
      exact if_pos (by omega)
    have hsame := AcceptThread.sameMembers_of_step hstep
    have hnext : ∃ least', (s.accept.look old least k).phase = .scanning old least' (k + 1) := by
      unfold AcceptThread.look
      split <;> exact ⟨_, rfl⟩
    obtain ⟨least', hphase'⟩ := hnext
    refine breaks_cons hposting rfl (by decide) rfl hstep ?_
    refine ih rfl (hsame.acceptor.trans hacc) hphase' ?_
    rw [hsame.length]
    omega

theorem breaks_posting (hposting : s.handler = .posting)
    (hacc : s.accept.server.acceptor = false) {old : Option Nat}
    (hphase : s.accept.phase = .posting old) : Reaches goOn Broken s := by
  by_cases hpos : s.accept.server.pos < s.accept.server.services.length
  · have hstep : s.accept.step .enter = some (s.accept.enter old) := by
      rw [AcceptThread.step, hphase]
      exact if_pos hpos
    have hacc' := (AcceptThread.sameMembers_of_step hstep).acceptor.trans hacc
    refine breaks_cons hposting rfl (by decide) ?_ hstep ?_
    · rw [AcceptThread.fault, hphase]
      exact if_pos hpos
    · by_cases hflag : s.accept.server.flag ≠ 0
      · have hchosen : (s.accept.enter old).phase = .chosen old s.accept.server.pos := by
          rw [AcceptThread.enter, if_pos hflag]
        exact breaks_chosen rfl hacc' hchosen
      · have hscanning : (s.accept.enter old).phase =
            .scanning old (s.accept.server.load s.accept.server.pos) 1 := by
          rw [AcceptThread.enter, if_neg hflag]
        exact breaks_scanning _ rfl hacc' hscanning rfl
  · refine breaks_fault (l := .enter) (u := .badIndex) hposting rfl ?_
    rw [AcceptThread.fault, hphase]
    exact if_neg hpos

/-- The accept thread comes to what is not there. -/
theorem Doomed.breaks (h : Doomed s) : Reaches goOn Broken s := by
  rcases h.lost with ⟨hposting, hidle⟩ | hbroken
  · cases hphase : s.accept.phase with
    | posting old => exact breaks_posting hposting h.acceptor hphase
    | scanning old least k => exact breaks_scanning _ hposting h.acceptor hphase rfl
    | chosen old i => exact breaks_chosen hposting h.acceptor hphase
    | accepting i => exact absurd ⟨i, hphase⟩ hidle
  · exact .here hbroken

end Doomed

/-! ## Every run -/

theorem before_initial {server : BasicServer} (hup : server.Up) (i : Nat) :
    Before (initial server i) where
  usable := hup.usable
  thread := hup.thread
  run hne := absurd rfl hne
  idle := iff_of_true ⟨i, rfl⟩ fun h => by cases h
  defined u hu := by cases hu

/-- Until the reset. -/
theorem before_of_exec {server : BasicServer} (hup : server.Up) {i : Nat}
    {ls : List ShutdownLabel} {s : Shutdown} (hs : exec step (initial server i) ls = some s)
    (hearly : s.stop.isLate = false) : Before s := by
  refine exec_invariant (P := fun s => s.stop.isLate = false → Before s)
    (fun s l t ih hl hearly => ?_) (fun _ => before_initial hup i) hs hearly
  refine before_of_step (ih ?_) hl hearly
  by_contra hlate
  rw [late_of_step hl (by simpa using hlate)] at hearly
  cases hearly

/-- **When `stop` returns**: in every run in which `stop` has reset `_acceptor`, it can
return if and only if the accept thread was not between its look at `_run` and
`async_accept` at that moment, and something undefined can happen, or has, if and only if it
was. -/
theorem stop_returns_iff {server : BasicServer} (hup : server.Up) {i : Nat}
    {js ks : List ShutdownLabel} {s t : Shutdown}
    (hs : exec step (initial server i) js = some s) (hstage : s.stop = .resetAcceptor)
    (ht : exec step s (.stop :: ks) = some t) :
    (Reaches step Returned t ↔ s.handler ≠ .posting) ∧
      (Reaches step Broken t ↔ s.handler = .posting) := by
  have hbefore := before_of_exec hup hs (by rw [hstage]; rfl)
  obtain ⟨r, hr, hks⟩ := exec_cons.mp ht
  by_cases hposting : s.handler = .posting
  · have hdoomed : Doomed t := exec_invariant (fun _ _ _ hd hl => doomed_of_step hd hl)
      (hbefore.doomed hstage hr hposting) hks
    refine ⟨iff_of_false (fun hreturns => ?_) (not_not.mpr hposting),
      iff_of_true (hdoomed.breaks.mono fun _ _ _ hl => (step_of_goOn hl).2) hposting⟩
    obtain ⟨u, hreturned, hu⟩ :=
      hreturns.invariant (fun _ _ _ hd hl => doomed_of_step hd hl) hdoomed
    exact hu.waits hreturned
  · have hquiet : Quiet t := exec_invariant (fun _ _ _ hq hl => quiet_of_step hq hl)
      (hbefore.quiet hstage hr hposting) hks
    refine ⟨iff_of_true hquiet.returns hposting, iff_of_false (fun hbreaks => ?_) hposting⟩
    obtain ⟨u, ⟨x, hx⟩, hu⟩ :=
      hbreaks.invariant (fun _ _ _ hq hl => quiet_of_step hq hl) hquiet
    exact hu.defined x hx

/-- A server with two services and a block length of one, after `run`. -/
def twoServices : BasicServer :=
  (BasicServer.start ⟨true, true, [⟨0⟩, ⟨0⟩], 1, 0, 1, 0, false, false⟩ [] .done).1

theorem up_twoServices : twoServices.Up := BasicServer.up_start (by decide) rfl rfl []

/-- It is about to reset `_acceptor`. -/
def atReset (phase : AcceptPhase) (handler : HandlerStage) : Shutdown :=
  ⟨⟨{ twoServices with run := false }, phase, []⟩, handler, .resetAcceptor, false⟩

/-- It has reset `_acceptor` and stopped `_service`. -/
def pastReset (phase : AcceptPhase) (handler : HandlerStage) : Shutdown :=
  ⟨⟨{ twoServices with run := false, acceptor := false }, phase, []⟩, handler, .resetService, true⟩

/-- A connection comes in, and the handler finds `_run` up. -/
theorem stop_returns_iff_inside :
    ¬ Reaches step Returned (pastReset (.scanning (some 0) 0 1) .posting) ∧
      Reaches step Broken (pastReset (.scanning (some 0) 0 1) .posting) :=
  have hs : exec step (initial twoServices 0) [.complete true, .look, .stop, .stop] =
      some (atReset (.posting (some 0)) .posting) := rfl
  have ht : exec step (atReset (.posting (some 0)) .posting) [.stop, .accept .enter, .stop] =
      some (pastReset (.scanning (some 0) 0 1) .posting) := rfl
  have h := stop_returns_iff up_twoServices hs rfl ht
  ⟨fun hreturns => h.1.mp hreturns rfl, h.2.mpr rfl⟩

end Shutdown

end KgCpp.Net
