import KgCpp.Net.BasicServerRuns

/-!
# After a `run` that failed

`run` sets `_run` between posting the accept and creating the thread. When the
thread cannot be created the exception leaves with `_run` set and no thread, and
a later `run` returns without having done anything.

`retries_iff` says which sequences of calls keep clear of it: those in which no
creation of the accept thread fails. An accept that cannot be posted is no
failure, since `post_accept` tries again until it can.
-/

namespace KgCpp.Net.BasicServer

open Lib

/-- The call tells its caller of an error. -/
def Outcome.Fails (o : Outcome) : Prop := ∃ e, o = .threw e ∨ o = .reported e

/-- A call that fails leaves a server that can be run again, and a server that
runs has an accept thread. -/
structure Retries (s : BasicServer) (c : Call) : Prop where
  stopped : (s.step c).2.Fails → (s.step c).1.run = false ∧ (s.step c).1.thread = false
  again : (s.step c).2.Fails → ∀ attempts, ((s.step c).1.start attempts .badAlloc).2 ≠ .returned
  threaded : (s.step c).1.run = true → (s.step c).1.thread = true

/-- Every call of a sequence does. -/
def AllRetry : BasicServer → List Call → Prop
  | _, [] => True
  | s, c :: cs => s.Retries c ∧ AllRetry (s.step c).1 cs

/-- How the creation of the thread goes, if the call gets so far. -/
def Call.thread : Call → StepResult
  | .run _ thread => thread
  | .runEc _ thread => thread
  | _ => .done

/-- When the call comes to create the accept thread, it can. -/
def Creates (s : BasicServer) (c : Call) : Prop :=
  s.run = false → s.Usable → c.thread = .done

/-- No creation of the accept thread fails. -/
def AllCreate : BasicServer → List Call → Prop
  | _, [] => True
  | s, c :: cs => s.Creates c ∧ AllCreate (s.step c).1 cs

/-- The server runs if and only if it has an accept thread. -/
def Threaded (s : BasicServer) : Prop := s.run = s.thread

section OneCall

variable {s : BasicServer}

theorem not_fails_returned : ¬ Outcome.returned.Fails := by
  rintro ⟨e, he | he⟩ <;> cases he

theorem not_fails_undefined (u : Undefined) : ¬ (Outcome.undefined u).Fails := by
  rintro ⟨e, he | he⟩ <;> cases he

/-- A call that does not fail, and leaves run and thread together, is fine. -/
theorem retries_of_threaded {c : Call} (hfine : ¬ (s.step c).2.Fails)
    (h : (s.step c).1.Threaded) : s.Retries c :=
  ⟨fun hf => absurd hf hfine, fun hf => absurd hf hfine, fun hrun => h ▸ hrun⟩

/-- `run` on a server that is running, or not usable, changes nothing. -/
theorem start_idle (h : s.run = true ∨ ¬ s.Usable) (attempts : List Attempt)
    (thread : StepResult) :
    (s.start attempts thread).1 = s ∧ ¬ (s.start attempts thread).2.Fails := by
  by_cases hrun : s.run = true
  · rw [start, if_pos hrun]
    exact ⟨rfl, not_fails_returned⟩
  · obtain ⟨u, hpost⟩ := postAccept_unusable (h.resolve_left hrun) attempts
    rw [start, if_neg hrun, hpost]
    exact ⟨rfl, not_fails_undefined u⟩

/-- `run` on a usable server that is not running comes to the thread. -/
theorem start_thread (hrun : s.run = false) (h : s.Usable) (attempts : List Attempt)
    (thread : StepResult) :
    ((s.start attempts thread).2.Fails ↔ thread ≠ .done) ∧
      (s.start attempts thread).1.run = true ∧
      ((s.start attempts thread).1.thread = true ↔ s.thread = true ∨ thread = .done) := by
  obtain ⟨flag, pos, hpost, -⟩ := postAccept_usable h attempts
  rw [start, if_neg (by rw [hrun]; decide), hpost]
  cases thread with
  | done => simp [Outcome.Fails]
  | badAlloc => simp [Outcome.Fails]
  | systemError ev => simp [Outcome.Fails]

/-- `run` and `run(ec)` alike leave this state, and fail or not. -/
theorem step_of_isRun {c : Call} (hc : c.isRun = true) :
    ∃ attempts, (s.step c).1 = (s.start attempts c.thread).1 ∧
      ((s.step c).2.Fails ↔ (s.start attempts c.thread).2.Fails) := by
  obtain ⟨attempts, thread, rfl | rfl⟩ := Call.of_isRun hc
  · exact ⟨attempts, rfl, Iff.rfl⟩
  · refine ⟨attempts, (s.startEc_eq attempts thread).1, ?_⟩
    rw [step, Call.thread, startEc]
    split
    · rename_i s' e hthrew
      rw [hthrew]
      exact iff_of_true ⟨e, .inr rfl⟩ ⟨e, .inl rfl⟩
    · exact Iff.rfl

/-- A call that is no `run` keeps run and thread together, and does not fail. -/
theorem threaded_of_not_isRun (h : s.Threaded) {c : Call} (hc : c.isRun = false) :
    (s.step c).1.Threaded ∧ ¬ (s.step c).2.Fails := by
  cases c with
  | run attempts thread => cases hc
  | runEc attempts thread => cases hc
  | stop =>
    refine ⟨?_, not_fails_returned⟩
    rw [step, stop]
    split
    · rfl
    · exact h
  | join => exact ⟨h, not_fails_returned⟩
  | accepted attempts =>
    rw [step, postAcceptHandler]
    split
    · by_cases hu : s.Usable
      · obtain ⟨flag, pos, hpost, -⟩ := postAccept_usable hu attempts
        rw [hpost]
        exact ⟨h, not_fails_returned⟩
      · obtain ⟨u, hpost⟩ := postAccept_unusable hu attempts
        rw [hpost]
        exact ⟨h, not_fails_undefined u⟩
    · exact ⟨h, not_fails_returned⟩
  | clients i n => exact ⟨h, not_fails_returned⟩

/-- One call, from a server that runs just when it has a thread. -/
theorem retries_iff_creates (h : s.Threaded) (c : Call) :
    (s.Retries c ↔ s.Creates c) ∧ (s.Creates c → (s.step c).1.Threaded) := by
  cases hc : c.isRun with
  | false =>
    obtain ⟨hstep, hfine⟩ := threaded_of_not_isRun h hc
    -- only `run` creates a thread
    have hcreates : s.Creates c := fun _ _ => by
      cases c with
      | run attempts thread => cases hc
      | runEc attempts thread => cases hc
      | _ => rfl
    exact ⟨iff_of_true (retries_of_threaded hfine hstep) hcreates, fun _ => hstep⟩
  | true =>
    obtain ⟨attempts, hstate, hfails⟩ := step_of_isRun (s := s) hc
    by_cases hidle : s.run = true ∨ ¬ s.Usable
    · -- the call does not come to the thread
      obtain ⟨hsame, hfine⟩ := start_idle hidle attempts c.thread
      have hstep : (s.step c).1.Threaded := by
        rw [hstate, hsame]
        exact h
      refine ⟨iff_of_true (retries_of_threaded (hfails.not.mpr hfine) hstep) ?_, fun _ => hstep⟩
      intro hrun husable
      rcases hidle with hrun' | hunusable
      · rw [hrun] at hrun'
        cases hrun'
      · exact absurd husable hunusable
    · push Not at hidle
      obtain ⟨hrun, husable⟩ := hidle
      have hrun : s.run = false := Bool.eq_false_iff.mpr hrun
      obtain ⟨hthread, hruns, hhas⟩ := start_thread hrun husable attempts c.thread
      have hnone : s.thread = false := h ▸ hrun
      rw [hnone] at hhas
      have hstep : c.thread = .done → (s.step c).1.Threaded := by
        intro hdone
        rw [Threaded, hstate, hruns]
        exact (hhas.mpr (.inr hdone)).symm
      refine ⟨⟨fun hretries _ _ => ?_, fun hcreates => ?_⟩, fun hcreates =>
        hstep (hcreates hrun husable)⟩
      · -- a thread that cannot be created leaves `_run` set
        by_contra hne
        have hstopped := (hretries.stopped (hfails.mpr (hthread.mpr hne))).1
        rw [hstate, hruns] at hstopped
        cases hstopped
      · have hdone := hcreates hrun husable
        exact retries_of_threaded (hfails.not.mpr fun hf => hthread.mp hf hdone) (hstep hdone)

end OneCall

theorem allRetry_iff_allCreate {s : BasicServer} (h : s.Threaded) (cs : List Call) :
    s.AllRetry cs ↔ s.AllCreate cs := by
  induction cs generalizing s with
  | nil => exact Iff.rfl
  | cons c cs ih =>
    obtain ⟨hiff, hstep⟩ := retries_iff_creates h c
    constructor
    · rintro ⟨hretries, hrest⟩
      have hcreates := hiff.mp hretries
      exact ⟨hcreates, (ih (hstep hcreates)).mp hrest⟩
    · rintro ⟨hcreates, hrest⟩
      exact ⟨hiff.mpr hcreates, (ih (hstep hcreates)).mpr hrest⟩

/-! ## What construction leaves -/

/-- A server that has just been constructed does not run, and has no thread. -/
theorem threaded_construct {ctor : Constructor} {laddr : List Char} {poll timeout : Nat}
    {env : Environment} {s : BasicServer}
    (h : (construct ctor laddr poll timeout env).1 = some s) : s.Threaded :=
  of_construct (leaves_init_of (P := Threaded) rfl (fun _ _ _ _ _ hs => hs) laddr env) h

/-- **When a failed `run` can be retried**: for every outcome of construction
that leaves a live object, and every sequence of calls, a `run` that fails leaves
a server that can be run again and a running server has an accept thread, if and
only if no creation of the accept thread fails. -/
theorem retries_iff (ctor : Constructor) (laddr : List Char) (poll timeout : Nat)
    (env : Environment) (s : BasicServer)
    (h : (construct ctor laddr poll timeout env).1 = some s) (cs : List Call) :
    s.AllRetry cs ↔ s.AllCreate cs :=
  allRetry_iff_allCreate (threaded_construct h) cs

/-- Accepts that cannot be posted at first, a `stop`, and a second `run`. -/
theorem retries_iff_attempts :
    ∃ s, construct .throwing [':', ':', '1', ':', '8', '0'] 1 0 (host 2) = (some s, none) ∧
      s.AllRetry [.run [.socket, .asyncAccept] .done, .stop, .join] := by
  refine ⟨_, rfl, (retries_iff .throwing [':', ':', '1', ':', '8', '0'] 1 0 (host 2) _ rfl
    _).mpr ⟨fun _ _ => rfl, fun _ _ => rfl, fun _ _ => rfl, trivial⟩⟩

/-- A thread that cannot be created: the server says that it runs. -/
theorem run_stuck : ∃ s,
    construct .throwing [':', ':', '1', ':', '8', '0'] 1 0 (host 2) = (some s, none) ∧
      ¬ s.AllRetry [.run [] .badAlloc] := by
  refine ⟨_, rfl, fun h => ?_⟩
  have hstopped := (h.1.stopped ⟨_, .inl rfl⟩).1
  cases hstopped

end KgCpp.Net.BasicServer
