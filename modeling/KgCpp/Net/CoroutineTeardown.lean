import KgCpp.Net.CoroutineReadRuns

/-!
# A `connected` that throws

`coroutine_read` calls `_connected` before its `try` block. An exception of the
callback leaves the coroutine with its socket open, in `_clients` and counted,
and `_closed` not called; and it leaves the thread of the service, which is then
over.

`teardown_iff` says that this is the only way for a connection to end without
being torn down: whatever `connected` and `readed` return, whatever `readed`
throws and whatever the socket and the timer do, the end of every coroutine is
the teardown, as long as no `connected` throws.
-/

namespace KgCpp.Net.CoroutineRead

open Lib

/-- A service with its thread: which coroutine an exception has left, if one
has. -/
structure Thread where
  service : Service
  left : Option Nat

/-- A step of the service, or an exception of `_connected`. -/
inductive Move where
  | step (l : Label)
  | connectedThrew (k : Nat)
deriving DecidableEq, Repr

namespace Thread

/-- The thread of a service that has just been made. -/
def initial : Thread := ⟨.initial, none⟩

/-- One step. Once an exception has left a coroutine it has left `works_thread`
too, and nothing runs any more. -/
def move (cfg : Settings) (t : Thread) (m : Move) : Option Thread :=
  if t.left ≠ none then none
  else
    match m with
    | .step l => (t.service.step cfg l).map (⟨·, none⟩)
    | .connectedThrew k =>
      -- the exception passes by the teardown of `coroutine_read`
      if (t.service.conns k).point = .connected then
        some ⟨t.service.set k ((t.service.conns k).saw [.threw]), some k⟩
      else none

/-- The coroutine is over: it has come to its end, or an exception has left it. -/
def Over (t : Thread) (k : Nat) : Prop := (t.service.conns k).point = .ended ∨ t.left = some k

/-- The connection is torn down: its socket is closed and not in `_clients`,
`clients` counts the other coroutines only, and `_closed`, if it is set, has been
called once. -/
structure TornDown (cfg : Settings) (t : Thread) (k : Nat) : Prop where
  shut : (t.service.conns k).isOpen = false
  erased : k ∉ t.service.clients
  counted : t.service.count = (t.service.live.erase k).card
  told : (t.service.conns k).seen.count .closed = if cfg.closed then 1 else 0

/-- Every coroutine that is over has torn its connection down, and no exception
has left one. -/
def AllTornDown (cfg : Settings) (t : Thread) : Prop :=
  t.left = none ∧ ∀ k, t.Over k → t.TornDown cfg k

section Runs

variable {cfg : Settings}

theorem not_closed_turns (cfg : Settings) (reads : List (List Byte)) :
    Event.closed ∉ turns cfg reads := by
  unfold turns opening turn
  cases cfg.connected <;> cases cfg.readed <;> simp

/-- Before the teardown `_closed` is not called. -/
theorem not_closed_of_left {history : List Event} (h : Left cfg history) :
    Event.closed ∉ history := by
  cases h with
  | refused _ => decide
  | failed reads => simp [not_closed_turns cfg reads]
  | declined reads bytes _ => simp [not_closed_turns cfg reads]
  | threw reads bytes _ => simp [not_closed_turns cfg reads]

theorem count_closed_ending (cfg : Settings) :
    (ending cfg).count .closed = if cfg.closed then 1 else 0 := by
  unfold ending
  cases cfg.closed <;> rfl

/-- In a service whose coroutines no exception has left, those that have ended
have torn down. -/
theorem tornDown_of_inv {cleared : Bool} {s : Service} (h : s.Inv cfg cleared) {k : Nat}
    (hended : (s.conns k).point = .ended) : TornDown cfg ⟨s, none⟩ k := by
  have hdead : k ∉ s.live := by
    intro hmem
    have hlive := (Service.mem_live.mp hmem).2
    rw [hended] at hlive
    cases hlive
  have htold := h.told k
  rw [hended] at htold
  obtain ⟨history, hleft, hseen⟩ := htold
  refine ⟨h.shut k (.inr hended), fun hmem => hdead (h.known hmem), ?_, ?_⟩
  · rw [Finset.erase_eq_of_notMem hdead]
    exact h.counted
  · show (s.conns k).seen.count .closed = _
    rw [hseen, List.count_append, List.count_eq_zero_of_not_mem (not_closed_of_left hleft),
      Nat.zero_add, count_closed_ending]

/-- As long as no exception has left a coroutine, the run is a run of the
service; once one has, a `connected` has thrown. -/
theorem exec_cases {ms : List Move} {t : Thread} (h : exec (move cfg) initial ms = some t) :
    (t.left = none ∧ (∀ k, .connectedThrew k ∉ ms) ∧
        ∃ ls, exec (Service.step cfg) .initial ls = some t.service) ∨
      (t.left ≠ none ∧ ∃ k, .connectedThrew k ∈ ms) := by
  refine exec_history (P := fun ms (t : Thread) => (t.left = none ∧
    (∀ k, .connectedThrew k ∉ ms) ∧ ∃ ls, exec (Service.step cfg) .initial ls = some t.service) ∨
      (t.left ≠ none ∧ ∃ k, .connectedThrew k ∈ ms)) ?_ (.inl ⟨rfl, by simp, [], rfl⟩) ms t h
  intro ms t m t' _ ih hmove
  rcases ih with ⟨hleft, hno, ls, hls⟩ | ⟨hleft, k, hk⟩
  · -- the thread still runs
    cases m with
    | step l =>
      rw [move, if_neg (not_not.mpr hleft)] at hmove
      obtain ⟨s, hs, rfl⟩ := Option.map_eq_some_iff.mp hmove
      refine .inl ⟨rfl, fun k hk => ?_, ls ++ [l], exec_append.mpr ⟨_, hls, exec_cons.mpr
        ⟨s, hs, rfl⟩⟩⟩
      rcases List.mem_append.mp hk with hk | hk
      · exact hno k hk
      · cases List.mem_singleton.mp hk
    | connectedThrew k =>
      rw [move, if_neg (not_not.mpr hleft)] at hmove
      obtain ⟨-, hsome⟩ := Option.ite_none_right_eq_some.mp hmove
      cases hsome
      exact .inr ⟨(fun h => by cases h), k,
        List.mem_append_right _ (List.mem_singleton_self _)⟩
  · -- the thread is over, and nothing runs any more
    unfold move at hmove
    rw [if_pos hleft] at hmove
    cases hmove

/-- **When every connection is torn down**: in every run of a service with its
thread, every coroutine that is over has torn its connection down, and no
exception has left one, if and only if no `connected` has thrown. -/
theorem teardown_iff (cfg : Settings) (ms : List Move) (t : Thread)
    (h : exec (move cfg) initial ms = some t) :
    t.AllTornDown cfg ↔ ∀ k, .connectedThrew k ∉ ms := by
  rcases exec_cases h with ⟨hleft, hno, ls, hls⟩ | ⟨hleft, k, hk⟩
  · refine iff_of_true ⟨hleft, fun k hover => ?_⟩ hno
    obtain ⟨s, left⟩ := t
    cases hleft
    rcases hover with hended | hleft
    · exact tornDown_of_inv (Service.inv_exec hls) hended
    · cases hleft
  · exact iff_of_false (fun htorn => hleft htorn.1) fun hno => hno k hk

end Runs

/-- A connection that is refused, and one whose `readed` throws. -/
def refusedAndThrown : List Move :=
  [.step .start, .step .start, .step (.connectedReturned 0 false), .step (.closedReturned 0),
    .step (.connectedReturned 1 true), .step (.arrive 1 [7]), .step (.resume 1),
    .step (.readedThrew 1), .step (.closedReturned 1)]

theorem teardown_iff_two : ∃ t,
    exec (move ⟨true, true, true, 0⟩) initial refusedAndThrown = some t ∧
      t.AllTornDown ⟨true, true, true, 0⟩ :=
  ⟨_, rfl, (teardown_iff _ refusedAndThrown _ rfl).mpr (by simp [refusedAndThrown])⟩

/-- A `connected` that throws: the socket stays open, in `_clients` and
counted. -/
theorem connected_throws : ∃ t, exec (move ⟨true, true, true, 0⟩) initial
      [.step .start, .connectedThrew 0] = some t ∧
    t.Over 0 ∧ ¬ t.AllTornDown ⟨true, true, true, 0⟩ ∧ (t.service.conns 0).isOpen = true ∧
      0 ∈ t.service.clients ∧ t.service.count = 1 :=
  ⟨_, rfl, .inr rfl, (fun h => by cases h.1), rfl, by decide, rfl⟩

end Thread

end KgCpp.Net.CoroutineRead
