import KgCpp.Net.CoroutineRead

/-!
# When the inactivity timer closes a connection

`handler_timer` closes the socket whenever it runs without an error. Only the
coroutine cancels the timer, when it goes on after a read, and cancelling does not
reach a handler that is in the queue already. So what matters is whether a read and
the deadline come together: `idle_closes_iff` says that the timer closes idle
connections only, exactly in those runs in which no deadline passes while a
completed read of an open connection is in the queue, and no read completes while a
`handler_timer` of the connection is in the queue without an error.
-/

namespace KgCpp.Net.CoroutineRead

open Lib

/-! ## What the timer knows -/

/-- A read has completed with bytes, and the coroutine does not have them yet. -/
def Connection.HasRead (c : Connection) : Prop := ∃ bytes, c.completion = some (.read bytes)

/-- The pending waits were armed after the last read, or right before it when the
coroutine does not have it yet, and no handler in the queue was armed later. -/
structure Connection.Timed (cfg : Settings) (c : Connection) : Prop where
  off : cfg.timeout = 0 → c.pending = []
  pending : ¬ c.HasRead → ∀ w ∈ c.pending, w.armedAt = c.received
  overtaken : c.HasRead → ∀ w ∈ c.pending, w.armedAt < c.received
  queued : ∀ h ∈ c.queued, h.wait.armedAt ≤ c.received

/-- As long as the socket is open, the handlers that can close it were armed after
the last read. -/
def Connection.Fresh (c : Connection) : Prop :=
  c.isOpen = true → ∀ h ∈ c.queued, h.error = false → h.wait.armedAt = c.received

namespace Connection

variable {cfg : Settings} {c : Connection}

theorem mem_queued_complete {error : Bool} {h : Handler} :
    h ∈ (c.complete error).queued ↔
      h ∈ c.queued ∨ ∃ w ∈ c.pending, h = ⟨w, error⟩ := by
  rw [complete, List.mem_append, List.mem_map]
  exact or_congr_right (exists_congr fun w => and_congr_right fun _ => eq_comm)

theorem not_hasRead_of_none (h : c.completion = none) : ¬ c.HasRead := by
  rintro ⟨bytes, hbytes⟩
  rw [h] at hbytes
  cases hbytes

theorem Timed.of_noWaits (hp : c.pending = []) (hq : ∀ h ∈ c.queued, h.wait.armedAt ≤ c.received) :
    c.Timed cfg where
  off := fun _ => hp
  pending := fun _ w hw => by rw [hp] at hw; cases hw
  overtaken := fun _ w hw => by rw [hp] at hw; cases hw
  queued := hq

theorem Timed.armedAt_le (hc : c.Timed cfg) {w : Wait} (hw : w ∈ c.pending) :
    w.armedAt ≤ c.received := by
  by_cases hread : c.HasRead
  · exact Nat.le_of_lt (hc.overtaken hread w hw)
  · exact Nat.le_of_eq (hc.pending hread w hw)

theorem Timed.complete (hc : c.Timed cfg) (error : Bool) : (c.complete error).Timed cfg := by
  refine .of_noWaits rfl fun h hh => ?_
  rcases mem_queued_complete.mp hh with hh | ⟨w, hw, rfl⟩
  · exact hc.queued h hh
  · exact hc.armedAt_le hw

/-- Waits that become handlers with an error close nothing. -/
theorem Fresh.cancel (hf : c.Fresh) : c.cancel.Fresh := by
  intro hopen h hh herror
  rcases mem_queued_complete.mp hh with hh | ⟨w, hw, rfl⟩
  · exact hf hopen h hh herror
  · cases herror

/-- The deadline makes handlers of waits that were armed after the last read. -/
theorem Fresh.expire (hc : c.Timed cfg) (hf : c.Fresh) (hread : c.isOpen = true → ¬ c.HasRead) :
    c.expire.Fresh := by
  intro hopen h hh herror
  rcases mem_queued_complete.mp hh with hh | ⟨w, hw, rfl⟩
  · exact hf hopen h hh herror
  · exact hc.pending (hread hopen) w hw

theorem Timed.disarm (hc : c.Timed cfg) : (c.disarm cfg).Timed cfg := by
  unfold Connection.disarm
  split
  · exact hc
  · exact hc.complete true

theorem Fresh.disarm (hf : c.Fresh) : (c.disarm cfg).Fresh := by
  unfold Connection.disarm
  split
  · exact hf
  · exact hf.cancel

/-- Arming: the wait is the only one, and of now. -/
theorem Timed.awaitRead (hc : c.Timed cfg) : (c.awaitRead cfg).Timed cfg := by
  unfold Connection.awaitRead
  split
  · rename_i ht
    exact .of_noWaits (hc.off ht) hc.queued
  · rename_i ht
    have hnone : ¬ { c.arm with point := .reading, completion := none }.HasRead :=
      not_hasRead_of_none rfl
    exact ⟨fun h => absurd h ht, fun _ w hw => by rw [List.mem_singleton.mp hw]; rfl,
      fun h => absurd h hnone, (hc.complete true).queued⟩

theorem Fresh.awaitRead (hf : c.Fresh) : (c.awaitRead cfg).Fresh := by
  unfold Connection.awaitRead
  split
  · exact hf
  · exact hf.cancel

theorem timed_accepted : accepted.Timed cfg :=
  .of_noWaits rfl fun _ hh => by cases hh

theorem timed_begin : (accepted.begin cfg).Timed cfg := by
  have hc : accepted.Timed cfg := timed_accepted
  unfold begin
  split
  · exact { hc with }
  · exact hc.awaitRead

theorem fresh_begin : (accepted.begin cfg).Fresh := by
  have hf : accepted.Fresh := fun _ h hh => by cases hh
  unfold begin
  split
  · exact hf
  · exact hf.awaitRead

/-- The waits that are pending when a read completes are overtaken by it. -/
theorem Timed.arrive (hc : c.Timed cfg) (bytes : List Byte) : (c.arrive bytes).Timed cfg where
  off := hc.off
  pending := fun h => absurd ⟨bytes, rfl⟩ h
  overtaken := fun _ _ hw => Nat.lt_succ_of_le (hc.armedAt_le hw)
  queued := fun h hh => Nat.le_succ_of_le (hc.queued h hh)

/-- So it must not find handlers in the queue that close the connection. -/
theorem Fresh.arrive (bytes : List Byte) (hq : ∀ h ∈ c.queued, h.error = true) :
    (c.arrive bytes).Fresh := by
  intro _ h hh herror
  rw [hq h hh] at herror
  cases herror

/-- The coroutine gets the bytes and cancels what is pending. -/
theorem Timed.taken (hc : c.Timed cfg) (bytes : List Byte) :
    (({ c with completion := none }.saw [.received bytes]).disarm cfg).Timed cfg := by
  unfold Connection.disarm
  split
  · rename_i ht
    exact .of_noWaits (hc.off ht) hc.queued
  · exact .of_noWaits rfl (hc.complete true).queued

theorem Timed.handOn (hc : c.Timed cfg) (bytes : List Byte) : (c.handOn cfg bytes).Timed cfg := by
  unfold Connection.handOn
  split
  · exact { hc.taken bytes with }
  · exact (hc.taken bytes).awaitRead

theorem Fresh.handOn (hf : c.Fresh) (bytes : List Byte) : (c.handOn cfg bytes).Fresh := by
  have htaken : (({ c with completion := none }.saw [.received bytes]).disarm cfg).Fresh :=
    Fresh.disarm (c := { c with completion := none }.saw [.received bytes]) hf
  unfold Connection.handOn
  split
  · exact htaken
  · exact htaken.awaitRead

theorem Timed.teardown (hc : c.Timed cfg) : (c.teardown cfg).Timed cfg := by
  unfold Connection.teardown
  split <;> exact { hc with }

theorem Fresh.of_shut (h : c.isOpen = false) : c.Fresh := by
  intro hopen
  rw [h] at hopen
  cases hopen

end Connection

/-! ## Every step -/

namespace Service

variable {cfg : Settings} {s t : Service} {l : Label}

/-- A read and the deadline come together on an open connection: a read completes while
a handler that closes it is in the queue, or the deadline passes while the coroutine does
not have a completed read yet. -/
def Overlaps (s : Service) : Label → Prop
  | .arrive k _ => ∃ h ∈ (s.conns k).queued, h.error = false
  | .expire k => (s.conns k).isOpen = true ∧ (s.conns k).HasRead
  | _ => False

theorem timed_step (hs : ∀ k, (s.conns k).Timed cfg) (hst : s.step cfg l = some t) :
    ∀ k, (t.conns k).Timed cfg := by
  obtain ⟨henabled, rfl⟩ := step_eq_some.mp hst
  have hsaw : ∀ k events, ((s.conns k).saw events).Timed cfg := fun k _ => { hs k with }
  cases l with
  | start => exact forall_set Connection.timed_begin hs
  | connectedReturned k ok =>
    cases ok with
    | true => exact forall_set (hsaw k _).awaitRead hs
    | false => exact forall_set (hsaw k _).teardown hs
  | arrive k bytes => exact forall_set ((hs k).arrive bytes) hs
  | fail k =>
    -- no read had completed, and none has now
    have hread := Connection.not_hasRead_of_none henabled.2
    refine forall_set ⟨(hs k).off, fun _ => (hs k).pending hread, fun h => ?_, (hs k).queued⟩ hs
    obtain ⟨bytes, hbytes⟩ := h
    cases hbytes
  | resume k =>
    rw [effect]
    split
    · exact hs
    · exact forall_set ((hs k).handOn _) hs
    · exact forall_set (hsaw k _).disarm.teardown hs
  | readedReturned k ok =>
    cases ok with
    | true => exact forall_set (hsaw k _).awaitRead hs
    | false => exact forall_set (hsaw k _).disarm.teardown hs
  | readedThrew k => exact forall_set (hsaw k _).disarm.teardown hs
  | closedReturned k => exact forall_set { hs k with } hs
  | expire k => exact forall_set ((hs k).complete false) hs
  | timer k i =>
    have hi : (s.conns k).queued[i]? = some _ := List.getElem?_eq_getElem henabled
    refine forall_set ?_ hs
    rw [Connection.handlerTimer_eq hi]
    exact { hs k with queued := fun h hh => (hs k).queued h (List.mem_of_mem_eraseIdx hh) }
  | clear =>
    intro k
    show Connection.Timed cfg (if k ∈ s.clients then (s.conns k).close else s.conns k)
    split
    · exact { hs k with }
    · exact hs k

theorem fresh_step (htimed : ∀ k, (s.conns k).Timed cfg) (hs : ∀ k, (s.conns k).Fresh)
    (hl : ¬ s.Overlaps l) (hst : s.step cfg l = some t) : ∀ k, (t.conns k).Fresh := by
  obtain ⟨henabled, rfl⟩ := step_eq_some.mp hst
  have hsaw : ∀ k events, ((s.conns k).saw events).Fresh := fun k _ => hs k
  have hshut : ∀ c : Connection, (c.teardown cfg).Fresh := fun c =>
    .of_shut Connection.isOpen_teardown
  cases l with
  | start => exact forall_set Connection.fresh_begin hs
  | connectedReturned k ok =>
    cases ok with
    | true => exact forall_set (hsaw k _).awaitRead hs
    | false => exact forall_set (hshut _) hs
  | arrive k bytes =>
    refine forall_set (Connection.Fresh.arrive bytes fun h hh => ?_) hs
    by_contra herror
    exact hl ⟨h, hh, Bool.not_eq_true _ ▸ herror⟩
  | fail k => exact forall_set (hs k) hs
  | resume k =>
    rw [effect]
    split
    · exact hs
    · exact forall_set ((hs k).handOn _) hs
    · exact forall_set (hshut _) hs
  | readedReturned k ok =>
    cases ok with
    | true => exact forall_set (hsaw k _).awaitRead hs
    | false => exact forall_set (hshut _) hs
  | readedThrew k => exact forall_set (hshut _) hs
  | closedReturned k => exact forall_set (hs k) hs
  | expire k =>
    exact forall_set ((hs k).expire (htimed k) fun hopen hread => hl ⟨hopen, hread⟩) hs
  | timer k i =>
    have hi : (s.conns k).queued[i]? = some _ := List.getElem?_eq_getElem henabled
    refine forall_set ?_ hs
    rw [Connection.handlerTimer_eq hi]
    intro hopen h hh
    exact hs k (Bool.and_eq_true_iff.mp hopen).1 h (List.mem_of_mem_eraseIdx hh)
  | clear =>
    intro k
    show Connection.Fresh (if k ∈ s.clients then (s.conns k).close else s.conns k)
    split
    · exact .of_shut rfl
    · exact hs k

theorem timed_exec {ls : List Label} (h : exec (step cfg) initial ls = some s) :
    ∀ k, (s.conns k).Timed cfg :=
  exec_invariant (P := fun s : Service => ∀ k, (s.conns k).Timed cfg)
    (fun _ _ _ hs hst => timed_step hs hst)
    (fun _ => .of_noWaits rfl fun _ hh => by cases hh) h

/-! ## Runs -/

/-- In no step of the run do a read and the deadline come together. -/
def InTime (cfg : Settings) (ls : List Label) : Prop :=
  ∀ pre l s, pre ++ [l] <+: ls → exec (step cfg) initial pre = some s → s.Enabled l →
    ¬ s.Overlaps l

/-- Whenever a `handler_timer` runs, in the run or right after a part of it, and
closes the socket, nothing has been received since its wait was armed. -/
def ClosesIdle (cfg : Settings) (ls : List Label) : Prop :=
  ∀ pre k i s t, pre <+: ls → exec (step cfg) initial pre = some s →
    s.step cfg (.timer k i) = some t →
    (s.conns k).isOpen = true → (t.conns k).isOpen = false →
    ∃ h, (s.conns k).queued[i]? = some h ∧ h.wait.armedAt = (s.conns k).received

theorem InTime.mono {ls pre : List Label} (h : InTime cfg ls) (hpre : pre <+: ls) :
    InTime cfg pre := fun p l s hp => h p l s (hp.trans hpre)

theorem fresh_exec {ls : List Label} (h : exec (step cfg) initial ls = some s)
    (hls : InTime cfg ls) : ∀ k, (s.conns k).Fresh := by
  refine exec_history (P := fun ls (s : Service) => InTime cfg ls → ∀ k, (s.conns k).Fresh) ?_
    (fun _ k hopen => by cases hopen) ls s h hls
  intro ls s l t hexec ih hst hls
  exact fresh_step (timed_exec hexec) (ih (hls.mono (List.prefix_append ..)))
    (hls ls l s List.prefix_rfl hexec (step_eq_some.mp hst).1) hst

end Service

open CoroutineRead.Service

/-- A handler without an error closes an open connection. -/
theorem closes_of_queued {cfg : Settings} {s : Service} {k i : Nat} {h : Handler}
    (hi : (s.conns k).queued[i]? = some h) (herror : h.error = false) :
    ∃ t, s.step cfg (.timer k i) = some t ∧ (t.conns k).isOpen = false := by
  refine ⟨_, step_eq_some.mpr ⟨(List.getElem?_eq_some_iff.mp hi).1, rfl⟩, ?_⟩
  rw [effect, conns_set_self, Connection.handlerTimer_eq hi, herror]
  exact Bool.and_false _

/-- When a read and the deadline come together, a handler is in the queue that closes the
connection and was armed before the read. -/
theorem outdated_of_overlaps {cfg : Settings} {s t : Service} {l : Label}
    (hs : ∀ k, (s.conns k).Timed cfg) (hlate : s.Overlaps l) (hst : s.step cfg l = some t) :
    ∃ k, ∃ h ∈ (t.conns k).queued, (t.conns k).isOpen = true ∧ h.error = false ∧
      h.wait.armedAt < (t.conns k).received := by
  obtain ⟨henabled, rfl⟩ := step_eq_some.mp hst
  cases l with
  | arrive k bytes =>
    obtain ⟨h, hh, herror⟩ := hlate
    refine ⟨k, h, ?_⟩
    rw [effect, conns_set_self]
    exact ⟨hh, henabled.2.2, herror, Nat.lt_succ_of_le ((hs k).queued h hh)⟩
  | expire k =>
    obtain ⟨hopen, hread⟩ := hlate
    obtain ⟨w, hw⟩ := List.exists_mem_of_ne_nil _ henabled
    refine ⟨k, ⟨w, false⟩, ?_⟩
    rw [effect, conns_set_self]
    exact ⟨Connection.mem_queued_complete.mpr (.inr ⟨w, hw, rfl⟩), hopen, rfl,
      (hs k).overtaken hread w hw⟩
  | _ => exact hlate.elim

/-- **When the inactivity timer closes idle connections only**: in every run of a
service, whenever a `handler_timer` shuts a socket down, nothing has been
received on it since the wait of that handler was armed, if and only if on no open
connection the deadline passes while a completed read is in the queue, or a read
completes while a `handler_timer` is in the queue without an error. -/
theorem idle_closes_iff (cfg : Settings) (ls : List Label) :
    ClosesIdle cfg ls ↔ InTime cfg ls := by
  constructor
  · intro hidle pre l s hpre hs henabled hlate
    have ht : s.step cfg l = some _ := step_eq_some.mpr ⟨henabled, rfl⟩
    have hexec : exec (step cfg) initial (pre ++ [l]) = some _ :=
      exec_append.mpr ⟨s, hs, exec_cons.mpr ⟨_, ht, rfl⟩⟩
    obtain ⟨k, h, hh, hopen, herror, hlt⟩ := outdated_of_overlaps (timed_exec hs) hlate ht
    obtain ⟨i, hi⟩ := List.mem_iff_getElem?.mp hh
    obtain ⟨t', ht', hshut⟩ := closes_of_queued hi herror
    obtain ⟨h', hi', harmed⟩ := hidle _ k i _ t' hpre hexec ht' hopen hshut
    rw [hi] at hi'
    cases hi'
    omega
  · intro htime pre k i s t hpre hs hst hopen hshut
    obtain ⟨henabled, rfl⟩ := step_eq_some.mp hst
    obtain ⟨h, hi⟩ : ∃ h, (s.conns k).queued[i]? = some h :=
      ⟨_, List.getElem?_eq_getElem henabled⟩
    have hconn : ((s.effect cfg (.timer k i)).conns k).isOpen = (true && h.error) := by
      show ((s.set k ((s.conns k).handlerTimer i)).conns k).isOpen = _
      rw [conns_set_self, Connection.handlerTimer_eq hi, hopen]
    rw [hconn, Bool.true_and] at hshut
    exact ⟨h, hi, fresh_exec hs (htime.mono hpre) k hopen h (List.mem_of_getElem? hi) hshut⟩

/-- A read completes, the deadline passes, and the coroutine goes on with the
bytes to wait for more: the old handler closes the connection. -/
theorem closed_while_active :
    ∃ s t, exec (step ⟨false, true, false, 60⟩) initial
        [.start, .arrive 0 [1], .expire 0, .resume 0, .readedReturned 0 true] = some s ∧
      s.step ⟨false, true, false, 60⟩ (.timer 0 0) = some t ∧
      (s.conns 0).isOpen = true ∧ (t.conns 0).isOpen = false ∧
      ∃ h, (s.conns 0).queued[0]? = some h ∧ h.wait.armedAt < (s.conns 0).received :=
  ⟨_, _, rfl, rfl, rfl, rfl, _, rfl, by decide⟩

end KgCpp.Net.CoroutineRead
