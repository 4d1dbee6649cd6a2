import KgCpp.Net.ServiceThread

/-!
# Stopping a service

Once `clear` has run, `stop` waits for the thread, and so for every coroutine
that is left. `quiet_iff` says in which runs none of them waits for a read on a
socket that is still open: those where no coroutine whose `_connected` is true
starts after `clear`. A coroutine that was in the queue when `clear` ran, or is
spawned by an accept handler that had looked at `_run` before, does start then.
-/

namespace KgCpp.Net.ServiceThread

open Lib

/-! ## Sockets of coroutines -/

@[simp] theorem socks_setWaiting (s : ServiceThread) (k : Nat) (w : Bool) :
    (s.setWaiting k w).socks = s.socks := by
  rw [socks, socks, setWaiting, List.map_map]
  refine List.map_congr_left fun c _ => ?_
  dsimp only [Function.comp]
  split <;> rfl

@[simp] theorem socks_start (s : ServiceThread) (k : Nat) (connected : Bool) :
    (s.start k connected).socks = k :: s.socks := rfl

@[simp] theorem socks_teardown (s : ServiceThread) (k : Nat) :
    (s.teardown k).socks = s.socks.filter (· != k) := by
  rw [socks, socks, teardown, List.filter_map]
  rfl

theorem sock_mem {s : ServiceThread} {c : Coroutine} (h : c ∈ s.coroutines) :
    c.sock ∈ s.socks := List.mem_map_of_mem h

/-! ## The invariant -/

/-- What holds of every state a service gets into: a socket belongs to one
coroutine, is open until that has started, and is in `_clients` from then on
until it is torn down or `clear` runs. -/
structure Inv (s : ServiceThread) : Prop where
  nodup : (s.posted ++ s.socks).Nodup
  fresh : ∀ k, k ∈ s.posted ∨ k ∈ s.socks ∨ k ∈ s.shut → k < s.next
  opened : ∀ k ∈ s.posted, k ∉ s.shut
  clients : ∀ k ∈ s.clients, k ∈ s.socks
  visible : s.stage.isClear = false → ∀ k ∈ s.socks, k ∈ s.clients
  counted : s.count = s.coroutines.length

theorem inv_initial : initial.Inv where
  nodup := List.nodup_nil
  fresh := fun k h => by rcases h with h | h | h <;> cases h
  opened := fun k h => by cases h
  clients := fun k h => by cases h
  visible := fun _ k h => by cases h
  counted := rfl

theorem Inv.spawn {s : ServiceThread} (h : s.Inv) : (s.effect .spawn).Inv where
  nodup := by
    have hnext : s.next ∉ s.posted ++ s.socks := fun hmem =>
      Nat.lt_irrefl _ (h.fresh _ ((List.mem_append.mp hmem).imp_right .inl))
    have hperm : (s.posted ++ [s.next] ++ s.socks).Perm (s.next :: (s.posted ++ s.socks)) := by
      rw [List.append_assoc]
      exact List.perm_middle
    exact hperm.nodup_iff.mpr (List.nodup_cons.mpr ⟨hnext, h.nodup⟩)
  fresh := by
    intro k hk
    have hlt : k < s.next ∨ k = s.next := by
      rcases hk with hk | hk
      · rcases List.mem_append.mp hk with hk | hk
        · exact .inl (h.fresh k (.inl hk))
        · exact .inr (List.mem_singleton.mp hk)
      · exact .inl (h.fresh k (.inr hk))
    exact Nat.lt_succ_iff.mpr (hlt.elim Nat.le_of_lt Nat.le_of_eq)
  opened := by
    intro k hk hshut
    rcases List.mem_append.mp hk with hk | hk
    · exact h.opened k hk hshut
    · have hlt := h.fresh k (.inr (.inr hshut))
      rw [List.mem_singleton.mp hk] at hlt
      exact Nat.lt_irrefl _ hlt
  clients := h.clients
  visible := h.visible
  counted := h.counted

theorem Inv.start {s : ServiceThread} (h : s.Inv) {k : Nat} (connected : Bool)
    (hk : s.posted.head? = some k) : (s.start k connected).Inv := by
  obtain ⟨rest, hposted⟩ : ∃ rest, s.posted = k :: rest := List.head?_eq_some_iff.mp hk
  -- the socket moves from the queue to the started coroutines
  have htail : (s.start k connected).posted = rest := congrArg List.tail hposted
  have hsub : ∀ j ∈ rest, j ∈ s.posted := fun j hj => hposted ▸ List.mem_cons_of_mem k hj
  refine ⟨?_, ?_, ?_, ?_, ?_, ?_⟩
  · rw [htail, socks_start]
    have hnodup := h.nodup
    rw [hposted, List.cons_append] at hnodup
    exact List.perm_middle.nodup_iff.mpr hnodup
  · intro j hj
    rw [htail, socks_start, List.mem_cons] at hj
    rcases hj with hj | (rfl | hj) | hj
    · exact h.fresh j (.inl (hsub j hj))
    · exact h.fresh j (.inl (hposted ▸ List.mem_cons_self ..))
    · exact h.fresh j (.inr (.inl hj))
    · exact h.fresh j (.inr (.inr hj))
  · intro j hj
    rw [htail] at hj
    exact h.opened j (hsub j hj)
  · intro j hj
    rw [socks_start]
    rcases List.mem_insert_iff.mp hj with rfl | hj
    · exact List.mem_cons_self ..
    · exact List.mem_cons_of_mem _ (h.clients j hj)
  · intro hstage j hj
    rw [socks_start, List.mem_cons] at hj
    exact List.mem_insert_iff.mpr (hj.imp_right (h.visible hstage j))
  · exact congrArg (· + 1) h.counted

/-- Closing the socket of a coroutine that has started. -/
theorem Inv.close {s : ServiceThread} (h : s.Inv) {k : Nat} (hk : k ∈ s.socks) :
    (s.close k).Inv := by
  refine ⟨h.nodup, ?_, ?_, h.clients, h.visible, h.counted⟩
  · intro j hj
    rcases hj with hj | hj | hj
    · exact h.fresh j (.inl hj)
    · exact h.fresh j (.inr (.inl hj))
    · rcases List.mem_cons.mp hj with rfl | hj
      · exact h.fresh j (.inr (.inl hk))
      · exact h.fresh j (.inr (.inr hj))
  · intro j hj hshut
    rcases List.mem_cons.mp hshut with rfl | hshut
    · exact (List.disjoint_of_nodup_append h.nodup) hj hk
    · exact h.opened j hj hshut

theorem Inv.teardown {s : ServiceThread} (h : s.Inv) {k : Nat} (hk : k ∈ s.socks) :
    (s.teardown k).Inv := by
  have hclose := h.close hk
  have hsub : ∀ j ∈ (s.teardown k).socks, j ∈ s.socks := by
    intro j hj
    rw [socks_teardown] at hj
    exact List.mem_of_mem_filter hj
  refine ⟨?_, ?_, hclose.opened, ?_, ?_, ?_⟩
  · rw [socks_teardown]
    exact h.nodup.sublist ((List.Sublist.refl _).append List.filter_sublist)
  · exact fun j hj => hclose.fresh j (hj.imp_right fun hj => hj.imp_left (hsub j))
  · intro j hj
    obtain ⟨hj, hne⟩ := List.mem_filter.mp hj
    rw [socks_teardown]
    exact List.mem_filter.mpr ⟨h.clients j hj, hne⟩
  · intro hstage j hj
    rw [socks_teardown] at hj
    obtain ⟨hj, hne⟩ := List.mem_filter.mp hj
    exact List.mem_filter.mpr ⟨h.visible hstage j hj, hne⟩
  · have hlen : (s.teardown k).coroutines.length = (s.teardown k).socks.length :=
      (List.length_map _).symm
    have hsocks : s.socks.Nodup := (List.nodup_append.mp h.nodup).2.1
    have hcount : s.count = s.socks.length := h.counted.trans (List.length_map _).symm
    rw [hlen, socks_teardown, ← hsocks.erase_eq_filter, List.length_erase_of_mem hk, ← hcount]
    rfl

/-- `clear` closes sockets of coroutines that have started, and no other. -/
theorem Inv.clear {s : ServiceThread} (h : s.Inv) : (s.effect .clear).Inv := by
  refine ⟨h.nodup, ?_, ?_, fun k hk => (by cases hk), (fun hstage => by cases hstage),
    h.counted⟩
  · intro k hk
    rcases hk with hk | hk | hk
    · exact h.fresh k (.inl hk)
    · exact h.fresh k (.inr (.inl hk))
    · rcases List.mem_append.mp hk with hk | hk
      · exact h.fresh k (.inr (.inl (h.clients k hk)))
      · exact h.fresh k (.inr (.inr hk))
  · intro k hk hshut
    rcases List.mem_append.mp hshut with hshut | hshut
    · exact (List.disjoint_of_nodup_append h.nodup) hk (h.clients k hshut)
    · exact h.opened k hk hshut

theorem Inv.setWaiting {s : ServiceThread} (h : s.Inv) (k : Nat) (w : Bool) :
    (s.setWaiting k w).Inv where
  nodup := by
    rw [socks_setWaiting]
    exact h.nodup
  fresh := by
    rw [socks_setWaiting]
    exact h.fresh
  opened := h.opened
  clients := by
    rw [socks_setWaiting]
    exact h.clients
  visible := by
    rw [socks_setWaiting]
    exact h.visible
  counted := h.counted.trans (List.length_map _).symm

/-- Every step keeps the invariant. -/
theorem Inv.step {s t : ServiceThread} {l : Label} (h : s.Inv) (hst : s.step l = some t) :
    t.Inv := by
  obtain ⟨henabled, rfl⟩ := step_eq_some.mp hst
  cases l with
  | accept => exact { h with }
  | spawn => exact h.spawn
  | start k connected => exact h.start connected henabled.1
  | received k again => exact h.setWaiting k again
  | failed k => exact h.setWaiting k false
  | timeout k => exact h.close henabled
  | teardown k => exact h.teardown (sock_mem henabled)
  | halt => exact { h with visible := fun _ => h.visible (by rw [henabled]; rfl) }
  | resetWork => exact { h with visible := fun _ => h.visible (by rw [henabled]; rfl) }
  | clear => exact h.clear
  | exit => exact { h with }
  | join => exact { h with visible := fun hstage => by cases hstage }

/-- The invariant holds in every run. -/
theorem inv_exec {ls : List Label} {s : ServiceThread} (h : exec step initial ls = some s) :
    s.Inv :=
  exec_invariant (fun _ _ _ hs hst => hs.step hst) inv_initial h

/-! ## Quiet after `clear` -/

/-- After `clear`, nobody waits for a read on an open socket. -/
def Quiet (s : ServiceThread) : Prop :=
  s.stage.isClear = true → ∀ c ∈ s.coroutines, c.waiting = true → c.sock ∈ s.shut

/-- A coroutine starts, and goes on to wait for a read. -/
def startsWaiting : Label → Bool
  | .start _ connected => connected
  | _ => false

/-- Such a start comes after `clear`. -/
def startsAfterClear : List Label → Bool
  | [] => false
  | l :: ls => (l == .clear && ls.any startsWaiting) || startsAfterClear ls

theorem startsAfterClear_concat (ls : List Label) (l : Label) :
    startsAfterClear (ls ++ [l]) =
      (startsAfterClear ls || (ls.contains .clear && startsWaiting l)) := by
  induction ls with
  | nil => simp [startsAfterClear]
  | cons l' ls ih =>
    rw [List.cons_append, startsAfterClear, startsAfterClear, ih, List.any_append,
      List.any_cons, List.any_nil, Bool.or_false, List.contains_cons, BEq.comm]
    grind

/-- What is not after a `clear` in a run is not after one in a prefix of it. -/
theorem startsAfterClear_mono {ls pre : List Label} (hpre : pre <+: ls)
    (h : startsAfterClear ls = false) : startsAfterClear pre = false := by
  obtain ⟨post, rfl⟩ := hpre
  induction post using List.reverseRecOn with
  | nil => rwa [List.append_nil] at h
  | append_singleton post l ih =>
    rw [← List.append_assoc, startsAfterClear_concat, Bool.or_eq_false_iff] at h
    exact ih h.1

/-- The stage tells whether `clear` was among the steps. -/
theorem isClear_exec {ls : List Label} {s : ServiceThread}
    (h : exec step initial ls = some s) : s.stage.isClear = ls.contains .clear := by
  refine exec_history (P := fun ls (s : ServiceThread) =>
    s.stage.isClear = ls.contains .clear) ?_ rfl ls s h
  intro ls s l t _ ih hst
  obtain ⟨henabled, rfl⟩ := step_eq_some.mp hst
  rw [List.contains_append, ← ih]
  cases l with
  | halt => rw [henabled]; rfl
  | resetWork => rw [henabled]; rfl
  | clear => exact (Bool.or_true _).symm
  | join => rw [henabled.1]; rfl
  | _ => exact (Bool.or_false _).symm

/-- A step keeps the service quiet, unless it is such a start. -/
theorem Quiet.step {s t : ServiceThread} {l : Label} (h : s.Quiet) (hinv : s.Inv)
    (hst : s.step l = some t) (hl : s.stage.isClear = true → startsWaiting l = false) :
    t.Quiet := by
  obtain ⟨henabled, rfl⟩ := step_eq_some.mp hst
  -- a coroutine that reads again does so on the socket it has waited on
  have hset : ∀ k w, ⟨k, true⟩ ∈ s.coroutines → (s.setWaiting k w).Quiet := by
    intro k w hk hstage c hc hwaiting
    obtain ⟨c', hc', rfl⟩ := List.mem_map.mp hc
    by_cases heq : c'.sock = k
    · rw [if_pos heq]
      rw [heq]
      exact h hstage _ hk rfl
    · rw [if_neg heq] at hwaiting ⊢
      exact h hstage c' hc' hwaiting
  cases l with
  | accept => exact h
  | spawn => exact h
  | start k connected =>
    intro hstage c hc hwaiting
    rcases List.mem_cons.mp hc with rfl | hc
    · have hno : connected = false := hl hstage
      rw [hno] at hwaiting
      cases hwaiting
    · exact h hstage c hc hwaiting
  | received k again => exact hset k again henabled
  | failed k => exact hset k false henabled
  | timeout k =>
    exact fun hstage c hc hwaiting => List.mem_cons_of_mem _ (h hstage c hc hwaiting)
  | teardown k =>
    exact fun hstage c hc hwaiting =>
      List.mem_cons_of_mem _ (h hstage c (List.mem_of_mem_filter hc) hwaiting)
  | halt => exact fun hstage => by cases hstage
  | resetWork => exact fun hstage => by cases hstage
  | clear =>
    -- every socket of a coroutine that has started is one `clear` finds
    intro _ c hc _
    have hstage : s.stage.isClear = false := by rw [henabled]; rfl
    exact List.mem_append_left _ (hinv.visible hstage _ (sock_mem hc))
  | exit => exact h
  | join => exact fun _ => h (by rw [henabled.1]; rfl)

/-- A coroutine that starts after `clear` waits on its open socket. -/
theorem not_quiet_of_start {s t : ServiceThread} {l : Label} (hinv : s.Inv)
    (hstage : s.stage.isClear = true) (hl : startsWaiting l = true)
    (hst : s.step l = some t) : ¬ t.Quiet := by
  obtain ⟨henabled, rfl⟩ := step_eq_some.mp hst
  cases l with
  | start k connected =>
    have hconnected : connected = true := hl
    subst hconnected
    obtain ⟨rest, hposted⟩ := List.head?_eq_some_iff.mp henabled.1
    intro h
    exact hinv.opened k (hposted ▸ List.mem_cons_self ..)
      (h hstage ⟨k, true⟩ (List.mem_cons_self ..) rfl)
  | _ => cases hl

/-- A run without such a start is quiet in its last state. -/
theorem quiet_exec {ls : List Label} {s : ServiceThread} (h : exec step initial ls = some s)
    (hls : startsAfterClear ls = false) : s.Quiet := by
  refine exec_history (P := fun ls (s : ServiceThread) =>
    startsAfterClear ls = false → s.Quiet) ?_ (fun _ hstage => by cases hstage) ls s h hls
  intro ls s l t hexec ih hst hls
  rw [startsAfterClear_concat, Bool.or_eq_false_iff, ← isClear_exec hexec] at hls
  -- the last step is not a late start, and the steps before it are not either
  refine (ih hls.1).step (inv_exec hexec) hst fun hstage => ?_
  rw [hstage, Bool.true_and] at hls
  exact hls.2

/-- A run with such a start is not quiet right after it. -/
theorem exists_not_quiet {ls : List Label} {s : ServiceThread}
    (h : exec step initial ls = some s) (hls : startsAfterClear ls = true) :
    ∃ pre t, pre <+: ls ∧ exec step initial pre = some t ∧ ¬ t.Quiet := by
  refine exec_history (P := fun ls (_ : ServiceThread) => startsAfterClear ls = true →
    ∃ pre t, pre <+: ls ∧ exec step initial pre = some t ∧ ¬ t.Quiet) ?_
    (fun hnil => by cases hnil) ls s h hls
  intro ls s l t hexec ih hst hls
  rw [startsAfterClear_concat, Bool.or_eq_true, Bool.and_eq_true, ← isClear_exec hexec] at hls
  rcases hls with hls | ⟨hstage, hl⟩
  · obtain ⟨pre, m, hpre, hm, hno⟩ := ih hls
    exact ⟨pre, m, hpre.trans (List.prefix_append ..), hm, hno⟩
  · exact ⟨ls ++ [l], t, List.prefix_rfl, exec_append.mpr ⟨s, hexec, exec_cons.mpr ⟨t, hst, rfl⟩⟩,
      not_quiet_of_start (inv_exec hexec) hstage hl hst⟩

/-- **Stopping leaves no connection behind, exactly when nothing starts late**:
in every run of the service, in every state it goes through after `clear`, no
coroutine waits for a read on a socket that is open, if and only if no coroutine
that its `_connected` lets wait starts after `clear`. -/
theorem quiet_iff (ls : List Label) (s : ServiceThread) (h : exec step initial ls = some s) :
    (∀ pre t, pre <+: ls → exec step initial pre = some t → t.Quiet) ↔
      startsAfterClear ls = false := by
  constructor
  · intro hquiet
    by_contra hls
    obtain ⟨pre, t, hpre, ht, hno⟩ := exists_not_quiet h (Bool.not_eq_false _ ▸ hls)
    exact hno (hquiet pre t hpre ht)
  · exact fun hls pre t hpre ht => quiet_exec ht (startsAfterClear_mono hpre hls)

/-- Two connections, the second of which is refused after `clear` closed the
socket of the first. -/
theorem quiet_iff_two : ∃ s, exec step initial
      [.accept, .spawn, .start 0 true, .accept, .spawn, .halt, .resetWork, .clear,
        .start 1 false, .failed 0, .teardown 0, .teardown 1, .exit, .join] = some s ∧
    ∀ pre t, pre <+: [.accept, .spawn, .start 0 true, .accept, .spawn, .halt, .resetWork,
        .clear, .start 1 false, .failed 0, .teardown 0, .teardown 1, .exit, .join] →
      exec step initial pre = some t → t.Quiet :=
  ⟨_, rfl, (quiet_iff _ _ rfl).mpr rfl⟩

/-- A connection whose coroutine is in the queue when `clear` runs: `join` waits
for its read on an open socket. -/
theorem starts_after_clear : ∃ s, exec step initial
      [.accept, .spawn, .halt, .resetWork, .clear, .start 0 true] = some s ∧ ¬ s.Quiet :=
  ⟨_, rfl, fun h => by cases h rfl ⟨0, true⟩ (List.mem_cons_self ..) rfl⟩

end KgCpp.Net.ServiceThread
