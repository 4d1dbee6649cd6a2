import KgCpp.Net.AcceptThread

/-!
# What a service gets

`conns_le` bounds what a service gets, whatever the order in which the threads take
their steps: a service other than the first never has more connections than its share of
all of them, and one block, and those that are not counted yet.

Between two scans a service gets one block at most. The scan chose it because its count
was the least: the counts were read one after the other, but while the scan goes on no
connection comes in, so that the least one is a share of the connections there were when
it began. The first service is not looked at, and the bound says nothing of it.
-/

namespace KgCpp.Net.AcceptThread

open Lib

/-- How many connections the block under way still brings to a service. -/
def left (s : AcceptThread) (i : Nat) : Nat :=
  (if s.server.pos = i then s.server.flag else 0) + s.next.count i

/-- There are at most `T` connections, of which at most `q` are on the service at `i` and not
counted yet. -/
def Within (T q i : Nat) (s : AcceptThread) : Prop := s.total ≤ T ∧ s.waiting i ≤ q

instance (T q i : Nat) (s : AcceptThread) : Decidable (s.Within T q i) :=
  inferInstanceAs (Decidable (_ ∧ _))

/-- What a scan keeps for the service at `i`, when it is at `k` of `N`. -/
structure Scans (T q N i : Nat) (s : AcceptThread) (least k : Nat) : Prop where
  flag : s.server.flag = 0
  begun : 0 < k
  share : (k - 1) * least + ∑ j ∈ Finset.Ico k N, s.conns j ≤ T
  chosen : s.server.pos = i → s.conns i ≤ least + q

/-- The service at `i` has its share at most, and what the block under way brings it is
within that. -/
structure Shares (T q N size i : Nat) (s : AcceptThread) : Prop where
  length : s.server.services.length = N
  poll : s.server.poll = size
  budget : s.conns i + s.left i ≤ T / (N - 1) + q + size
  scans : ∀ old least k, s.phase = .scanning old least k → Scans T q N i s least k

section Step

variable {T q N size i : Nat} {s t : AcceptThread}

theorem left_idle (h : s.next = []) :
    s.left i = if s.server.pos = i then s.server.flag else 0 := by
  rw [left, h, List.count_nil, Nat.add_zero]

theorem left_next {service : Nat} (h : s.next = [service]) :
    s.left i = (if s.server.pos = i then s.server.flag else 0) + if service = i then 1 else 0 := by
  rw [left, h, List.count_singleton]
  simp only [beq_iff_eq]

/-- A service thread counts a connection, or counts it off. -/
theorem Shares.counts (h : Shares T q N size i s)
    (hlength : t.server.services.length = s.server.services.length)
    (hpoll : t.server.poll = s.server.poll) (hflag : t.server.flag = s.server.flag)
    (hpos : t.server.pos = s.server.pos) (hphase : t.phase = s.phase)
    (hconns : ∀ j, t.conns j ≤ s.conns j) : Shares T q N size i t where
  length := hlength.trans h.length
  poll := hpoll.trans h.poll
  budget := by
    have hleft : t.left i = s.left i := by
      rw [left, left, next, next, hflag, hpos, hphase]
    have := hconns i
    have := h.budget
    omega
  scans := by
    intro old least k hk
    obtain ⟨hzero, hbegun, hshare, hchosen⟩ := h.scans old least k (hphase ▸ hk)
    refine ⟨hflag.trans hzero, hbegun, ?_, fun hi => (hconns i).trans (hchosen (hpos ▸ hi))⟩
    exact (Nat.add_le_add_left (Finset.sum_le_sum fun j _ => hconns j) _).trans hshare

/-- A step outside the loop that leaves the service no more to come. -/
theorem Shares.quiet (h : Shares T q N size i s)
    (hlength : t.server.services.length = s.server.services.length)
    (hpoll : t.server.poll = s.server.poll)
    (hbudget : t.conns i + t.left i ≤ s.conns i + s.left i)
    (hphase : ∀ old least k, t.phase ≠ .scanning old least k) : Shares T q N size i t where
  length := hlength.trans h.length
  poll := hpoll.trans h.poll
  budget := hbudget.trans h.budget
  scans := fun old least k hk => absurd hk (hphase old least k)

/-- `get_service` is entered. -/
theorem Shares.enter (h : Shares T q N size i s) (hB : s.Within T q i) (hi : 0 < i)
    {old : Option Nat} (hphase : s.phase = .posting old) : Shares T q N size i (s.enter old) := by
  have hleft := left_idle (i := i) (s := s) (by rw [next, hphase])
  have hconns : ∀ j, (s.enter old).conns j = s.conns j := fun j => conns_enter hphase
  unfold AcceptThread.enter at hconns ⊢
  split at hconns
  · rename_i hflag
    rw [if_pos hflag]
    refine h.quiet rfl rfl ?_ fun _ _ _ hk => by cases hk
    rw [hconns, hleft, left_next rfl]
    dsimp only
    split <;> omega
  · rename_i hflag
    have hzero : s.server.flag = 0 := not_not.mp hflag
    rw [if_neg hflag]
    refine ⟨h.length, h.poll, ?_, fun _ _ _ hk => ?_⟩
    · have := h.budget
      rw [hconns, left_idle rfl, if_neg hi.ne]
      omega
    · cases hk
      refine ⟨hzero, Nat.one_pos, ?_, fun h0 => absurd h0 hi.ne⟩
      rw [Nat.sub_self, Nat.zero_mul, Nat.zero_add, Finset.sum_congr rfl fun j _ => hconns j]
      refine (Finset.sum_le_sum_of_subset ?_).trans hB.1
      rw [h.length]
      intro j hj
      exact Finset.mem_range.mpr (Finset.mem_Ico.mp hj).2

/-- A turn of the loop. -/
theorem Shares.look (h : Shares T q N size i s) (hB : s.Within T q i) {old : Option Nat}
    {least k : Nat} (hphase : s.phase = .scanning old least k)
    (hk : k < s.server.services.length) : Shares T q N size i (s.look old least k) := by
  obtain ⟨hzero, hbegun, hshare, hchosen⟩ := h.scans old least k hphase
  have hconns : ∀ j, (s.look old least k).conns j = s.conns j := fun j => conns_look hphase
  have hturn := scan_share (g := s.conns) (h.length ▸ hk) (Nat.le_add_right _ _) hshare
  rw [Nat.sub_add_cancel hbegun, ← Finset.sum_congr rfl fun j _ => hconns j] at hturn
  have hbudget := h.budget
  unfold AcceptThread.look at hconns hturn ⊢
  split at hconns
  · rename_i hlt
    rw [if_pos hlt] at hturn ⊢
    rw [if_pos hlt] at hturn
    refine ⟨h.length, h.poll, ?_, fun _ _ _ hk => ?_⟩
    · rw [hconns, left_idle rfl]
      dsimp only
      rw [hzero, ite_self]
      omega
    · cases hk
      refine ⟨hzero, Nat.succ_pos k, hturn, fun hki => ?_⟩
      rw [hconns]
      cases hki
      exact Nat.add_le_add_left hB.2 _
  · rename_i hlt
    rw [if_neg hlt] at hturn ⊢
    rw [if_neg hlt] at hturn
    refine ⟨h.length, h.poll, ?_, fun _ _ _ hk => ?_⟩
    · rw [hconns, left_idle rfl]
      dsimp only
      rw [hzero, ite_self]
      omega
    · cases hk
      refine ⟨hzero, Nat.succ_pos k, hturn, fun hki => ?_⟩
      rw [hconns]
      exact hchosen hki

/-- The loop is over: the least count is a share of all connections. -/
theorem Shares.leave (h : Shares T q N size i s) (hi : 0 < i) (hiN : i < N) (hsize : 0 < size)
    {old : Option Nat} {least k : Nat} (hphase : s.phase = .scanning old least k)
    (hk : ¬ k < s.server.services.length) : Shares T q N size i (s.leave old) := by
  obtain ⟨hzero, hbegun, hshare, hchosen⟩ := h.scans old least k hphase
  have hleast : least ≤ T / (N - 1) := by
    rw [h.length] at hk
    rw [Nat.le_div_iff_mul_le (by omega), Nat.mul_comm]
    exact (Nat.mul_le_mul_right least (by omega)).trans (Nat.le_of_add_right_le hshare)
  refine ⟨h.length, h.poll, ?_, fun _ _ _ hk => by cases hk⟩
  rw [conns_leave hphase, left_next rfl]
  show s.conns i + ((if s.server.pos = i then subSize s.server.poll 1 else 0) +
    if s.server.pos = i then 1 else 0) ≤ _
  rw [h.poll, subSize_of_le hsize]
  split
  · rename_i hpos
    have := hchosen hpos
    omega
  · have := h.budget
    omega

/-- What one step keeps. -/
theorem Shares.step (h : Shares T q N size i s) (hB : s.Within T q i) (hi : 0 < i) (hiN : i < N)
    (hsize : 0 < size) {l : AcceptLabel} (hl : s.step l = some t) : Shares T q N size i t := by
  cases takes_of_step hl with
  | enter hphase => exact h.enter hB hi hphase
  | look hphase hk => exact h.look hB hphase hk
  | leave hphase hk => exact h.leave hi hiN hsize hphase hk
  | fail hphase =>
    refine h.quiet rfl rfl ?_ fun _ _ _ hk => by cases hk
    rw [conns_fail hphase, left_idle rfl, left]
    exact Nat.add_le_add_left (Nat.le_add_right ..) _
  | post hphase =>
    refine h.quiet rfl rfl ?_ fun _ _ _ hk => by cases hk
    rw [conns_post hphase, left_next rfl, left_next (s := s) (by rw [next, hphase])]
  | complete hphase =>
    refine h.quiet rfl rfl ?_ fun _ _ _ hk => by cases hk
    rw [conns_complete hphase, left_idle rfl, left]
    dsimp only
    split <;> omega
  | start hj => exact h.counts (List.length_modify ..) rfl rfl rfl rfl fun _ => conns_start hj
  | @finish j =>
    exact h.counts (List.length_modify ..) rfl rfl rfl rfl fun _ => conns_finish s j

end Step

/-! ## Whole runs -/

section Runs

variable {ctor : BasicServer.Constructor} {laddr : List Char} {poll timeout : Nat}
  {env : Environment} {server : BasicServer}

theorem conns_initial (h : (BasicServer.construct ctor laddr poll timeout env).1 = some server)
    (i : Nat) : (initial server).conns i = 0 := by
  show server.load i + 0 = 0
  rw [BasicServer.load_construct h]

theorem shares_initial (h : (BasicServer.construct ctor laddr poll timeout env).1 = some server)
    (T q : Nat) {i : Nat} (hi : 0 < i) :
    Shares T q server.services.length server.poll i (initial server) where
  length := rfl
  poll := rfl
  budget := by
    have hleft : (initial server).left i = 0 := by
      rw [left_idle rfl]
      exact if_neg (show ¬ server.pos = i by rw [(BasicServer.fresh_construct h).1]; omega)
    rw [conns_initial h, hleft]
    exact Nat.zero_le _
  scans := fun _ _ _ hk => by cases hk

end Runs

/-- **A fair share**: however the threads take their steps, a service other than the first
never has more connections than its share of all of them, and one block, and those that its
thread has not counted yet. -/
theorem conns_le (ctor : BasicServer.Constructor) (laddr : List Char) (poll timeout : Nat)
    (env : Environment) (server : BasicServer)
    (h : (BasicServer.construct ctor laddr poll timeout env).1 = some server)
    (labels : List AcceptLabel) (s : AcceptThread)
    (hexec : exec step (initial server) labels = some s) (T q i : Nat) (hi : 0 < i)
    (hN : i < server.services.length)
    (hwithin : Throughout step (Within T q i) (initial server) labels) :
    s.conns i ≤ T / (server.services.length - 1) + q + server.poll := by
  have hsize : 0 < server.poll := by
    rw [(BasicServer.fresh_construct h).2.2]
    split <;> omega
  have hshares := hwithin.exec_invariant (fun t l t' hB ht hl => ht.step hB hi hN hsize hl)
    (shares_initial h T q hi) hexec
  exact (Nat.le_add_right ..).trans hshares.budget

/-- Three services and blocks of two: the third connection goes to the second service, whose
thread has not counted it. -/
def thirdOnSecond : List AcceptLabel :=
  [.enter, .post, .complete true, .enter, .post, .start 0, .complete true, .enter, .look, .look,
    .leave, .post, .start 0, .complete true]

theorem conns_le_three :
    ∃ server, (BasicServer.construct .throwing [':', ':', '1', ':', '8', '0'] 2 0
        (BasicServer.host 3)).1 = some server ∧
      ∃ s, exec step (initial server) thirdOnSecond = some s ∧ s.waiting 1 = 1 ∧
        s.conns 1 ≤ 3 / 2 + 1 + 2 := by
  refine ⟨_, rfl, _, rfl, by decide, ?_⟩
  exact conns_le .throwing [':', ':', '1', ':', '8', '0'] 2 0 (BasicServer.host 3) _ rfl
    thirdOnSecond _ rfl 3 1 1 (by decide) (by decide) (by decide +kernel)

end KgCpp.Net.AcceptThread
