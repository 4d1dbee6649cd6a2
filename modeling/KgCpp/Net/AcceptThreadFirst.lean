import KgCpp.Net.AcceptThread

/-!
# What the first service gets

There is no bound on what the first service gets: `first_all`, it may get any number of
connections while none of the others ever has more than one. Each time its block is over
the second service is chosen, whose connections leave; then no service has fewer than
that one, and the first service, which is not looked at, is chosen again.
-/

namespace KgCpp.Net.AcceptThread

open Lib

/-- Each service but the first has one connection at most. -/
def Sparse (s : AcceptThread) : Prop := ∀ i, 0 < i → s.conns i ≤ 1

/-- There is a run from one state to the other in which that is so all the time. -/
def Leads (s t : AcceptThread) : Prop :=
  ∃ labels, exec step s labels = some t ∧ Throughout step Sparse s labels

theorem Leads.trans {s t u : AcceptThread} (h : Leads s t) (h' : Leads t u) : Leads s u := by
  obtain ⟨labels, hexec, hsparse⟩ := h
  obtain ⟨labels', hexec', hsparse'⟩ := h'
  exact ⟨labels ++ labels', exec_append.mpr ⟨t, hexec, hexec'⟩, hsparse.append hexec hsparse'⟩

/-- The server when its first service has `m` connections and the others have none. -/
def crowded (server : BasicServer) (m flag pos : Nat) : BasicServer :=
  { server with
    services := ⟨m⟩ :: List.replicate (server.services.length - 1) ⟨0⟩
    flag := flag
    pos := pos }

/-- A connection has come in on that server, or none. -/
def crowd (server : BasicServer) (m flag pos : Nat) (old : Option Nat) : AcceptThread :=
  ⟨crowded server m flag pos, .posting old, []⟩

/-- The coroutine of a connection starts; and on a service other than the first it ends. -/
def settle : Option Nat → List AcceptLabel
  | none => []
  | some 0 => [.start 0]
  | some (j + 1) => [.start (j + 1), .finish (j + 1)]

section First

variable {server : BasicServer} {m flag pos : Nat} {old : Option Nat}

theorem load_crowded (server : BasicServer) (m flag pos i : Nat) :
    (crowded server m flag pos).load i = if i = 0 then m else 0 := by
  cases i with
  | zero => rfl
  | succ i =>
    rw [if_neg (Nat.succ_ne_zero i)]
    show ((List.replicate _ (⟨0⟩ : Service)).getD i _).clients = 0
    rw [List.getD_eq_getElem?_getD, List.getElem?_replicate]
    split <;> rfl

theorem sparse_crowd : Sparse (crowd server m flag pos old) := by
  intro i hi
  show (crowded server m flag pos).load i + (0 + old.toList.count i) ≤ 1
  rw [load_crowded, if_neg hi.ne', Nat.zero_add, Nat.zero_add]
  exact List.count_le_length.trans Option.length_toList_le

theorem length_crowded (m flag pos : Nat) (hmany : 2 ≤ server.services.length) :
    (crowded server m flag pos).services.length = server.services.length := by
  show (List.replicate _ _).length + 1 = _
  rw [List.length_replicate]
  omega

/-- The loop takes the second service for the first when that has a connection, and else takes
the first. -/
theorem candidate_crowded (hmany : 2 ≤ server.services.length) :
    (crowded server m flag pos).candidate = if pos = 0 ∧ m ≠ 0 then 1 else 0 := by
  have hload := load_crowded server m flag pos
  rw [BasicServer.candidate, BasicServer.leastLoaded_eq, length_crowded _ _ _ hmany, hload]
  show (scanLeast (crowded server m flag pos).load _ _).2 = _
  obtain ⟨k, hk⟩ := Nat.exists_eq_add_of_le hmany
  rw [show server.services.length - 1 = k + 1 by omega, List.range'_succ]
  by_cases h : pos = 0 ∧ m ≠ 0
  · rw [if_pos h]
    show (scanLeast _ (if pos = 0 then m else 0, 0) ([] ++ 1 :: _)).2 = _
    rw [if_pos h.1]
    refine congrArg Prod.snd (scanLeast_first ?_ (fun j hj => by cases hj) fun j _ => ?_)
    · rw [hload]
      exact Nat.pos_of_ne_zero h.2
    · rw [hload]
      exact Nat.zero_le _
  · have hzero : (if pos = 0 then m else 0) = 0 := by
      split
      · rename_i hpos
        exact not_not.mp fun hm => h ⟨hpos, hm⟩
      · rfl
    rw [if_neg h]
    show (scanLeast _ (if pos = 0 then m else 0, 0) _).2 = _
    rw [hzero, scanLeast_eq_start fun j _ => Nat.zero_le _]

/-- What `get_service` then does. -/
theorem getService_crowded (m flag : Nat) (hmany : 2 ≤ server.services.length)
    (hpoll : 0 < server.poll) (hpos : pos < 2) :
    (crowded server m flag pos).getService =
      if flag ≠ 0 then .ok (pos, crowded server m (flag - 1) pos)
      else .ok (if pos = 0 ∧ m ≠ 0 then 1 else 0,
        crowded server m (server.poll - 1) (if pos = 0 ∧ m ≠ 0 then 1 else 0)) := by
  have hlength := length_crowded m flag pos hmany
  have hin : pos < (crowded server m flag pos).services.length := by omega
  rw [BasicServer.getService_turn (s := crowded server m flag pos) hin hpoll,
    candidate_crowded hmany, Blocks.turn]
  by_cases hflag : flag ≠ 0
  · rw [if_pos hflag, if_pos (show (crowded server m flag pos).flag ≠ 0 from hflag)]
    rfl
  · rw [if_neg hflag, if_neg (show ¬ (crowded server m flag pos).flag ≠ 0 from hflag)]
    rfl

theorem countedOff_counted (s : BasicServer) (i : Nat) : (s.counted i).countedOff i = s := by
  have hmodify : (s.services.modify i fun x => ⟨x.clients + 1⟩).modify i
      (fun x => ⟨x.clients - 1⟩) = s.services := by
    rw [List.modify_modify_eq]
    exact List.modify_id ..
  unfold BasicServer.countedOff BasicServer.counted
  dsimp only
  rw [hmodify]

theorem step_start {s : AcceptThread} {j : Nat} (hj : j ∈ s.spawned) :
    s.step (.start j) =
      some { s with server := s.server.counted j, spawned := s.spawned.erase j } :=
  if_pos hj

theorem step_finish {s : AcceptThread} {j : Nat} (hj : 0 < s.server.load j) :
    s.step (.finish j) = some { s with server := s.server.countedOff j } :=
  if_pos hj

theorem exec_settle (hmany : 2 ≤ server.services.length) {c : Nat}
    (hold : old = none ∨ old = some 0 ∨ old = some 1) :
    exec step ⟨crowded server m flag pos, .accepting c, old.toList⟩ (settle old) =
      some ⟨crowded server (m + if old = some 0 then 1 else 0) flag pos, .accepting c, []⟩ := by
  rcases hold with rfl | rfl | rfl
  · rfl
  · rfl
  · have hload : 0 < ((crowded server m flag pos).counted 1).load 1 := by
      rw [BasicServer.load_counted (by rw [length_crowded _ _ _ hmany]; omega), if_pos rfl]
      exact Nat.succ_pos _
    have hspawned : 1 ∈ (some 1).toList := List.mem_singleton_self 1
    refine exec_cons.mpr ⟨_, step_start hspawned, exec_cons.mpr ⟨_, step_finish hload, ?_⟩⟩
    rw [countedOff_counted]
    rfl

/-- No connection comes in while `get_service` runs and the one before is settled. -/
theorem ne_complete {s : BasicServer} {l : AcceptLabel} (hl : l ∈ call s ++ .post :: settle old) :
    l ≠ .complete true := by
  rintro rfl
  rcases List.mem_append.mp hl with hl | hl
  · unfold call at hl
    split at hl
    · cases List.mem_singleton.mp hl
    · rcases List.mem_cons.mp hl with hl | hl
      · cases hl
      · rcases List.mem_append.mp hl with hl | hl
        · cases List.eq_of_mem_replicate hl
        · cases List.mem_singleton.mp hl
  · rcases List.mem_cons.mp hl with hl | hl
    · cases hl
    · unfold settle at hl
      split at hl <;> simp at hl

/-- A connection comes in, on the service that is chosen next. -/
theorem leads_turn (hmany : 2 ≤ server.services.length) (hpos : pos < server.services.length)
    (hacceptor : server.acceptor = true) (hold : old = none ∨ old = some 0 ∨ old = some 1)
    {flag' c : Nat}
    (hget : (crowded server m flag pos).getService = .ok (c, crowded server m flag' c)) :
    Leads (crowd server m flag pos old)
      (crowd server (m + if old = some 0 then 1 else 0) flag' c (some c)) := by
  have hin : (crowded server m flag pos).pos < (crowded server m flag pos).services.length := by
    rwa [length_crowded _ _ _ hmany]
  obtain ⟨i, server', hcall, hexec⟩ := exec_call hin old []
  cases hget.symm.trans hcall
  have hrest : exec step (crowd server m flag pos old)
      (call (crowded server m flag pos) ++ .post :: settle old) =
        some ⟨crowded server (m + if old = some 0 then 1 else 0) flag' c, .accepting c, []⟩ :=
    exec_append.mpr ⟨_, hexec, exec_cons.mpr ⟨_, if_pos hacceptor, exec_settle hmany hold⟩⟩
  refine ⟨(call (crowded server m flag pos) ++ .post :: settle old) ++ [.complete true],
    exec_append.mpr ⟨_, hrest, rfl⟩, ?_⟩
  have hquiet : Throughout step Sparse (crowd server m flag pos old)
      (call (crowded server m flag pos) ++ .post :: settle old) := by
    exact throughout_of_step (· ≠ .complete true)
      (fun s l t hs hl ht j hj => (conns_step ht hl).trans (hs j hj)) sparse_crowd
      fun l hl => ne_complete hl
  refine hquiet.append hrest (throughout_cons.mpr ⟨?_, fun t ht => ?_⟩)
  · exact hquiet _ _ (List.prefix_refl _) hrest
  · cases ht
    exact throughout_nil.mpr sparse_crowd

/-- The block of the second service ends, and the first one gets the next. -/
theorem leads_back (hmany : 2 ≤ server.services.length) (hpoll : 0 < server.poll)
    (hacceptor : server.acceptor = true) :
    Leads (crowd server m flag 1 (some 1)) (crowd server m (server.poll - 1) 0 (some 0)) := by
  induction flag with
  | zero =>
    have hget := getService_crowded m 0 hmany hpoll Nat.one_lt_two
    exact leads_turn hmany (by omega) hacceptor (.inr (.inr rfl)) hget
  | succ flag ih =>
    have hget := getService_crowded m (flag + 1) hmany hpoll Nat.one_lt_two
    exact (leads_turn hmany (by omega) hacceptor (.inr (.inr rfl)) hget).trans ih

/-- The first service gets one more. -/
theorem leads_more (hmany : 2 ≤ server.services.length) (hpoll : 0 < server.poll)
    (hacceptor : server.acceptor = true) (m flag : Nat) :
    ∃ flag', Leads (crowd server m flag 0 (some 0)) (crowd server (m + 1) flag' 0 (some 0)) := by
  have hget := getService_crowded m flag hmany hpoll Nat.two_pos
  by_cases hflag : flag ≠ 0
  · rw [if_pos hflag] at hget
    exact ⟨flag - 1, leads_turn hmany (by omega) hacceptor (.inr (.inl rfl)) hget⟩
  · rw [if_neg hflag] at hget
    refine ⟨server.poll - 1, ?_⟩
    by_cases hm : m ≠ 0
    · rw [if_pos ⟨rfl, hm⟩] at hget
      exact (leads_turn hmany (by omega) hacceptor (.inr (.inl rfl)) hget).trans
        (leads_back hmany hpoll hacceptor)
    · rw [if_neg fun h => hm h.2] at hget
      exact leads_turn hmany (by omega) hacceptor (.inr (.inl rfl)) hget

theorem leads_many (hmany : 2 ≤ server.services.length) (hpoll : 0 < server.poll)
    (hacceptor : server.acceptor = true) (flag n : Nat) :
    ∃ flag', Leads (crowd server 0 flag 0 (some 0)) (crowd server n flag' 0 (some 0)) := by
  induction n with
  | zero => exact ⟨flag, [], rfl, throughout_nil.mpr sparse_crowd⟩
  | succ n ih =>
    obtain ⟨flag', h⟩ := ih
    obtain ⟨flag'', h'⟩ := leads_more hmany hpoll hacceptor n flag'
    exact ⟨flag'', h.trans h'⟩

end First

/-- A server that was just constructed is such a server. -/
theorem crowded_construct {ctor : BasicServer.Constructor} {laddr : List Char}
    {poll timeout : Nat} {env : Environment} {server : BasicServer}
    (h : (BasicServer.construct ctor laddr poll timeout env).1 = some server)
    (hmany : 2 ≤ server.services.length) : crowded server 0 server.flag 0 = server := by
  have hservices : server.services = ⟨0⟩ :: List.replicate (server.services.length - 1) ⟨0⟩ := by
    rw [← List.replicate_succ,
      show server.services.length - 1 + 1 = server.services.length by omega]
    refine List.eq_replicate_iff.mpr ⟨rfl, fun x hx => ?_⟩
    obtain ⟨i, hi, rfl⟩ := List.mem_iff_getElem.mp hx
    have hload := BasicServer.load_construct h i
    rw [BasicServer.load, List.getD, List.getElem?_eq_getElem hi, Option.getD_some] at hload
    exact congrArg Service.mk hload
  unfold crowded
  rw [← hservices, ← (BasicServer.fresh_construct h).1]

/-- **No such share for the first**: whatever the number of services, there are runs in which
the first one gets any number of connections while none of the others ever has more than
one. -/
theorem first_all (ctor : BasicServer.Constructor) (laddr : List Char) (poll timeout : Nat)
    (env : Environment) (server : BasicServer)
    (h : (BasicServer.construct ctor laddr poll timeout env).1 = some server)
    (husable : server.Usable) (hmany : 2 ≤ server.services.length) (n : Nat) :
    ∃ labels s, exec step (initial server) labels = some s ∧ n ≤ s.conns 0 ∧
      Throughout step Sparse (initial server) labels := by
  have hpoll : 0 < server.poll := by
    rw [(BasicServer.fresh_construct h).2.2]
    split <;> omega
  have hcrowd : initial server = crowd server 0 server.flag 0 none := by
    rw [crowd, crowded_construct h hmany]
    rfl
  have hget := getService_crowded 0 server.flag hmany hpoll Nat.two_pos
  have hfirst : ∃ flag, Leads (initial server) (crowd server 0 flag 0 (some 0)) := by
    rw [hcrowd]
    by_cases hflag : server.flag ≠ 0
    · rw [if_pos hflag] at hget
      exact ⟨_, leads_turn hmany (by omega) husable.1 (.inl rfl) hget⟩
    · rw [if_neg hflag] at hget
      exact ⟨_, leads_turn hmany (by omega) husable.1 (.inl rfl) hget⟩
  obtain ⟨flag, hlead⟩ := hfirst
  obtain ⟨flag', hmore⟩ := leads_many hmany hpoll husable.1 flag n
  obtain ⟨labels, hexec, hsparse⟩ := hlead.trans hmore
  exact ⟨labels, _, hexec, Nat.le_add_right n _, hsparse⟩

/-- Four services. -/
theorem first_all_four :
    ∃ server, (BasicServer.construct .throwing [':', ':', '1', ':', '8', '0'] 1 0
        (BasicServer.host 4)).1 = some server ∧ ∃ labels s,
      exec step (initial server) labels = some s ∧ 1000 ≤ s.conns 0 ∧
        Throughout step Sparse (initial server) labels :=
  ⟨_, rfl, first_all .throwing [':', ':', '1', ':', '8', '0'] 1 0 (BasicServer.host 4) _ rfl
    (by decide) (by decide) 1000⟩

end KgCpp.Net.AcceptThread
