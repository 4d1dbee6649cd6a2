import KgCpp.Net.BasicServerBlocks
import Mathlib.Data.Int.CardIntervalMod

/-!
# How connections spread over the services

The accept handler posts the next accept, and with it chooses the service of the next
connection, before it starts the coroutine that counts the connection which has just
come in. So the choice for a connection is made without the one before it.

When each connection is counted before the next one comes and none leaves, the service
of the `n`-th follows: `spread_evenly`, with blocks of two or more the services take
turns; `spread_to_first`, with blocks of one every second connection goes to the
first service, whatever their number.
-/

namespace KgCpp.Net.BasicServer

open Lib

/-- `++clients`, in the coroutine of a connection on the service at `i`. -/
def counted (s : BasicServer) (i : Nat) : BasicServer :=
  { s with services := s.services.modify i fun x => ⟨x.clients + 1⟩ }

/-- An accept ends, whose socket is on the service at `t.2`: the handler posts the
next one, and the coroutine counts the connection. What comes out is the service of the
connection. -/
def arrive (t : BasicServer × Nat) (_ : Unit) : (BasicServer × Nat) × Nat :=
  match t.1.getService with
  | .ok (next, _) => (((t.1.postAcceptHandler []).1.counted t.2, next), t.2)
  | .error _ => (t, t.2)

/-- `run` posts the first accept. -/
def launch (s : BasicServer) : BasicServer × Nat :=
  match s.getService with
  | .ok (first, _) => ((s.start [] .done).1, first)
  | .error _ => (s, 0)

/-- The services of the first `n` connections. -/
def arrivals (s : BasicServer) (n : Nat) : List Nat :=
  (Lib.run arrive s.launch (List.replicate n ())).2

/-! ## One connection -/

section Arrive

variable {s s' : BasicServer} {i : Nat}

theorem load_counted (hi : i < s.services.length) (j : Nat) :
    (s.counted i).load j = s.load j + if i = j then 1 else 0 := by
  unfold load counted
  rw [List.getD_eq_getElem?_getD, List.getD_eq_getElem?_getD, List.getElem?_modify]
  by_cases hij : i = j
  · subst hij
    rw [if_pos rfl, List.getElem?_eq_getElem hi]
    simp
  · rw [if_neg hij]
    cases s.services[j]? <;> simp [hij]

/-- The handler does what `get_service` does. -/
theorem postAcceptHandler_eq (hrun : s.run = true) (hget : s.getService = .ok (i, s'))
    (hacc : s'.acceptor = true) : s.postAcceptHandler [] = (s', .returned) := by
  rw [postAcceptHandler, if_pos hrun, postAccept, hget]
  dsimp only
  rw [if_pos hacc]

end Arrive

/-! ## A schedule -/

/-- How many of the first `n` connections went to the service at `i`. -/
def share (goal : Nat → Nat) (n i : Nat) : Nat := Nat.count (fun k => goal k = i) n

theorem share_succ (goal : Nat → Nat) (n i : Nat) :
    share goal (n + 1) i = share goal n i + if goal n = i then 1 else 0 :=
  Nat.count_succ ..

/-- The `n`-th connection goes to `goal n`, when `N` services get blocks of `size`: what
the loop finds is the service of the next block. -/
structure Schedules (goal : Nat → Nat) (size N : Nat) : Prop where
  inside : ∀ n, goal n < N
  first : goal 0 = 0
  stays : ∀ n, ¬ size ∣ n + 1 → goal (n + 1) = goal n
  chooses : ∀ n, size ∣ n + 1 →
    (scanLeast (share goal n) (share goal n (goal n), 0) (List.range' 1 (N - 1))).2 = goal (n + 1)

/-- The server after `n` connections that went where `goal` says, and the service of the
next one. -/
structure Spread (goal : Nat → Nat) (size N n : Nat) (t : BasicServer × Nat) : Prop where
  run : t.1.run = true
  acceptor : t.1.acceptor = true
  length : t.1.services.length = N
  poll : t.1.poll = size
  flag : t.1.flag = Blocks.left size (n + 1)
  pos : t.1.pos = goal n
  posted : t.2 = goal n
  load : ∀ i < N, t.1.load i = share goal n i

section Schedule

variable {goal : Nat → Nat} {size N n : Nat} {t : BasicServer × Nat}

/-- The turn of the next connection. -/
theorem Spread.turn (h : Spread goal size N n t) (hgoal : Schedules goal size N)
    (hsize : 0 < size) :
    Blocks.turn t.1.poll (t.1.flag, t.1.pos) t.1.candidate =
      ((Blocks.left size (n + 2), goal (n + 1)), goal (n + 1)) := by
  have hleft := Blocks.left_succ (n := n + 1) hsize
  unfold Blocks.turn
  rw [h.poll, h.flag, h.pos]
  by_cases hzero : Blocks.left size (n + 1) = 0
  · have hdvd := ((Blocks.left_eq_zero hsize).mp hzero).2
    have hscan : t.1.candidate = goal (n + 1) := by
      rw [candidate, leastLoaded_eq, h.pos, h.length, h.load _ (hgoal.inside n)]
      rw [scanLeast_congr fun i hi => ?_, hgoal.chooses n hdvd]
      have := List.mem_range'_1.mp hi
      exact h.load i (by omega)
    rw [if_neg (fun hne => hne hzero), hscan, hleft, if_pos hzero]
  · have hdvd : ¬ size ∣ n + 1 := fun hdvd =>
      hzero ((Blocks.left_eq_zero hsize).mpr ⟨Nat.succ_pos n, hdvd⟩)
    rw [if_pos hzero, hleft, if_neg hzero, hgoal.stays n hdvd]

/-- One connection more. -/
theorem Spread.arrive (h : Spread goal size N n t) (hgoal : Schedules goal size N)
    (hsize : 0 < size) :
    Spread goal size N (n + 1) (arrive t ()).1 ∧ (arrive t ()).2 = goal n := by
  have hpos : t.1.pos < t.1.services.length := by
    rw [h.pos, h.length]
    exact hgoal.inside n
  have hget := getService_turn hpos (by rw [h.poll]; exact hsize)
  rw [h.turn hgoal hsize] at hget
  have hhandler := postAcceptHandler_eq h.run hget h.acceptor
  unfold BasicServer.arrive
  rw [hget]
  dsimp only
  rw [hhandler]
  refine ⟨⟨h.run, h.acceptor, ?_, h.poll, rfl, rfl, rfl, fun i hi => ?_⟩, h.posted⟩
  · exact (List.length_modify ..).trans h.length
  · have hposted : t.2 < t.1.services.length := by
      rw [h.posted, h.length]
      exact hgoal.inside n
    rw [load_counted (s := t.1.turned _) hposted, h.posted, share_succ]
    exact congrArg (· + _) (h.load i hi)

/-- Every connection goes where the schedule says. -/
theorem run_arrive (h : Spread goal size N 0 t) (hgoal : Schedules goal size N)
    (hsize : 0 < size) (n : Nat) :
    (Lib.run BasicServer.arrive t (List.replicate n ())).2 = (List.range n).map goal := by
  have hrun := run_history BasicServer.arrive (fun _ => True)
    (fun is outs t => Spread goal size N is.length t ∧ outs = (List.range is.length).map goal)
    (fun is outs t _ hst _ => ?_) ⟨h, rfl⟩ (List.replicate n ()) fun _ _ => trivial
  · rw [hrun.2, List.length_replicate]
  · obtain ⟨hnext, hout⟩ := hst.1.arrive hgoal hsize
    rw [List.length_append, List.length_singleton]
    refine ⟨hnext, ?_⟩
    rw [hst.2, List.range_succ, List.map_append, List.map_singleton, ← hout]

end Schedule

/-! ## The two schedules -/

section Schedules

variable {size N i : Nat}

/-- The services take turns, a block at a time. -/
def evenly (size N n : Nat) : Nat := n / size % N

/-- Every second connection goes to the first service; the other services take turns. -/
def toFirst (N n : Nat) : Nat :=
  if n = 0 ∨ n % 2 = 1 then 0 else 1 + (n / 2 - 1) % (N - 1)

/-- How many of the numbers below `K` are `i` modulo `N`. -/
theorem count_mod (hi : i < N) (K : Nat) :
    Nat.count (fun k => k % N = i) K = K / N + if i < K % N then 1 else 0 := by
  have hcount := Nat.count_modEq_card K (Nat.zero_lt_of_lt hi) i
  simp only [Nat.ModEq, Nat.mod_eq_of_lt hi] at hcount
  exact hcount

/-- The scan stays with the first service when no other has less. -/
theorem scan_stays {f : Nat → Nat} {least : Nat} (h : ∀ i, 0 < i → i < N → least ≤ f i) :
    (scanLeast f (least, 0) (List.range' 1 (N - 1))).2 = 0 := by
  rw [scanLeast_eq_start]
  intro i hi
  have := List.mem_range'_1.mp hi
  exact h i (by omega) (by omega)

/-- The scan finds the first of the services that have least. -/
theorem scan_finds {f : Nat → Nat} {least j : Nat} (hj : 0 < j) (hjN : j < N)
    (hlt : f j < least) (hbefore : ∀ i, 0 < i → i < j → f j < f i)
    (hafter : ∀ i, j < i → i < N → f j ≤ f i) :
    (scanLeast f (least, 0) (List.range' 1 (N - 1))).2 = j := by
  have hsplit := List.range'_append_1 (s := 1) (m := j - 1) (n := N - 1 - j + 1)
  rw [show 1 + (j - 1) = j by omega, show j - 1 + (N - 1 - j + 1) = N - 1 by omega,
    List.range'_succ] at hsplit
  rw [← hsplit, scanLeast_first hlt]
  · intro i hi
    have := List.mem_range'_1.mp hi
    exact hbefore i (by omega) (by omega)
  · intro i hi
    have := List.mem_range'_1.mp hi
    exact hafter i (by omega) (by omega)

theorem share_evenly (hsize : 0 < size) (N i K : Nat) :
    share (evenly size N) (size * K) i = size * Nat.count (fun k => k % N = i) K := by
  induction K with
  | zero => rfl
  | succ K ih =>
    have hblock : ∀ m, m ≤ size → share (evenly size N) (size * K + m) i =
        size * Nat.count (fun k => k % N = i) K + if K % N = i then m else 0 := by
      intro m hm
      induction m with
      | zero => rw [Nat.add_zero, ih, ite_self, Nat.add_zero]
      | succ m ihm =>
        have hgoal : evenly size N (size * K + m) = K % N := by
          rw [evenly, Nat.mul_add_div hsize, Nat.div_eq_of_lt hm, Nat.add_zero]
        rw [← Nat.add_assoc, share_succ, ihm (Nat.le_of_succ_le hm), hgoal]
        split <;> omega
    rw [Nat.mul_succ, hblock size le_rfl, Nat.count_succ, Nat.mul_add]
    split
    · rw [Nat.mul_one]
    · rw [Nat.mul_zero]

theorem schedules_evenly (hsize : 2 ≤ size) (hN : 0 < N) :
    Schedules (evenly size N) size N where
  inside := fun n => Nat.mod_lt _ hN
  first := by rw [evenly, Nat.zero_div, Nat.zero_mod]
  stays := fun n hdvd => by rw [evenly, evenly, Nat.succ_div_of_not_dvd hdvd]
  chooses := by
    rintro n ⟨K, hK⟩
    have hpos : 0 < size := by omega
    obtain ⟨K, rfl⟩ : ∃ K', K = K' + 1 :=
      Nat.exists_eq_succ_of_ne_zero fun hzero => by rw [hzero] at hK; omega
    have hnext : evenly size N (n + 1) = (K + 1) % N := by
      rw [evenly, hK, Nat.mul_div_cancel_left _ hpos]
    have hlast : evenly size N n = K % N := by
      rw [evenly, Nat.div_eq_of_lt_le (k := K)]
      · rw [Nat.mul_succ, Nat.mul_comm] at hK
        omega
      · rw [Nat.mul_comm, ← hK]
        exact Nat.lt_succ_self n
    -- the block that ends here is the one with the number `K`
    have hshare : ∀ i < N, share (evenly size N) n i + (if K % N = i then 1 else 0) =
        size * ((K + 1) / N) + if i < (K + 1) % N then size else 0 := by
      intro i hi
      rw [← hlast, ← share_succ, hK, share_evenly hpos, count_mod hi, Nat.mul_add, mul_ite,
        Nat.mul_one, Nat.mul_zero]
    generalize share (evenly size N) n = had at *
    generalize size * ((K + 1) / N) = full at *
    have hinside : K % N < N := Nat.mod_lt _ hN
    have hmine := hshare _ hinside
    rw [hnext, hlast]
    by_cases hend : K % N + 1 = N
    · -- all have had as many blocks, the last but for a connection
      have hmod := (Blocks.succ_end hend).2
      rw [hmod] at hshare hmine ⊢
      rw [if_pos rfl, if_neg (Nat.not_lt_zero _)] at hmine
      refine scan_stays fun i _ hi => ?_
      have hother := hshare i hi
      rw [if_neg (Nat.not_lt_zero _)] at hother
      split at hother <;> omega
    · -- the next has had a block less
      have hinner : K % N + 1 < N := by omega
      have hmod := (Blocks.succ_inside hinner).2
      rw [hmod] at hshare hmine ⊢
      rw [if_pos rfl, if_pos (Nat.lt_succ_self _)] at hmine
      have hchosen := hshare (K % N + 1) (by omega)
      rw [if_neg (by omega), if_neg (lt_irrefl _)] at hchosen
      refine scan_finds (Nat.succ_pos _) (by omega) (by omega) (fun i _ hi => ?_) fun i hi hiN => ?_
      · have hother := hshare i (by omega)
        rw [if_pos hi] at hother
        split at hother <;> omega
      · have hother := hshare i hiN
        rw [if_neg (by omega), if_neg (by omega)] at hother
        omega

theorem toFirst_odd (N j : Nat) : toFirst N (2 * j + 1) = 0 := if_pos (.inr (by omega))

theorem toFirst_even (N j : Nat) : toFirst N (2 * j + 2) = j % (N - 1) + 1 := by
  rw [toFirst, if_neg (by omega), show (2 * j + 2) / 2 - 1 = j by omega, Nat.add_comm]

/-- The first service has every second connection, the others have theirs in turn. -/
theorem share_toFirst (N j : Nat) :
    share (toFirst N) (2 * j + 1) 0 = j + 1 ∧
      ∀ i, share (toFirst N) (2 * j + 1) (i + 1) = Nat.count (fun k => k % (N - 1) = i) j := by
  induction j with
  | zero =>
    refine ⟨rfl, fun i => ?_⟩
    rw [share_succ, if_neg (by exact (Nat.succ_ne_zero i).symm)]
    rfl
  | succ j ih =>
    refine ⟨?_, fun i => ?_⟩
    · rw [Nat.mul_succ, share_succ, share_succ, toFirst_odd, toFirst_even, ih.1, if_pos rfl,
        if_neg (Nat.succ_ne_zero _)]
    · rw [Nat.mul_succ, share_succ, share_succ, toFirst_odd, toFirst_even, ih.2, Nat.count_succ,
        if_neg (Nat.succ_ne_zero i).symm, Nat.add_zero]
      simp only [Nat.add_right_cancel_iff]

theorem schedules_toFirst (hN : 2 ≤ N) : Schedules (toFirst N) 1 N where
  inside := fun n => by
    have := Nat.mod_lt (n / 2 - 1) (show 0 < N - 1 by omega)
    unfold toFirst
    split <;> omega
  first := rfl
  stays := fun n hdvd => absurd (Nat.one_dvd _) hdvd
  chooses := by
    rintro n -
    have hothers : 0 < N - 1 := by omega
    obtain rfl | ⟨j, hn⟩ : n = 0 ∨ ∃ j, n = 2 * j + 1 ∨ n = 2 * j + 2 := by
      by_cases hn : n = 0
      · exact .inl hn
      · exact .inr ⟨(n - 1) / 2, by omega⟩
    · exact scan_stays fun i _ _ => Nat.zero_le _
    · obtain ⟨hfirst, hrest⟩ := share_toFirst N j
      have hturn := Nat.mod_lt j hothers
      have hshare : ∀ i, 0 < i → i < N → share (toFirst N) (2 * j + 1) i =
          j / (N - 1) + if i < j % (N - 1) + 1 then 1 else 0 := by
        intro i hi hiN
        obtain ⟨i, rfl⟩ := Nat.exists_eq_succ_of_ne_zero hi.ne'
        rw [hrest, count_mod (by omega)]
        simp only [Nat.succ_eq_add_one, Nat.add_lt_add_iff_right]
      have hchosen := hshare (j % (N - 1) + 1) (Nat.succ_pos _) (by omega)
      rw [if_neg (lt_irrefl _)] at hchosen
      rcases hn with rfl | rfl
      · -- the first service has more than each of the others
        rw [toFirst_odd, hfirst, toFirst_even]
        have hle := Nat.div_le_self j (N - 1)
        refine scan_finds (Nat.succ_pos _) (by omega) (by omega) (fun i hi hij => ?_)
          fun i hij hiN => ?_
        · rw [hshare i hi (by omega), if_pos hij]
          omega
        · rw [hshare i (by omega) hiN]
          omega
      · -- the last connection is not counted yet
        rw [toFirst_even, show 2 * j + 2 + 1 = 2 * (j + 1) + 1 by omega, toFirst_odd]
        have hodd : ∀ i, 0 < i →
            share (toFirst N) (2 * j + 2) i = share (toFirst N) (2 * j + 1) i := fun i hi => by
          rw [share_succ (toFirst N) (2 * j + 1), toFirst_odd, if_neg hi.ne, Nat.add_zero]
        refine scan_stays fun i hi hiN => ?_
        rw [hodd _ (Nat.succ_pos _), hodd i hi, hchosen, hshare i hi hiN]
        omega

end Schedules

/-! ## A server that was just constructed -/

section Construct

variable {s : BasicServer} {ctor : Constructor} {laddr : List Char} {poll timeout : Nat}
  {env : Environment}

/-- Nobody is connected yet. -/
theorem load_construct (h : (construct ctor laddr poll timeout env).1 = some s) (i : Nat) :
    s.load i = 0 := by
  have hidle : ∀ x ∈ s.services, x.clients = 0 := by
    refine of_construct (leaves_init_of (P := fun s => ∀ x ∈ s.services, x.clients = 0)
      (fun x hx => (List.not_mem_nil hx).elim) (fun s _ _ _ hadds hs x hx => ?_) laddr env) h
    exact (hadds x hx).elim (hs x) id
  rw [load, List.getD]
  cases hi : s.services[i]? with
  | none => rfl
  | some x => exact hidle x (List.mem_of_getElem? hi)

/-- The first accept is posted. -/
theorem spread_launch {goal : Nat → Nat} {size N : Nat} (hgoal : Schedules goal size N)
    (hsize : 0 < size) (h : (construct ctor laddr poll timeout env).1 = some s)
    (husable : s.Usable) (hlen : s.services.length = N)
    (hpoll : (if poll < 1 then 10 else poll) = size) : Spread goal size N 0 s.launch := by
  obtain ⟨hpos, hflag, hpoll'⟩ := fresh_construct h
  have hrun := (construct_spec h).1
  rw [hpoll] at hflag hpoll'
  have hget := getService_turn husable.2 (by rw [hpoll']; exact hsize)
  rw [Blocks.turn, if_pos (by rw [hflag]; exact hsize.ne')] at hget
  have hstart : s.start [] .done =
      ({ s.turned (s.flag - 1, s.pos) with run := true, thread := true }, .returned) := by
    rw [start, if_neg (by rw [hrun]; exact Bool.false_ne_true), postAccept, hget]
    dsimp only
    rw [if_pos (show (s.turned (s.flag - 1, s.pos)).acceptor = true from husable.1)]
  unfold launch
  rw [hget, hstart]
  have hleft := Blocks.left_succ (n := 0) hsize
  rw [show Blocks.left size 0 = size from rfl, if_neg hsize.ne'] at hleft
  have hfirst : s.pos = goal 0 := by rw [hgoal.first, hpos]
  exact ⟨rfl, husable.1, hlen, hpoll', by rw [hleft, ← hflag]; rfl, hfirst, hfirst,
    fun i _ => load_construct h i⟩

end Construct

/-- **Taking turns**: with blocks of two or more, the connections of a constructed server go
to the services one block after the other. -/
theorem spread_evenly (ctor : Constructor) (laddr : List Char) (poll timeout : Nat)
    (env : Environment) (s : BasicServer) (h : (construct ctor laddr poll timeout env).1 = some s)
    (husable : s.Usable) (hpoll : poll ≠ 1) (n : Nat) :
    s.arrivals n = (List.range n).map
      (evenly (if poll < 1 then 10 else poll) s.services.length) := by
  have hsize : 2 ≤ if poll < 1 then 10 else poll := by split <;> omega
  have hgoal := schedules_evenly hsize (Nat.zero_lt_of_lt husable.2)
  have hpos : 0 < if poll < 1 then 10 else poll := by omega
  exact run_arrive (spread_launch hgoal hpos h husable rfl rfl) hgoal hpos n

/-- Three services, in blocks of two. -/
theorem spread_evenly_three : ∃ s, (construct .throwing [':', ':', '1', ':', '8', '0'] 2 0
      (host 3)).1 = some s ∧ s.Usable ∧ s.arrivals 7 = [0, 0, 1, 1, 2, 2, 0] := by
  refine ⟨_, rfl, by decide, ?_⟩
  rw [spread_evenly .throwing [':', ':', '1', ':', '8', '0'] 2 0 (host 3) _ rfl (by decide)
    (by decide)]
  decide

/-- **One connection at a time**: with blocks of one, every second connection goes to the
first of the services. -/
theorem spread_to_first (ctor : Constructor) (laddr : List Char) (timeout : Nat)
    (env : Environment) (s : BasicServer) (h : (construct ctor laddr 1 timeout env).1 = some s)
    (husable : s.Usable) (hmany : 2 ≤ s.services.length) (n : Nat) :
    s.arrivals n = (List.range n).map (toFirst s.services.length) := by
  have hgoal := schedules_toFirst hmany
  exact run_arrive (spread_launch hgoal Nat.one_pos h husable rfl rfl) hgoal Nat.one_pos n

/-- Four services. -/
theorem spread_to_first_four : ∃ s, (construct .throwing [':', ':', '1', ':', '8', '0'] 1 0
      (host 4)).1 = some s ∧ s.Usable ∧ s.arrivals 8 = [0, 0, 1, 0, 2, 0, 3, 0] := by
  refine ⟨_, rfl, by decide, ?_⟩
  rw [spread_to_first .throwing [':', ':', '1', ':', '8', '0'] 0 (host 4) _ rfl (by decide)
    (by decide)]
  decide

end KgCpp.Net.BasicServer
