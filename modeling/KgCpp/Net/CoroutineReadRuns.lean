import KgCpp.Net.CoroutineRead

/-!
# The bookkeeping of connections

`bookkeeping` says what holds in every state of every run of a service, whatever
the coroutines do and in whatever order they are resumed: what `clients` and
`_clients` are, and what each connection has seen of the callbacks so far
(`Told`).
-/

namespace KgCpp.Net.CoroutineRead

open Lib

/-! ## What a connection sees -/

/-- Before the first read. -/
def opening (cfg : Settings) : List Event :=
  if cfg.connected then [.connected, .returned true] else []

/-- A turn of the loop that goes on to the next. -/
def turn (cfg : Settings) (bytes : List Byte) : List Event :=
  if cfg.readed then [.received bytes, .readed bytes, .returned true] else [.received bytes]

/-- The opening and the turns for these reads. -/
def turns (cfg : Settings) (reads : List (List Byte)) : List Event :=
  opening cfg ++ reads.flatMap (turn cfg)

/-- From the teardown on. -/
def ending (cfg : Settings) : List Event :=
  [.shut, .erased] ++ if cfg.closed then [.closed] else []

/-- What a connection has seen when it comes to the teardown: `connected`
returned false, a read failed, or `readed` returned false or threw. -/
inductive Left (cfg : Settings) : List Event → Prop
  | refused : cfg.connected = true → Left cfg [.connected, .returned false]
  | failed (reads : List (List Byte)) : Left cfg (turns cfg reads ++ [.failed])
  | declined (reads : List (List Byte)) (bytes : List Byte) : cfg.readed = true →
      Left cfg (turns cfg reads ++ [.received bytes, .readed bytes, .returned false])
  | threw (reads : List (List Byte)) (bytes : List Byte) : cfg.readed = true →
      Left cfg (turns cfg reads ++ [.received bytes, .readed bytes, .threw])

/-- What a connection has seen, by the point its coroutine is at. -/
def Told (cfg : Settings) (point : Point) (seen : List Event) : Prop :=
  match point with
  | .unborn => seen = []
  | .connected => cfg.connected = true ∧ seen = [.connected]
  | .reading => ∃ reads, seen = turns cfg reads
  | .readed => cfg.readed = true ∧
      ∃ reads bytes, seen = turns cfg reads ++ [.received bytes, .readed bytes]
  | .closed => cfg.closed = true ∧ ∃ history, Left cfg history ∧ seen = history ++ ending cfg
  | .ended => ∃ history, Left cfg history ∧ seen = history ++ ending cfg

theorem turns_concat (cfg : Settings) (reads : List (List Byte)) (bytes : List Byte) :
    turns cfg (reads ++ [bytes]) = turns cfg reads ++ turn cfg bytes := by
  rw [turns, turns, List.flatMap_append, List.flatMap_singleton, List.append_assoc]

namespace Connection

variable {cfg : Settings} {c : Connection}

/-- The timer has nothing to do with what the connection sees. -/
@[simp] theorem point_disarm : (c.disarm cfg).point = c.point := by
  unfold disarm
  split <;> rfl

@[simp] theorem seen_disarm : (c.disarm cfg).seen = c.seen := by
  unfold disarm
  split <;> rfl

@[simp] theorem seen_awaitRead : (c.awaitRead cfg).seen = c.seen := by
  unfold awaitRead
  split <;> rfl

@[simp] theorem point_handlerTimer (i : Nat) : (c.handlerTimer i).point = c.point := by
  unfold handlerTimer
  split
  · rfl
  · split <;> rfl

@[simp] theorem seen_handlerTimer (i : Nat) : (c.handlerTimer i).seen = c.seen := by
  unfold handlerTimer
  split
  · rfl
  · split <;> rfl

@[simp] theorem seen_teardown : (c.teardown cfg).seen = c.seen ++ ending cfg := by
  unfold teardown ending
  split <;> simp [saw, close]

theorem isLive_teardown : (c.teardown cfg).point.isLive = false := by
  unfold teardown
  split <;> rfl

theorem told_begin : Told cfg (accepted.begin cfg).point (accepted.begin cfg).seen := by
  unfold begin
  split
  · rename_i h
    exact ⟨h, rfl⟩
  · rename_i h
    refine ⟨[], ?_⟩
    rw [seen_awaitRead, turns, opening, if_neg h]
    rfl

/-- The first read after `connected`. -/
theorem told_first (h : Told cfg .connected c.seen) :
    Told cfg .reading ((c.saw [.returned true]).awaitRead cfg).seen := by
  obtain ⟨hset, hseen⟩ := h
  refine ⟨[], ?_⟩
  rw [seen_awaitRead, saw, hseen, turns, opening, if_pos hset]
  rfl

/-- The next read after `readed`. -/
theorem told_next (h : Told cfg .readed c.seen) :
    Told cfg .reading ((c.saw [.returned true]).awaitRead cfg).seen := by
  obtain ⟨hset, reads, bytes, hseen⟩ := h
  refine ⟨reads ++ [bytes], ?_⟩
  rw [seen_awaitRead, saw, hseen, turns_concat, turn, if_pos hset, List.append_assoc]
  rfl

/-- A completed read goes to `readed`, when that is set. -/
theorem told_handOn (h : Told cfg .reading c.seen) (bytes : List Byte) :
    Told cfg (c.handOn cfg bytes).point (c.handOn cfg bytes).seen := by
  obtain ⟨reads, hseen⟩ := h
  unfold handOn
  split
  · rename_i hset
    refine ⟨hset, reads, bytes, ?_⟩
    simp [saw, hseen]
  · rename_i hset
    refine ⟨reads ++ [bytes], ?_⟩
    rw [seen_awaitRead, seen_disarm, saw, hseen, turns_concat, turn, if_neg hset]

/-- The teardown, from wherever it is entered. -/
theorem told_teardown (h : Left cfg c.seen) :
    Told cfg (c.teardown cfg).point (c.teardown cfg).seen := by
  have hseen : (c.teardown cfg).seen = c.seen ++ ending cfg := c.seen_teardown
  generalize (c.teardown cfg).seen = seen at hseen ⊢
  unfold teardown
  split
  · rename_i hset
    exact ⟨hset, _, h, hseen⟩
  · exact ⟨_, h, hseen⟩

end Connection

namespace Service

variable {cfg : Settings} {s t : Service} {k : Nat} {c : Connection} {l : Label}
  {cleared : Bool}

/-! ## The set of live connections -/

theorem mem_live : k ∈ s.live ↔ k < s.started ∧ (s.conns k).point.isLive = true := by
  rw [live, Finset.mem_filter, Finset.mem_range]

theorem live_set (h : c.point.isLive = (s.conns k).point.isLive) :
    (s.set k c).live = s.live := by
  ext j
  rw [mem_live, mem_live]
  by_cases hj : j = k
  · subst hj
    rw [conns_set_self, h]
    rfl
  · rw [conns_set_of_ne hj]
    rfl

theorem live_set_dead (h : c.point.isLive = false) : (s.set k c).live = s.live.erase k := by
  ext j
  rw [Finset.mem_erase, mem_live, mem_live]
  by_cases hj : j = k
  · subst hj
    rw [conns_set_self, h]
    simp
  · rw [conns_set_of_ne hj]
    exact (and_iff_right hj).symm

theorem live_start : (s.start cfg).live = insert s.started s.live := by
  have hbegin : (Connection.accepted.begin cfg).point.isLive = true := by
    unfold Connection.begin
    split <;> rfl
  ext j
  rw [Finset.mem_insert, mem_live, mem_live]
  by_cases hj : j = s.started
  · subst hj
    refine ⟨fun _ => .inl rfl, fun _ => ⟨Nat.lt_succ_self _, ?_⟩⟩
    rw [start, conns_set_self, hbegin]
  · have hconn : (s.start cfg).conns j = s.conns j := conns_set_of_ne hj
    have hlt : j < (s.start cfg).started ↔ j < s.started :=
      ⟨fun h => Nat.lt_of_le_of_ne (Nat.le_of_lt_succ h) hj, Nat.lt_succ_of_lt⟩
    rw [hconn, hlt, or_iff_right hj]

theorem live_clear : s.clear.live = s.live := by
  ext j
  have hpoint : (s.clear.conns j).point = (s.conns j).point := by
    show (if j ∈ s.clients then (s.conns j).close else s.conns j).point = _
    split <;> rfl
  rw [mem_live, mem_live, hpoint]
  rfl

/-! ## The invariant -/

/-- What holds of every state a service gets into, with `clear` before or
without. -/
structure Inv (cfg : Settings) (cleared : Bool) (s : Service) : Prop where
  born : ∀ k, (s.conns k).point ≠ .unborn → k < s.started
  counted : s.count = s.live.card
  known : s.clients ⊆ s.live
  same : cleared = false → s.clients = s.live
  told : ∀ k, Told cfg (s.conns k).point (s.conns k).seen
  shut : ∀ k, (s.conns k).point = .closed ∨ (s.conns k).point = .ended →
    (s.conns k).isOpen = false

theorem inv_initial : initial.Inv cfg false where
  born := fun _ h => absurd rfl h
  counted := rfl
  known := Finset.empty_subset _
  same := fun _ => rfl
  told := fun _ => rfl
  shut := fun _ h => by rcases h with h | h <;> cases h

theorem Inv.start (h : s.Inv cfg cleared) : (s.start cfg).Inv cfg cleared where
  born := by
    intro j hj
    by_cases hjk : j = s.started
    · rw [hjk]
      exact Nat.lt_succ_self _
    · have hconn : (s.start cfg).conns j = s.conns j := conns_set_of_ne hjk
      exact Nat.lt_succ_of_lt (h.born j (hconn ▸ hj))
  counted := by
    have hnew : s.started ∉ s.live := fun hmem => Nat.lt_irrefl _ (mem_live.mp hmem).1
    show s.count + 1 = _
    rw [live_start, Finset.card_insert_of_notMem hnew, h.counted]
    rfl
  known := by
    rw [live_start]
    exact Finset.insert_subset_insert _ h.known
  same := by
    intro hno
    rw [live_start, ← h.same hno]
    rfl
  told := forall_set (P := fun c => Told cfg c.point c.seen) Connection.told_begin h.told
  shut := by
    refine forall_set (P := fun c => c.point = .closed ∨ c.point = .ended → c.isOpen = false)
      (fun hpoint => ?_) h.shut
    unfold Connection.begin at hpoint
    split at hpoint <;> rcases hpoint with hpoint | hpoint <;> cases hpoint

/-- A step of one connection that neither starts nor ends its life. -/
theorem Inv.set (h : s.Inv cfg cleared) (hborn : (s.conns k).point = .unborn → c.point = .unborn)
    (hlive : c.point.isLive = (s.conns k).point.isLive) (htold : Told cfg c.point c.seen)
    (hshut : c.point = .closed ∨ c.point = .ended → c.isOpen = false) :
    (s.set k c).Inv cfg cleared where
  born := by
    intro j hj
    by_cases hjk : j = k
    · subst hjk
      rw [conns_set_self] at hj
      exact h.born j fun hno => hj (hborn hno)
    · rw [conns_set_of_ne hjk] at hj
      exact h.born j hj
  counted := by
    rw [live_set hlive]
    exact h.counted
  known := by
    rw [live_set hlive]
    exact h.known
  same := by
    rw [live_set hlive]
    exact h.same
  told := forall_set (P := fun c => Told cfg c.point c.seen) htold h.told
  shut := forall_set (P := fun c => c.point = .closed ∨ c.point = .ended → c.isOpen = false)
    hshut h.shut

theorem Inv.teardown (h : s.Inv cfg cleared) (hlive : (s.conns k).point.isLive = true)
    (hleft : Left cfg c.seen) : (s.teardown cfg k c).Inv cfg cleared := by
  have hborn : k < s.started := h.born k fun hno => by
    rw [hno] at hlive
    cases hlive
  have hmem : k ∈ s.live := mem_live.mpr ⟨hborn, hlive⟩
  have hrest : (s.teardown cfg k c).live = s.live.erase k := live_set_dead c.isLive_teardown
  refine ⟨?_, ?_, ?_, ?_, ?_, ?_⟩
  · intro j hj
    by_cases hjk : j = k
    · exact hjk ▸ hborn
    · have hconn : (s.teardown cfg k c).conns j = s.conns j := conns_set_of_ne hjk
      exact h.born j (hconn ▸ hj)
  · -- the coroutine that leaves is one of those that are counted
    have hpos : 0 < s.live.card := Finset.card_pos.mpr ⟨k, hmem⟩
    rw [hrest, Finset.card_erase_of_mem hmem]
    show s.count - 1 = _
    rw [h.counted]
    omega
  · rw [hrest]
    exact Finset.erase_subset_erase k h.known
  · intro hno
    rw [hrest, ← h.same hno]
    rfl
  · exact forall_set (P := fun c => Told cfg c.point c.seen) (c.told_teardown hleft) h.told
  · exact forall_set (P := fun c => c.point = .closed ∨ c.point = .ended → c.isOpen = false)
      (fun _ => Connection.isOpen_teardown) h.shut

theorem Inv.clear (h : s.Inv cfg cleared) : s.clear.Inv cfg true := by
  have hconn : ∀ j, (s.clear.conns j).point = (s.conns j).point ∧
      (s.clear.conns j).seen = (s.conns j).seen ∧
      ((s.conns j).isOpen = false → (s.clear.conns j).isOpen = false) := by
    intro j
    show (if j ∈ s.clients then (s.conns j).close else s.conns j).point = _ ∧
      (if j ∈ s.clients then (s.conns j).close else s.conns j).seen = _ ∧
      (_ → (if j ∈ s.clients then (s.conns j).close else s.conns j).isOpen = false)
    split
    · exact ⟨rfl, rfl, fun _ => rfl⟩
    · exact ⟨rfl, rfl, id⟩
  refine ⟨fun j hj => ?_, ?_, Finset.empty_subset _, (fun hno => by cases hno), fun j => ?_,
    fun j hj => ?_⟩
  · rw [(hconn j).1] at hj
    exact h.born j hj
  · rw [live_clear]
    exact h.counted
  · rw [(hconn j).1, (hconn j).2.1]
    exact h.told j
  · rw [(hconn j).1] at hj
    exact (hconn j).2.2 (h.shut j hj)

/-- A step that leaves the coroutine where it is. -/
theorem Inv.stay (h : s.Inv cfg cleared) (hpoint : c.point = (s.conns k).point)
    (hseen : c.seen = (s.conns k).seen)
    (hopen : (s.conns k).isOpen = false → c.isOpen = false) : (s.set k c).Inv cfg cleared := by
  refine h.set (fun hno => hpoint.trans hno) (congrArg Point.isLive hpoint) ?_ fun hend => ?_
  · rw [hpoint, hseen]
    exact h.told k
  · rw [hpoint] at hend
    exact hopen (h.shut k hend)

/-- A step from one live point to another. -/
theorem Inv.move (h : s.Inv cfg cleared) (hlive : (s.conns k).point.isLive = true)
    (hlive' : c.point.isLive = true) (htold : Told cfg c.point c.seen) :
    (s.set k c).Inv cfg cleared := by
  refine h.set (fun hno => ?_) (hlive'.trans hlive.symm) htold fun hend => ?_
  · rw [hno] at hlive
    cases hlive
  · rcases hend with hend | hend <;> rw [hend] at hlive' <;> cases hlive'

/-- Every other step keeps the invariant. -/
theorem Inv.step (h : s.Inv cfg cleared) (hl : l ≠ .clear) (hst : s.step cfg l = some t) :
    t.Inv cfg cleared := by
  obtain ⟨henabled, rfl⟩ := step_eq_some.mp hst
  have htold := fun k => h.told k
  cases l with
  | start => exact h.start
  | connectedReturned k ok =>
    have hpoint : (s.conns k).point = .connected := henabled
    have hlive : (s.conns k).point.isLive = true := by rw [hpoint]; rfl
    have htk := hpoint ▸ htold k
    cases ok with
    | true => exact h.move hlive rfl (Connection.told_first htk)
    | false =>
      obtain ⟨hset, hseen⟩ := htk
      refine h.teardown hlive ?_
      show Left cfg ((s.conns k).seen ++ [.returned false])
      rw [hseen]
      exact .refused hset
  | arrive k bytes => exact h.stay rfl rfl id
  | fail k => exact h.stay rfl rfl id
  | resume k =>
    have hpoint : (s.conns k).point = .reading := henabled.1
    have hlive : (s.conns k).point.isLive = true := by rw [hpoint]; rfl
    have htk := hpoint ▸ htold k
    rw [effect]
    split
    · exact h
    · rename_i bytes hbytes
      refine h.move hlive ?_ (Connection.told_handOn htk bytes)
      unfold Connection.handOn
      split <;> rfl
    · obtain ⟨reads, hseen⟩ := htk
      refine h.teardown hlive ?_
      rw [Connection.seen_disarm, Connection.saw, hseen]
      exact .failed reads
  | readedReturned k ok =>
    have hpoint : (s.conns k).point = .readed := henabled
    have hlive : (s.conns k).point.isLive = true := by rw [hpoint]; rfl
    have htk := hpoint ▸ htold k
    cases ok with
    | true => exact h.move hlive rfl (Connection.told_next htk)
    | false =>
      obtain ⟨hset, reads, bytes, hseen⟩ := htk
      refine h.teardown hlive ?_
      rw [Connection.seen_disarm, Connection.saw, hseen, List.append_assoc]
      exact .declined reads bytes hset
  | readedThrew k =>
    have hpoint : (s.conns k).point = .readed := henabled
    have hlive : (s.conns k).point.isLive = true := by rw [hpoint]; rfl
    obtain ⟨hset, reads, bytes, hseen⟩ := hpoint ▸ htold k
    refine h.teardown hlive ?_
    rw [Connection.seen_disarm, Connection.saw, hseen, List.append_assoc]
    exact .threw reads bytes hset
  | closedReturned k =>
    have hpoint : (s.conns k).point = .closed := henabled
    have htk := hpoint ▸ htold k
    refine h.set (fun hno => by rw [hpoint] at hno; cases hno) ?_ htk.2 fun _ =>
      h.shut k (.inl hpoint)
    rw [hpoint]
    rfl
  | expire k => exact h.stay rfl rfl id
  | timer k i =>
    have hi : (s.conns k).queued[i]? = some _ := List.getElem?_eq_getElem henabled
    refine h.stay (Connection.point_handlerTimer i) (Connection.seen_handlerTimer i) ?_
    rw [Connection.handlerTimer_eq hi]
    intro hopen
    exact Bool.and_eq_false_iff.mpr (.inl hopen)
  | clear => exact absurd rfl hl

theorem inv_exec {ls : List Label} (h : exec (step cfg) initial ls = some s) :
    s.Inv cfg (decide (Label.clear ∈ ls)) := by
  refine exec_history (P := fun ls (s : Service) => s.Inv cfg (decide (Label.clear ∈ ls))) ?_
    inv_initial ls s h
  intro ls s l t _ ih hst
  by_cases hl : l = .clear
  · subst hl
    obtain ⟨-, rfl⟩ := step_eq_some.mp hst
    rw [decide_eq_true (List.mem_append_right _ (List.mem_singleton_self _))]
    exact ih.clear
  · have hmem : (Label.clear ∈ ls ++ [l]) ↔ Label.clear ∈ ls := by
      rw [List.mem_append, List.mem_singleton]
      exact or_iff_left (Ne.symm hl)
    rw [decide_eq_decide.mpr hmem]
    exact ih.step hl hst

/-- What the books of a service say after a run.

- `counted`, `nonneg`: `clients` is the number of coroutines that have started
  and not torn down.
- `known`, `same`: `_clients` are sockets of such coroutines, and all of them as
  long as `clear` has not run.
- `told`: what each connection has seen.
- `shut`: before `_closed` is called the socket is closed and out of `_clients`.
- `drained`: nothing is left of the coroutines when they have all ended. -/
structure Bookkeeping (cfg : Settings) (ls : List Label) (s : Service) : Prop where
  counted : s.count = s.live.card
  nonneg : 0 ≤ s.count
  known : s.clients ⊆ s.live
  same : Label.clear ∉ ls → s.clients = s.live
  told : ∀ k, Told cfg (s.conns k).point (s.conns k).seen
  shut : ∀ k, (s.conns k).point = .closed ∨ (s.conns k).point = .ended →
    (s.conns k).isOpen = false ∧ k ∉ s.clients
  drained : (∀ k < s.started, (s.conns k).point = .ended) → s.count = 0 ∧ s.clients = ∅

end Service

open CoroutineRead.Service

/-- **The bookkeeping of connections**: it is right in every state of every run
of a service, however many coroutines there are and however their steps and
`clear` come. -/
theorem bookkeeping (cfg : Settings) (ls : List Label) (s : Service)
    (h : exec (step cfg) initial ls = some s) : Bookkeeping cfg ls s := by
  have hinv := inv_exec h
  have hdead : ∀ k, (s.conns k).point = .closed ∨ (s.conns k).point = .ended → k ∉ s.live := by
    intro k hpoint hmem
    have hlive := (mem_live.mp hmem).2
    rcases hpoint with hpoint | hpoint <;> rw [hpoint] at hlive <;> cases hlive
  refine ⟨hinv.counted, ?_, hinv.known, fun hno => hinv.same (decide_eq_false hno), hinv.told,
    fun k hpoint => ⟨hinv.shut k hpoint, fun hmem => hdead k hpoint (hinv.known hmem)⟩,
    fun hended => ?_⟩
  · rw [hinv.counted]
    exact Int.natCast_nonneg _
  · have hempty : s.live = ∅ := Finset.eq_empty_of_forall_notMem fun k hmem =>
      hdead k (.inr (hended k (mem_live.mp hmem).1)) hmem
    refine ⟨?_, Finset.subset_empty.mp (hempty ▸ hinv.known)⟩
    rw [hinv.counted, hempty]
    rfl

/-- Two connections: the first is served once and cut off by `clear`, the second
is refused after it. -/
theorem bookkeeping_two : ∃ s, exec (step ⟨true, true, true, 60⟩) initial
      [.start, .connectedReturned 0 true, .arrive 0 [7], .resume 0, .readedReturned 0 true,
        .start, .clear, .fail 0, .resume 0, .connectedReturned 1 false, .closedReturned 0,
        .closedReturned 1] = some s ∧
    Bookkeeping ⟨true, true, true, 60⟩
      [.start, .connectedReturned 0 true, .arrive 0 [7], .resume 0, .readedReturned 0 true,
        .start, .clear, .fail 0, .resume 0, .connectedReturned 1 false, .closedReturned 0,
        .closedReturned 1] s ∧
    (s.conns 0).seen = [.connected, .returned true, .received [7], .readed [7], .returned true,
      .failed, .shut, .erased, .closed] :=
  ⟨_, rfl, bookkeeping _ _ _ rfl, rfl⟩

end KgCpp.Net.CoroutineRead
