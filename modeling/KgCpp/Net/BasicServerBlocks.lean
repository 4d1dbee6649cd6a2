import KgCpp.Lib.Blocks
import KgCpp.Net.BasicServerBalance

/-!
# Connections in blocks

`get_service` hands out the same service `_poll` times in a row. The constructor
begins with `_flag` at `_poll`, a later block with one call that chooses and sets
it to `_poll - 1`.

The two members are a scheduler of `Lib.Blocks`, whose new values are the services
the loop would choose (`getServices_run`). `blocks` says what follows for every
run of calls on a server that was just constructed.
-/

namespace KgCpp.Net.BasicServer

open Lib

/-- Calls of `get_service`, before each of which the counts change: the places they
return, and the server afterwards. -/
def getServices (s : BasicServer) : List (Nat → Nat) →
    Except Undefined (List Nat × BasicServer)
  | [] => .ok ([], s)
  | counts :: turns => do
    let (i, s') ← (s.recount counts).getService
    let (is, s'') ← s'.getServices turns
    pure (i :: is, s'')

/-- What a run of calls comes to: the place each call returns, and what is left of the
block. `size` is the length of a block. -/
structure InBlocks (size : Nat) (s : BasicServer) (is : List Nat) (s' : BasicServer) :
    Prop where
  /-- Every call returns a service. -/
  inside : ∀ i ∈ is, i < s.services.length
  /-- `_flag` counts down to 0 and starts again below the length of a block: it does not
  wrap. -/
  flag : s'.flag = Blocks.left size is.length ∧ s'.flag ≤ size
  /-- The calls of a block return the same service. -/
  same : ∀ k n m, k * size ≤ n → n < (k + 1) * size → k * size ≤ m → m < (k + 1) * size →
    n < is.length → m < is.length → is[n]? = is[m]?
  /-- The next call chooses exactly when it begins a block other than the first. -/
  chooses : s'.flag = 0 ↔ ∃ k, 0 < k ∧ is.length = k * size

section Run

variable {s : BasicServer}

/-- The place the loop would choose. -/
def candidate (s : BasicServer) : Nat := (leastLoaded s.services (s.load s.pos)).2

/-- The server with the two members of a scheduler. -/
def turned (s : BasicServer) (t : Nat × Nat) : BasicServer := { s with flag := t.1, pos := t.2 }

/-- One call is one turn. -/
theorem getService_turn (hpos : s.pos < s.services.length) (hpoll : 0 < s.poll) :
    s.getService = .ok ((Blocks.turn s.poll (s.flag, s.pos) s.candidate).2,
      s.turned (Blocks.turn s.poll (s.flag, s.pos) s.candidate).1) := by
  have hcurrent : s.services[s.pos].clients = s.load s.pos := by
    rw [load, List.getD, List.getElem?_eq_getElem hpos, Option.getD_some]
  rw [getService, List.getElem?_eq_getElem hpos]
  dsimp only
  unfold Blocks.turn
  by_cases hflag : s.flag ≠ 0
  · rw [if_pos hflag, if_pos hflag]
    rfl
  · rw [if_neg hflag, if_neg hflag, hcurrent, subSize_of_le hpoll]
    rfl

theorem candidate_lt (hpos : s.pos < s.services.length) : s.candidate < s.services.length :=
  leastLoaded_lt (List.ne_nil_of_length_pos (by omega)) _

/-- A run of calls is a run of turns. -/
theorem getServices_run (hpos : s.pos < s.services.length) (hpoll : 0 < s.poll)
    (turns : List (Nat → Nat)) :
    ∃ news s', s.getServices turns =
        .ok ((Lib.run (Blocks.turn s.poll) (s.flag, s.pos) news).2, s') ∧
      s'.flag = (Lib.run (Blocks.turn s.poll) (s.flag, s.pos) news).1.1 ∧
      news.length = turns.length ∧ ∀ i ∈ news, i < s.services.length := by
  induction turns generalizing s with
  | nil => exact ⟨[], s, rfl, rfl, rfl, fun i hi => (List.not_mem_nil hi).elim⟩
  | cons counts turns ih =>
    have hlen := s.length_recount counts
    have hpos₁ : (s.recount counts).pos < (s.recount counts).services.length := by
      rw [hlen]
      exact hpos
    have hcandidate := candidate_lt hpos₁
    have hget : (s.recount counts).getService = .ok (_, (s.recount counts).turned
        (Blocks.turn s.poll (s.flag, s.pos) (s.recount counts).candidate).1) :=
      getService_turn hpos₁ hpoll
    generalize (s.recount counts).candidate = new at hcandidate hget
    have hpos₂ : (Blocks.turn s.poll (s.flag, s.pos) new).1.2 < s.services.length := by
      unfold Blocks.turn
      split
      · exact hpos
      · exact hlen ▸ hcandidate
    obtain ⟨news, s', hrun, hflag, hnews, hinside⟩ := ih
      (s := (s.recount counts).turned (Blocks.turn s.poll (s.flag, s.pos) new).1)
      (hlen ▸ hpos₂) hpoll
    refine ⟨new :: news, s', ?_, hflag, by rw [List.length_cons, List.length_cons, hnews], ?_⟩
    · rw [getServices, hget]
      show (getServices _ turns >>= fun r => pure (_ :: r.1, r.2)) = _
      rw [hrun]
      rfl
    · intro i hi
      rcases List.mem_cons.mp hi with rfl | hi
      · exact hlen ▸ hcandidate
      · exact hlen ▸ hinside i hi

/-- What a server is like that was just constructed. -/
theorem fresh_construct {ctor : Constructor} {laddr : List Char} {poll timeout : Nat}
    {env : Environment} (h : (construct ctor laddr poll timeout env).1 = some s) :
    s.pos = 0 ∧ s.flag = (if poll < 1 then 10 else poll) ∧
      s.poll = if poll < 1 then 10 else poll :=
  of_construct (leaves_init_of (P := fun s => s.pos = 0 ∧
    s.flag = (if poll < 1 then 10 else poll) ∧ s.poll = if poll < 1 then 10 else poll)
    ⟨rfl, rfl, rfl⟩ (fun _ _ _ _ _ hs => hs) laddr env) h

/-- A run of turns, read as blocks. -/
theorem inBlocks_of_turns {size : Nat} (hsize : 0 < size) {news is : List Nat} {s' : BasicServer}
    {t : Nat × Nat} (h : Blocks.Turns size 0 news is t) (hflag : s'.flag = t.1)
    (hne : 0 < s.services.length) (hnews : ∀ i ∈ news, i < s.services.length) :
    InBlocks size s is s' where
  inside := by
    intro i hi
    obtain ⟨n, hn, hget⟩ := List.mem_iff_getElem.mp hi
    have hchosen := h.outs n (by rw [← h.length]; exact hn)
    rw [List.getElem?_eq_getElem hn, hget, Blocks.chosen] at hchosen
    split at hchosen
    · cases hchosen
      exact hne
    · exact hnews i (List.mem_of_getElem? hchosen.symm)
  flag := by
    have hleft : s'.flag = Blocks.left size is.length := by rw [hflag, h.count, h.length]
    refine ⟨hleft, ?_⟩
    rw [hleft, Blocks.left]
    split
    · exact Nat.le_refl size
    · exact (Nat.mod_lt _ hsize).le
  same := by
    intro k n m hn hn' hm hm' hnlen hmlen
    rw [h.length] at hnlen hmlen
    rw [h.outs n hnlen, h.outs m hmlen]
    refine Blocks.chosen_congr hsize 0 news ?_
    rw [Nat.div_eq_of_lt_le hn hn', Nat.div_eq_of_lt_le hm hm']
  chooses := by
    rw [hflag, h.count, ← h.length, Blocks.left_eq_zero hsize]
    constructor
    · rintro ⟨hpos, k, hk⟩
      refine ⟨k, Nat.pos_of_ne_zero ?_, by rw [hk, Nat.mul_comm]⟩
      rintro rfl
      omega
    · rintro ⟨k, hk, hlen⟩
      rw [hlen]
      exact ⟨Nat.mul_pos hk hsize, Nat.dvd_mul_left size k⟩

end Run

/-- **Round-robin blocks**: on a server that was just constructed with at least one service,
however the counts change between the calls. -/
theorem blocks (ctor : Constructor) (laddr : List Char) (poll timeout : Nat) (env : Environment)
    (s : BasicServer) (h : (construct ctor laddr poll timeout env).1 = some s)
    (hne : 0 < s.services.length) (turns : List (Nat → Nat)) :
    ∃ is s', s.getServices turns = .ok (is, s') ∧ is.length = turns.length ∧
      InBlocks (if poll < 1 then 10 else poll) s is s' := by
  obtain ⟨hpos, hflag, hpoll⟩ := fresh_construct h
  have hsize : 0 < if poll < 1 then 10 else poll := by
    split <;> omega
  generalize (if poll < 1 then 10 else poll) = size at *
  obtain ⟨news, s', hrun, hflag', hlen, hnews⟩ :=
    getServices_run (by rw [hpos]; exact hne) (by rw [hpoll]; exact hsize) turns
  rw [hflag, hpos, hpoll] at hrun hflag'
  have hturns := Blocks.run_turn hsize 0 news
  exact ⟨_, s', hrun, hturns.length.trans hlen, inBlocks_of_turns hsize hturns hflag' hne hnews⟩

/-- Three services, in blocks of two. -/
theorem blocks_three : ∃ s, (construct .throwing [':', ':', '1', ':', '8', '0'] 2 0
      (host 3)).1 = some s ∧ 0 < s.services.length ∧
    ∃ is s', s.getServices (List.replicate 5 fun i => 9 - i) = .ok (is, s') ∧
      is.length = (List.replicate 5 fun i : Nat => 9 - i).length ∧
      InBlocks (if 2 < 1 then 10 else 2) s is s' :=
  ⟨_, rfl, by decide, blocks .throwing [':', ':', '1', ':', '8', '0'] 2 0 (host 3) _ rfl
    (by decide) _⟩

end KgCpp.Net.BasicServer
