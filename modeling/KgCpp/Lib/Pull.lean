import KgCpp.Lib.Framing

/-!
# Pulling messages from a source of pieces

A reader of a framed stream gets the stream in pieces that it has to ask for.
Each call hands out one message, or throws, or is left waiting for a piece that
does not come (`Answer`), and what happens on the way is a list of events.

- `pull c bad` is the reader that does no more than it must: it asks only when
  the front of what it has is neither a message nor a bad header (`lazy_pull`).
- `calls call n` makes `n` calls one after another, up to the first that does
  not return, and `calls_congr` transports it along a simulation, so a machine
  that simulates `pull` inherits `answers_calls_pull` (its answers are the
  messages of the whole stream, then what stops it) and `lazy_calls_pull`.
-/

namespace Lib

universe u v w x

/-- What one call comes back with. -/
inductive Answer (α : Type u) (ε : Type v) : Type (max u v) where
  | returned (m : List α)
  | threw (e : ε)
  | blocked
deriving DecidableEq, Repr

/-- What happens during calls. -/
inductive Event (α : Type u) (ε : Type v) : Type (max u v) where
  | asked
  | received (piece : List α)
  | returned (m : List α)
  | threw (e : ε)
deriving DecidableEq, Repr

/-- One call: its answer, the state afterwards, and what happened. -/
structure Pulled (σ : Type w) (α : Type u) (ε : Type v) : Type (max u v w) where
  answer : Answer α ε
  state : σ
  trace : List (Event α ε)

section Calls

variable {α : Type u} {ε : Type v} {σ : Type w} {τ : Type x}

/-- `n` calls, up to the first that does not return: the answers, and what
happened. -/
def calls (call : σ → Pulled σ α ε) : Nat → σ → List (Answer α ε) × List (Event α ε)
  | 0, _ => ([], [])
  | n + 1, s =>
    match (call s).answer with
    | .returned m =>
      (.returned m :: (calls call n (call s).state).1,
        (call s).trace ++ (calls call n (call s).state).2)
    | answer => ([answer], (call s).trace)

theorem calls_returned (call : σ → Pulled σ α ε) {s : σ} {m : List α}
    (h : (call s).answer = .returned m) (n : Nat) :
    calls call (n + 1) s =
      (.returned m :: (calls call n (call s).state).1,
        (call s).trace ++ (calls call n (call s).state).2) := by
  rw [calls, h]

theorem calls_stop (call : σ → Pulled σ α ε) {s : σ}
    (h : ∀ m, (call s).answer ≠ .returned m) (n : Nat) :
    calls call (n + 1) s = ([(call s).answer], (call s).trace) := by
  rw [calls]
  cases ha : (call s).answer with
  | returned m => exact absurd ha (h m)
  | threw e => rfl
  | blocked => rfl

/-- Two machines that agree call by call, as long as calls return. -/
theorem calls_congr {call : σ → Pulled σ α ε} {call' : τ → Pulled τ α ε} {R : σ → τ → Prop}
    (h : ∀ s t, R s t → (call s).answer = (call' t).answer ∧ (call s).trace = (call' t).trace ∧
      ∀ m, (call s).answer = .returned m → R (call s).state (call' t).state)
    {s : σ} {t : τ} (hst : R s t) (n : Nat) : calls call n s = calls call' n t := by
  induction n generalizing s t with
  | zero => rfl
  | succ n ih =>
    obtain ⟨hanswer, htrace, hR⟩ := h s t hst
    by_cases hret : ∃ m, (call s).answer = .returned m
    · obtain ⟨m, hm⟩ := hret
      rw [calls_returned call hm, calls_returned call' (hanswer ▸ hm), htrace, ih (hR m hm)]
    · have hstop : ∀ m, (call s).answer ≠ .returned m := fun m hm => hret ⟨m, hm⟩
      rw [calls_stop call hstop, calls_stop call' (fun m hm => hstop m (hanswer.trans hm)),
        hanswer, htrace]

/-- The messages among the answers. -/
def returnedOf (as : List (Answer α ε)) : List (List α) :=
  as.filterMap fun
    | .returned m => some m
    | _ => none

theorem returnedOf_append (as bs : List (Answer α ε)) :
    returnedOf (as ++ bs) = returnedOf as ++ returnedOf bs := List.filterMap_append

theorem returnedOf_map (ms : List (List α)) :
    returnedOf (ms.map (Answer.returned (ε := ε))) = ms := by
  induction ms with
  | nil => rfl
  | cons m ms ih => exact congrArg (m :: ·) ih

end Calls

section Lazy

variable {α : Type u} {ε : Type v}

/-- The unconsumed cells after an event. -/
def unreadAfter (s : List α) : Event α ε → List α
  | .received piece => s ++ piece
  | .returned m => s.drop m.length
  | _ => s

/-- Whenever more is asked for, the unconsumed cells are neither a message nor a
bad header. -/
def Lazy (c : Codec α) (s : List α) (trace : List (Event α ε)) : Prop :=
  ∀ pre post, trace = pre ++ .asked :: post → c.next (pre.foldl unreadAfter s) = .more

variable {c : Codec α}

theorem lazy_nil (s : List α) : Lazy (ε := ε) c s [] := by
  intro pre post h
  cases pre <;> cases h

theorem lazy_cons {s : List α} {e : Event α ε} {trace : List (Event α ε)} :
    Lazy c s (e :: trace) ↔
      (e = .asked → c.next s = .more) ∧ Lazy c (unreadAfter s e) trace := by
  constructor
  · intro h
    refine ⟨fun he => h [] trace (by rw [he]; rfl), fun pre post htrace => ?_⟩
    exact h (e :: pre) post (by rw [htrace]; rfl)
  · rintro ⟨hfst, hrest⟩ pre post htrace
    cases pre with
    | nil =>
      cases htrace
      exact hfst rfl
    | cons e' pre =>
      cases htrace
      exact hrest pre post rfl

theorem lazy_append {s : List α} {trace trace' : List (Event α ε)} :
    Lazy c s (trace ++ trace') ↔
      Lazy c s trace ∧ Lazy c (trace.foldl unreadAfter s) trace' := by
  induction trace generalizing s with
  | nil =>
    constructor
    · intro h
      exact ⟨lazy_nil s, h⟩
    · rintro ⟨-, h⟩
      exact h
  | cons e trace ih =>
    rw [List.cons_append, lazy_cons, lazy_cons, ih, List.foldl_cons, and_assoc]

end Lazy

namespace Codec

variable {α : Type u} {ε : Type v} (c : Codec α) (bad : ε)

/-- The reader that asks only when it must. `s` is what it has and `ps` are the
pieces still to come; a bad header makes it throw `bad`. -/
def pull (s : List α) (ps : List (List α)) : Pulled (List α × List (List α)) α ε :=
  match c.next s with
  | .message m r => ⟨.returned m, (r, ps), [.returned m]⟩
  | .bad => ⟨.threw bad, (s, ps), [.threw bad]⟩
  | .more =>
    match ps with
    | [] => ⟨.blocked, (s, []), [.asked]⟩
    | p :: ps =>
      ⟨(pull (s ++ p) ps).answer, (pull (s ++ p) ps).state,
        .asked :: .received p :: (pull (s ++ p) ps).trace⟩

/-- The answer to what is at the front of a whole stream. -/
def answerOf : Next α → Answer α ε
  | .message m _ => .returned m
  | .bad => .threw bad
  | .more => .blocked

/-- The answers of `n` calls on a whole stream: its messages, then what stops
the reader. -/
def answers (stream : List α) (n : Nat) : List (Answer α ε) :=
  ((c.messages stream).map Answer.returned ++
    [answerOf bad (c.next (c.leftover stream))]).take n

variable {c bad}

theorem pull_message {s m r : List α} (h : c.next s = .message m r) (ps : List (List α)) :
    c.pull bad s ps = ⟨.returned m, (r, ps), [.returned m]⟩ := by
  rw [pull.eq_def, h]

theorem pull_bad {s : List α} (h : c.next s = .bad) (ps : List (List α)) :
    c.pull bad s ps = ⟨.threw bad, (s, ps), [.threw bad]⟩ := by
  rw [pull.eq_def, h]

theorem pull_more_nil {s : List α} (h : c.next s = .more) :
    c.pull bad s [] = ⟨.blocked, (s, []), [.asked]⟩ := by
  rw [pull.eq_def, h]

theorem pull_more_cons {s : List α} (h : c.next s = .more) (p : List α)
    (ps : List (List α)) :
    c.pull bad s (p :: ps) =
      ⟨(c.pull bad (s ++ p) ps).answer, (c.pull bad (s ++ p) ps).state,
        .asked :: .received p :: (c.pull bad (s ++ p) ps).trace⟩ := by
  rw [pull.eq_def, h]

/-- The answer is what the whole stream begins with, and what is unconsumed
afterwards is what follows it. -/
theorem answer_pull (c : Codec α) (bad : ε) (s : List α) (ps : List (List α)) :
    (c.pull bad s ps).answer = answerOf bad (c.next (s ++ ps.flatten)) ∧
      ∀ m r, c.next (s ++ ps.flatten) = .message m r →
        (c.pull bad s ps).state.1 ++ (c.pull bad s ps).state.2.flatten = r := by
  induction ps generalizing s with
  | nil =>
    rw [List.flatten_nil, List.append_nil]
    cases h : c.next s with
    | message m r =>
      rw [pull_message h]
      refine ⟨rfl, fun m' r' h' => ?_⟩
      cases h'
      exact List.append_nil r
    | bad =>
      rw [pull_bad h]
      exact ⟨rfl, fun m r h' => by cases h'⟩
    | more =>
      rw [pull_more_nil h]
      exact ⟨rfl, fun m r h' => by cases h'⟩
  | cons p ps ih =>
    cases h : c.next s with
    | message m r =>
      rw [pull_message h, next_append_message h]
      refine ⟨rfl, fun m' r' h' => ?_⟩
      cases h'
      rfl
    | bad =>
      rw [pull_bad h, next_append_bad h]
      exact ⟨rfl, fun m r h' => by cases h'⟩
    | more =>
      rw [pull_more_cons h, List.flatten_cons, ← List.append_assoc]
      exact ih (s ++ p)

/-- The reader is lazy, and its trace accounts for what is unconsumed. -/
theorem lazy_pull (c : Codec α) (bad : ε) (s : List α) (ps : List (List α)) :
    Lazy c s (c.pull bad s ps).trace ∧
      (c.pull bad s ps).trace.foldl unreadAfter s = (c.pull bad s ps).state.1 := by
  induction ps generalizing s with
  | nil =>
    cases h : c.next s with
    | message m r =>
      rw [pull_message h]
      refine ⟨lazy_cons.mpr ⟨(fun he => by cases he), lazy_nil _⟩, ?_⟩
      rw [← append_of_next h]
      exact List.drop_left
    | bad =>
      rw [pull_bad h]
      exact ⟨lazy_cons.mpr ⟨(fun he => by cases he), lazy_nil _⟩, rfl⟩
    | more =>
      rw [pull_more_nil h]
      exact ⟨lazy_cons.mpr ⟨fun _ => h, lazy_nil _⟩, rfl⟩
  | cons p ps ih =>
    cases h : c.next s with
    | message m r =>
      rw [pull_message h]
      refine ⟨lazy_cons.mpr ⟨(fun he => by cases he), lazy_nil _⟩, ?_⟩
      rw [← append_of_next h]
      exact List.drop_left
    | bad =>
      rw [pull_bad h]
      exact ⟨lazy_cons.mpr ⟨(fun he => by cases he), lazy_nil _⟩, rfl⟩
    | more =>
      rw [pull_more_cons h]
      obtain ⟨hlazy, hunread⟩ := ih (s ++ p)
      refine ⟨lazy_cons.mpr ⟨fun _ => h, lazy_cons.mpr ⟨(fun he => by cases he), hlazy⟩⟩, ?_⟩
      exact hunread

theorem lazy_calls_pull (n : Nat) (s : List α) (ps : List (List α)) :
    Lazy c s (calls (fun t => c.pull bad t.1 t.2) n (s, ps)).2 := by
  induction n generalizing s ps with
  | zero => exact lazy_nil s
  | succ n ih =>
    obtain ⟨hlazy, hunread⟩ := lazy_pull c bad s ps
    by_cases hret : ∃ m, (c.pull bad s ps).answer = .returned m
    · obtain ⟨m, hm⟩ := hret
      rw [calls_returned (fun t : List α × List (List α) => c.pull bad t.1 t.2) hm]
      refine lazy_append.mpr ⟨hlazy, ?_⟩
      rw [hunread]
      exact ih _ _
    · rw [calls_stop (fun t : List α × List (List α) => c.pull bad t.1 t.2)
        fun m hm => hret ⟨m, hm⟩]
      exact hlazy

theorem answers_message {stream m r : List α} (h : c.next stream = .message m r) (n : Nat) :
    c.answers bad stream (n + 1) = .returned m :: c.answers bad r n := by
  rw [answers, messages_cons h, leftover_cons h]
  rfl

theorem answers_stop {stream : List α} (h : ∀ m r, c.next stream ≠ .message m r) (n : Nat) :
    c.answers bad stream (n + 1) = [answerOf bad (c.next stream)] := by
  rw [answers, messages_stop h, leftover_stop h, List.map_nil, List.nil_append,
    List.take_succ_cons, List.take_nil]

/-- The answers of `n` calls are those the whole stream determines, however it is
cut into pieces. -/
theorem answers_calls_pull (n : Nat) (s : List α) (ps : List (List α)) :
    (calls (fun t => c.pull bad t.1 t.2) n (s, ps)).1 =
      c.answers bad (s ++ ps.flatten) n := by
  induction n generalizing s ps with
  | zero => rw [answers, List.take_zero]; rfl
  | succ n ih =>
    obtain ⟨hanswer, hrest⟩ := answer_pull c bad s ps
    cases h : c.next (s ++ ps.flatten) with
    | message m r =>
      rw [h] at hanswer
      rw [calls_returned (fun t : List α × List (List α) => c.pull bad t.1 t.2) hanswer,
        answers_message h, ← hrest m r h]
      exact congrArg _ (ih _ _)
    | bad =>
      rw [h] at hanswer
      rw [calls_stop (fun t : List α × List (List α) => c.pull bad t.1 t.2)
          (fun m hm => by cases hanswer.symm.trans hm),
        answers_stop (ne_message_of_bad h), h]
      exact congrArg (fun a => [a]) hanswer
    | more =>
      rw [h] at hanswer
      rw [calls_stop (fun t : List α × List (List α) => c.pull bad t.1 t.2)
          (fun m hm => by cases hanswer.symm.trans hm),
        answers_stop (ne_message_of_more h), h]
      exact congrArg (fun a => [a]) hanswer

/-- The messages among the answers are the first ones of the stream. -/
theorem returnedOf_answers (stream : List α) (n : Nat) :
    returnedOf (c.answers bad stream n) = (c.messages stream).take n := by
  have hlast : ∀ k, returnedOf
      ([answerOf bad (c.next (c.leftover stream))].take k) = [] := by
    intro k
    cases k with
    | zero => rfl
    | succ k =>
      rw [List.take_succ_cons, List.take_nil]
      cases h : c.next (c.leftover stream) with
      | message m r => exact absurd h (next_leftover stream m r)
      | bad => rfl
      | more => rfl
  rw [answers, List.take_append, returnedOf_append, hlast, List.append_nil, ← List.map_take,
    returnedOf_map]

end Codec

end Lib
