import Mathlib.Data.List.Basic
import Mathlib.Tactic

/-!
# Length-prefixed framing

A stream of cells carries messages one after another, and the first `header`
cells of a message tell its length (which counts the header). A `Codec` is such
a format; the laws it carries (`header_le`, `pos`) are what makes a stream
readable: a message is never empty and never shorter than its own header.

- `next c s` is the reference parser for one message: the first message of `s`
  and what follows it, or that more cells are needed, or that the header is one
  the format rejects.
- `messages c s` and `leftover c s` iterate it to the end of `s`.
- `Carries c s ms` says that `s` is the messages `ms` and perhaps the beginning
  of one more.
- `Progress c received out unread` is the invariant of a parser that is given a
  stream bit by bit.

Everything here is about growing streams: an answer of `next` other than "more"
is final (`next_append_message`, `next_append_bad`), so the messages of a stream
are those of any prefix followed by those of what the prefix left over
(`messages_append`).
-/

namespace Lib

universe u

/-- A length-prefixed message format: `length` reads the length of a message off
its first `header` cells, or rejects them. -/
structure Codec (α : Type u) : Type u where
  header : Nat
  length : List α → Option Nat
  header_le : ∀ {hd : List α} {n : Nat}, length hd = some n → header ≤ n
  pos : ∀ {hd : List α} {n : Nat}, length hd = some n → 0 < n

/-- What the front of a stream is. -/
inductive Next (α : Type u) : Type u where
  | more
  | bad
  | message (m rest : List α)
deriving DecidableEq, Repr

namespace Codec

variable {α : Type u} (c : Codec α)

/-- The reference parser for one message. -/
def next (s : List α) : Next α :=
  if s.length < c.header then .more
  else match c.length (s.take c.header) with
    | none => .bad
    | some n => if s.length < n then .more else .message (s.take n) (s.drop n)

/-- `m` is one whole message. -/
def IsMessage (m : List α) : Prop :=
  c.length (m.take c.header) = some m.length

instance (m : List α) : Decidable (c.IsMessage m) :=
  inferInstanceAs (Decidable (c.length (m.take c.header) = some m.length))

/-- `p` is the beginning of a message, but not all of it. -/
def Incomplete (p : List α) : Prop :=
  ∃ m, c.IsMessage m ∧ p <+: m ∧ p.length < m.length

variable {c}

theorem next_eq_message {s m r : List α} (h : c.next s = .message m r) :
    ∃ n, c.length (s.take c.header) = some n ∧ c.header ≤ s.length ∧ n ≤ s.length ∧
      m = s.take n ∧ r = s.drop n := by
  rw [next] at h
  split at h
  · cases h
  · rename_i hhd
    split at h
    · cases h
    · rename_i n hn
      split at h
      · cases h
      · rename_i hlen
        cases h
        exact ⟨n, hn, by omega, by omega, rfl, rfl⟩

theorem next_of_length {s : List α} {n : Nat} (hhd : c.header ≤ s.length)
    (hn : c.length (s.take c.header) = some n) :
    c.next s = if s.length < n then .more else .message (s.take n) (s.drop n) := by
  rw [next, if_neg (by omega), hn]

theorem next_eq_bad {s : List α} :
    c.next s = .bad ↔ c.header ≤ s.length ∧ c.length (s.take c.header) = none := by
  rw [next]
  constructor
  · intro h
    split at h
    · cases h
    · rename_i hhd
      split at h
      · rename_i hn
        exact ⟨by omega, hn⟩
      · split at h <;> cases h
  · rintro ⟨hhd, hn⟩
    rw [if_neg (by omega), hn]

theorem ne_message_of_more {s : List α} (h : c.next s = .more) (m r : List α) :
    c.next s ≠ .message m r := by
  intro hmsg
  cases h.symm.trans hmsg

theorem ne_message_of_bad {s : List α} (h : c.next s = .bad) (m r : List α) :
    c.next s ≠ .message m r := by
  intro hmsg
  cases h.symm.trans hmsg

/-- A parsed message and what follows it are the stream. -/
theorem append_of_next {s m r : List α} (h : c.next s = .message m r) : m ++ r = s := by
  obtain ⟨n, -, -, -, rfl, rfl⟩ := next_eq_message h
  exact List.take_append_drop n s

theorem isMessage_of_next {s m r : List α} (h : c.next s = .message m r) :
    c.IsMessage m := by
  obtain ⟨n, hn, hhd, hlen, rfl, rfl⟩ := next_eq_message h
  have hle := c.header_le hn
  rw [IsMessage, List.take_take, Nat.min_eq_left hle, hn, List.length_take,
    Nat.min_eq_left hlen]

theorem IsMessage.header_le_length {m : List α} (h : c.IsMessage m) :
    c.header ≤ m.length := c.header_le h

theorem IsMessage.length_pos {m : List α} (h : c.IsMessage m) : 0 < m.length := c.pos h

/-- A message begins with the header of the stream it was taken off. -/
theorem take_header_of_next {s m r : List α} (h : c.next s = .message m r) :
    m.take c.header = s.take c.header := by
  obtain ⟨n, hn, -, -, rfl, -⟩ := next_eq_message h
  rw [List.take_take, Nat.min_eq_left (c.header_le hn)]

theorem length_rest_lt {s m r : List α} (h : c.next s = .message m r) :
    r.length < s.length := by
  have hpos := (isMessage_of_next h).length_pos
  rw [← append_of_next h, List.length_append]
  omega

/-! ## Answers on a growing stream -/

/-- The front of a stream does not change when the stream grows. -/
theorem take_header_append {s : List α} (h : c.header ≤ s.length) (t : List α) :
    (s ++ t).take c.header = s.take c.header :=
  List.take_append_of_le_length h

theorem next_append_message {s m r : List α} (h : c.next s = .message m r) (t : List α) :
    c.next (s ++ t) = .message m (r ++ t) := by
  obtain ⟨n, hn, hhd, hlen, rfl, rfl⟩ := next_eq_message h
  rw [next_of_length (by rw [List.length_append]; omega)
    (by rw [take_header_append hhd]; exact hn), if_neg (by rw [List.length_append]; omega),
    List.take_append_of_le_length hlen, List.drop_append_of_le_length hlen]

theorem next_append_bad {s : List α} (h : c.next s = .bad) (t : List α) :
    c.next (s ++ t) = .bad := by
  obtain ⟨hhd, hn⟩ := next_eq_bad.mp h
  exact next_eq_bad.mpr ⟨by rw [List.length_append]; omega,
    by rw [take_header_append hhd]; exact hn⟩

theorem next_of_isMessage {m : List α} (h : c.IsMessage m) (t : List α) :
    c.next (m ++ t) = .message m t := by
  have hhd := h.header_le_length
  rw [next_of_length (by rw [List.length_append]; omega)
    (by rw [take_header_append hhd]; exact h), if_neg (by rw [List.length_append]; omega),
    List.take_left, List.drop_left]

/-- The beginning of a message asks for more. -/
theorem next_of_prefix {p m : List α} (h : c.IsMessage m) (hp : p <+: m)
    (hlt : p.length < m.length) : c.next p = .more := by
  obtain ⟨t, rfl⟩ := hp
  by_cases hhd : c.header ≤ p.length
  · rw [IsMessage, take_header_append hhd] at h
    rw [next_of_length hhd h, if_pos hlt]
  · rw [next, if_pos (by omega)]

theorem Incomplete.next_eq {p : List α} (h : c.Incomplete p) : c.next p = .more := by
  obtain ⟨m, hm, hp, hlt⟩ := h
  exact next_of_prefix hm hp hlt

/-- What is left of an incomplete message is incomplete. -/
theorem Incomplete.of_prefix {p q : List α} (h : c.Incomplete p) (hq : q <+: p) :
    c.Incomplete q := by
  obtain ⟨m, hm, hp, hlt⟩ := h
  exact ⟨m, hm, hq.trans hp, Nat.lt_of_le_of_lt hq.length_le hlt⟩

/-! ## All messages of a stream -/

variable (c)

/-- The messages at the front of `s`, at most `fuel` of them, and the rest. -/
def parse : Nat → List α → List (List α) × List α
  | 0, s => ([], s)
  | fuel + 1, s =>
    match c.next s with
    | .message m r => (m :: (parse fuel r).1, (parse fuel r).2)
    | _ => ([], s)

/-- The messages of `s`, up to the first bad header or incomplete message. -/
def messages (s : List α) : List (List α) := (c.parse s.length s).1

/-- The cells of `s` behind its messages. -/
def leftover (s : List α) : List α := (c.parse s.length s).2

variable {c}

/-- Induction along the messages of a stream. -/
theorem stream_induction {P : List α → Prop}
    (hmsg : ∀ s m r, c.next s = .message m r → P r → P s)
    (hstop : ∀ s, (∀ m r, c.next s ≠ .message m r) → P s) (s : List α) : P s := by
  induction hn : s.length using Nat.strong_induction_on generalizing s with
  | _ n ih =>
    subst hn
    by_cases h : ∃ m r, c.next s = .message m r
    · obtain ⟨m, r, h⟩ := h
      exact hmsg s m r h (ih r.length (length_rest_lt h) r rfl)
    · exact hstop s fun m r hmr => h ⟨m, r, hmr⟩

theorem parse_fuel {fuel : Nat} {s : List α} (h : s.length ≤ fuel) :
    c.parse fuel s = c.parse s.length s := by
  induction fuel using Nat.strong_induction_on generalizing s with
  | _ fuel ih =>
    rcases Nat.eq_zero_or_pos fuel with rfl | hpos
    · rw [Nat.le_zero.mp h]
    · obtain ⟨f, rfl⟩ := Nat.exists_eq_succ_of_ne_zero (by omega : fuel ≠ 0)
      cases hs : c.next s with
      | message m r =>
        have hlt := length_rest_lt hs
        obtain ⟨k, hk⟩ := Nat.exists_eq_succ_of_ne_zero (by omega : s.length ≠ 0)
        have hf : c.parse f r = c.parse r.length r := ih f (by omega) (by omega)
        have hk' : c.parse k r = c.parse r.length r := ih k (by omega) (by omega)
        rw [hk, parse, parse, hs]
        show (m :: (c.parse f r).1, _) = (m :: (c.parse k r).1, _)
        rw [hf, hk']
      | more =>
        rw [parse, hs]
        cases hl : s.length <;> simp [parse, hs]
      | bad =>
        rw [parse, hs]
        cases hl : s.length <;> simp [parse, hs]

theorem parse_message {s m r : List α} (h : c.next s = .message m r) :
    c.parse s.length s = (m :: c.messages r, c.leftover r) := by
  have hlt := length_rest_lt h
  obtain ⟨k, hk⟩ := Nat.exists_eq_succ_of_ne_zero (by omega : s.length ≠ 0)
  rw [hk, parse, h]
  show (m :: (c.parse k r).1, (c.parse k r).2) = _
  rw [parse_fuel (by omega : r.length ≤ k)]
  rfl

theorem parse_stop {s : List α} (h : ∀ m r, c.next s ≠ .message m r) (fuel : Nat) :
    c.parse fuel s = ([], s) := by
  cases fuel with
  | zero => rfl
  | succ fuel =>
    cases hs : c.next s with
    | message m r => exact absurd hs (h m r)
    | more => simp [parse, hs]
    | bad => simp [parse, hs]

theorem messages_cons {s m r : List α} (h : c.next s = .message m r) :
    c.messages s = m :: c.messages r := by
  rw [messages, parse_message h]

theorem leftover_cons {s m r : List α} (h : c.next s = .message m r) :
    c.leftover s = c.leftover r := by
  rw [leftover, parse_message h]

theorem messages_stop {s : List α} (h : ∀ m r, c.next s ≠ .message m r) :
    c.messages s = [] := by
  rw [messages, parse_stop h]

theorem leftover_stop {s : List α} (h : ∀ m r, c.next s ≠ .message m r) :
    c.leftover s = s := by
  rw [leftover, parse_stop h]

theorem next_of_messages {s m : List α} {ms : List (List α)} (h : c.messages s = m :: ms) :
    ∃ r, c.next s = .message m r := by
  by_cases hnext : ∃ m' r, c.next s = .message m' r
  · obtain ⟨m', r, hnext⟩ := hnext
    rw [messages_cons hnext] at h
    exact ⟨r, (List.cons.inj h).1 ▸ hnext⟩
  · rw [messages_stop fun m' r hmsg => hnext ⟨m', r, hmsg⟩] at h
    cases h

/-- Nothing is left that the parser could still take. -/
theorem next_leftover (s : List α) (m r : List α) : c.next (c.leftover s) ≠ .message m r := by
  induction s using stream_induction (c := c) with
  | hmsg s m' r' h ih =>
    rw [leftover_cons h]
    exact ih
  | hstop s h =>
    rw [leftover_stop h]
    exact h m r

/-- The messages of a grown stream are the old ones and those of what they left
over, grown. -/
theorem messages_append (s t : List α) :
    c.messages (s ++ t) = c.messages s ++ c.messages (c.leftover s ++ t) := by
  induction s using stream_induction (c := c) with
  | hmsg s m r h ih =>
    rw [messages_cons h, leftover_cons h, messages_cons (next_append_message h t), ih]
    rfl
  | hstop s h => rw [messages_stop h, leftover_stop h, List.nil_append]

theorem leftover_append (s t : List α) :
    c.leftover (s ++ t) = c.leftover (c.leftover s ++ t) := by
  induction s using stream_induction (c := c) with
  | hmsg s m r h ih => rw [leftover_cons h, leftover_cons (next_append_message h t), ih]
  | hstop s h => rw [leftover_stop h]

/-- The messages of a well-formed stream are the ones it was made of. -/
theorem messages_flatten {ms : List (List α)} {p : List α}
    (hms : ∀ m ∈ ms, c.IsMessage m) (hp : c.next p = .more) :
    c.messages (ms.flatten ++ p) = ms ∧ c.leftover (ms.flatten ++ p) = p := by
  induction ms with
  | nil =>
    have hstop := ne_message_of_more hp
    exact ⟨messages_stop hstop, leftover_stop hstop⟩
  | cons m ms ih =>
    have hnext : c.next ((m :: ms).flatten ++ p) = .message m (ms.flatten ++ p) := by
      rw [List.flatten_cons, List.append_assoc]
      exact next_of_isMessage (hms m (List.mem_cons_self ..)) _
    obtain ⟨h1, h2⟩ := ih fun m' hm' => hms m' (List.mem_cons_of_mem _ hm')
    rw [messages_cons hnext, leftover_cons hnext, h1, h2]
    exact ⟨rfl, rfl⟩

/-! ## Messages wholly contained in a prefix -/

/-- The messages of `ms` that end within the first `n` cells of their
concatenation. -/
def contained : List (List α) → Nat → List (List α)
  | [], _ => []
  | m :: ms, n => if m.length ≤ n then m :: contained ms (n - m.length) else []

theorem contained_zero {ms : List (List α)} (h : ∀ m ∈ ms, c.IsMessage m) :
    contained ms 0 = [] := by
  cases ms with
  | nil => rfl
  | cons m ms =>
    have hpos := (h m (List.mem_cons_self ..)).length_pos
    exact if_neg (by omega)

theorem contained_all {ms : List (List α)} {n : Nat} (h : ms.flatten.length ≤ n) :
    contained ms n = ms := by
  induction ms generalizing n with
  | nil => rfl
  | cons m ms ih =>
    rw [List.flatten_cons, List.length_append] at h
    rw [contained, if_pos (by omega), ih (by omega)]

/-- The messages of a prefix of a well-formed stream are those that end in it. -/
theorem messages_of_prefix {ms : List (List α)} {p q : List α}
    (hms : ∀ m ∈ ms, c.IsMessage m) (hp : c.Incomplete p)
    (hq : q <+: ms.flatten ++ p) :
    c.messages q = contained ms q.length ∧ c.next (c.leftover q) = .more := by
  induction ms generalizing q with
  | nil =>
    have hmore : c.next q = .more := (hp.of_prefix (by simpa using hq)).next_eq
    have hstop := ne_message_of_more hmore
    exact ⟨messages_stop hstop, by rw [leftover_stop hstop, hmore]⟩
  | cons m ms ih =>
    have hm : c.IsMessage m := hms m (List.mem_cons_self ..)
    have hms' : ∀ m' ∈ ms, c.IsMessage m' := fun m' hm' =>
      hms m' (List.mem_cons_of_mem _ hm')
    rw [List.flatten_cons, List.append_assoc] at hq
    by_cases hle : m.length ≤ q.length
    · -- the first message is in the prefix: take it off both
      obtain ⟨r, rfl⟩ := List.prefix_of_prefix_length_le (List.prefix_append m _) hq hle
      obtain ⟨h1, h2⟩ := ih hms' ((List.prefix_append_right_inj m).mp hq)
      have hnext := next_of_isMessage hm r
      rw [messages_cons hnext, leftover_cons hnext, contained, if_pos hle, h1,
        List.length_append, Nat.add_sub_cancel_left]
      exact ⟨rfl, h2⟩
    · -- the prefix ends in the first message
      have hpre : q <+: m :=
        List.prefix_of_prefix_length_le hq (List.prefix_append m _) (by omega)
      have hmore : c.next q = .more := next_of_prefix hm hpre (by omega)
      have hstop := ne_message_of_more hmore
      rw [messages_stop hstop, leftover_stop hstop, contained, if_neg hle]
      exact ⟨rfl, hmore⟩

/-- `s` is the messages `ms` one after another, and perhaps the beginning of one
more. -/
def Carries (c : Codec α) (s : List α) (ms : List (List α)) : Prop :=
  (∀ m ∈ ms, c.IsMessage m) ∧ ∃ p, s = ms.flatten ++ p ∧ (p = [] ∨ c.Incomplete p)

theorem Carries.length_le {s : List α} {ms : List (List α)} (h : c.Carries s ms) :
    ms.flatten.length ≤ s.length := by
  obtain ⟨-, p, rfl, -⟩ := h
  rw [List.length_append]
  omega

/-- What a reader of a well-formed stream has after a part of it: the messages
that end in the part, and a rest that asks for more. -/
theorem Carries.of_prefix {s : List α} {ms : List (List α)} (h : c.Carries s ms)
    {q : List α} (hq : q <+: s) (hne : q ≠ []) :
    c.messages q = contained ms q.length ∧ c.next (c.leftover q) = .more := by
  obtain ⟨hms, p, rfl, hp⟩ := h
  refine messages_of_prefix hms ?_ hq
  rcases hp with rfl | hp
  · -- a stream that ends with a message: nothing is an incomplete message too
    cases ms with
    | nil => exact absurd (List.prefix_nil.mp hq) hne
    | cons m ms =>
      have hm := hms m (List.mem_cons_self ..)
      exact ⟨m, hm, List.nil_prefix, hm.length_pos⟩
  · exact hp

/-- The messages of a well-formed stream are the ones it carries. -/
theorem Carries.messages_eq {s : List α} {ms : List (List α)} (h : c.Carries s ms) :
    c.messages s = ms := by
  obtain ⟨hms, p, rfl, hp⟩ := h
  rcases hp with rfl | hp
  · rw [List.append_nil]
    induction ms with
    | nil => exact messages_stop fun m r hnext => absurd (length_rest_lt hnext) (by simp)
    | cons m ms ih =>
      rw [List.flatten_cons, messages_cons (next_of_isMessage (hms m (List.mem_cons_self ..)) _),
        ih fun m' hm' => hms m' (List.mem_cons_of_mem _ hm')]
  · exact (messages_flatten hms hp.next_eq).1

/-- A format that rejects nothing at all in front of it has no messages. -/
theorem Carries.of_next_nil {s : List α} {ms : List (List α)} (h : c.Carries s ms)
    (hbad : c.next [] = .bad) : s = [] ∧ ms = [] := by
  obtain ⟨hms, p, rfl, hp⟩ := h
  have hnil : p = [] := by
    refine hp.resolve_right fun hinc => ?_
    cases (next_append_bad hbad p).symm.trans hinc.next_eq
  cases ms with
  | nil => exact ⟨hnil, rfl⟩
  | cons m ms =>
    have hmsg := next_of_isMessage (hms m (List.mem_cons_self ..)) []
    rw [List.append_nil] at hmsg
    cases (next_append_bad hbad m).symm.trans hmsg

/-- Otherwise what is left over of a well-formed stream asks for more. -/
theorem Carries.next_leftover {s : List α} {ms : List (List α)} (h : c.Carries s ms)
    (hbad : c.next [] ≠ .bad) : c.next (c.leftover s) = .more := by
  obtain ⟨hms, p, rfl, hp⟩ := h
  have hmore : c.next p = .more := by
    rcases hp with rfl | hp
    · cases hnil : c.next [] with
      | more => rfl
      | bad => exact absurd hnil hbad
      | message m r => exact absurd (length_rest_lt hnil) (Nat.not_lt_zero _)
    · exact hp.next_eq
  rw [(messages_flatten hms hmore).2, hmore]

/-! ## Parsing step by step -/

variable (c)

/-- A parser that was given `received` has handed out `out` and still holds
`unread`. -/
structure Progress (received : List α) (out : List (List α)) (unread : List α) : Prop where
  messages : out ++ c.messages unread = c.messages received
  leftover : c.leftover unread = c.leftover received

variable {c}

theorem progress_nil : c.Progress [] [] [] := ⟨rfl, rfl⟩

/-- More cells arrive. -/
theorem Progress.append {received unread : List α} {out : List (List α)}
    (h : c.Progress received out unread) (t : List α) :
    c.Progress (received ++ t) out (unread ++ t) where
  messages := by
    rw [messages_append, ← List.append_assoc, h.messages, h.leftover, ← messages_append]
  leftover := by rw [leftover_append, h.leftover, ← leftover_append]

/-- The message at the front is handed out. -/
theorem Progress.message {received unread m r : List α} {out : List (List α)}
    (h : c.Progress received out unread) (hnext : c.next unread = .message m r) :
    c.Progress received (out ++ [m]) r where
  messages := by rw [List.append_assoc, ← h.messages, messages_cons hnext]; rfl
  leftover := by rw [← h.leftover, leftover_cons hnext]

/-- A bad header stays in what is left over. -/
theorem Progress.next_ne_bad {received unread : List α} {out : List (List α)}
    (h : c.Progress received out unread) (hmore : c.next (c.leftover received) = .more) :
    c.next unread ≠ .bad := by
  intro hbad
  rw [← h.leftover, leftover_stop (ne_message_of_bad hbad), hbad] at hmore
  cases hmore

end Codec

end Lib
