import KgCpp.Lib.Framing
import KgCpp.Lib.Run

/-!
# Requests and replies over two streams

A client and a server talk over two streams of cells. The client sends requests
and reads replies; the network brings each stream over in pieces, cut anywhere
and as late as it likes; the server takes *at most one* request off what it has
whenever a piece comes, and answers it. A `Link` is one such connection, a `Move`
one thing that can happen on it.

- `Inv` is what holds of every link: each of the two streams is a list of whole
  messages, of which the receiver has a part and the network the rest.
- `Inv.step`: every move keeps it, so nothing is lost, invented or reordered, and
  neither side ever meets a bad header, whatever the network does.
- `idle_answered`: when nothing can happen any more but a new request, the
  requests without a reply are those the server has in its hands, fewer than the
  window. A client that waits for each reply gets them all.
- `exec_work`: without new requests only boundedly much can happen.
-/

namespace Lib

universe u v

/-! ## A part of a stream of whole messages -/

namespace Codec

variable {α : Type u} {c : Codec α}

/-- Whole messages first. -/
theorem messages_flatten_append {ms : List (List α)} (h : ∀ m ∈ ms, c.IsMessage m)
    (s : List α) : c.messages (ms.flatten ++ s) = ms ++ c.messages s := by
  induction ms with
  | nil => rfl
  | cons m ms ih =>
    rw [List.flatten_cons, List.append_assoc,
      messages_cons (next_of_isMessage (h m (List.mem_cons_self ..)) _),
      ih fun m' hm' => h m' (List.mem_cons_of_mem _ hm')]
    rfl

theorem messages_nil : c.messages ([] : List α) = [] :=
  messages_stop fun _ _ h => absurd (length_rest_lt h) (Nat.not_lt_zero _)

theorem messages_of_flatten {ms : List (List α)} (h : ∀ m ∈ ms, c.IsMessage m) :
    c.messages ms.flatten = ms := by
  have := messages_flatten_append h []
  rwa [List.append_nil, messages_nil, List.append_nil] at this

/-- What the front of a part of a stream of whole messages is: nothing when there
are none, else the first message or the beginning of it. -/
theorem next_part {ms : List (List α)} (h : ∀ m ∈ ms, c.IsMessage m) {p q : List α}
    (hpq : p ++ q = ms.flatten) :
    (ms = [] ∧ p = [] ∧ q = []) ∨
      (∃ m rest, ms = m :: rest ∧ p.length < m.length ∧ c.next p = .more) ∨
      ∃ m rest r, ms = m :: rest ∧ p = m ++ r ∧ r ++ q = rest.flatten ∧
        c.next p = .message m r := by
  cases ms with
  | nil =>
    rw [List.flatten_nil, List.append_eq_nil_iff] at hpq
    exact .inl ⟨rfl, hpq⟩
  | cons m rest =>
    have hm := h m (List.mem_cons_self ..)
    rw [List.flatten_cons] at hpq
    rcases List.append_eq_append_iff.mp hpq with ⟨t, hmt, hq⟩ | ⟨r, hp, hr⟩
    · -- the part ends in the first message, or with it
      rcases List.eq_nil_or_concat' t with rfl | ⟨t, x, rfl⟩
      · rw [List.append_nil] at hmt
        rw [List.nil_append] at hq
        subst hmt
        have hnext := next_of_isMessage hm []
        rw [List.append_nil] at hnext
        exact .inr (.inr ⟨m, rest, [], rfl, (List.append_nil m).symm, hq, hnext⟩)
      · have hlt : p.length < m.length := by
          rw [hmt, List.length_append, List.length_append, List.length_singleton]
          omega
        exact .inr (.inl ⟨m, rest, rfl, hlt, next_of_prefix hm ⟨_, hmt.symm⟩ hlt⟩)
    · exact .inr (.inr ⟨m, rest, r, rfl, hp, hr.symm, hp ▸ next_of_isMessage hm r⟩)

end Codec

/-! ## The machine -/

/-- Two message formats, and what the server makes of a request: it changes its
session and answers. The client may have `window` requests without a reply, and
the network brings at most `chunk` cells at once. -/
structure Protocol (α : Type u) (τ : Type v) : Type (max u v) where
  request : Codec α
  reply : Codec α
  answer : τ → List α → τ × List α
  isMessage_answer : ∀ {x : τ} {m : List α}, request.IsMessage m →
    reply.IsMessage (answer x m).2
  next_nil : reply.next [] ≠ .bad
  window : Nat
  chunk : Nat

/-- A connection: what the client has sent, what is on the way to the server,
what the server holds, the requests it has taken and its session, what is on the
way to the client, what the client holds, whether it waits for more, and the
replies it has read. -/
structure Link (α : Type u) (τ : Type v) : Type (max u v) where
  sent : List (List α)
  toServer : List α
  serverHolds : List α
  taken : List (List α)
  session : τ
  toClient : List α
  clientHolds : List α
  waiting : Bool
  replies : List (List α)

/-- What can happen on a link: the client sends a request, or asks for a reply; a
piece of a length comes to the server, or to the client. -/
inductive Move (α : Type u) : Type u where
  | send (m : List α)
  | ask
  | toServer (n : Nat)
  | toClient (n : Nat)
deriving DecidableEq, Repr

/-- Everything but a new request. -/
def Move.isWork {α : Type u} : Move α → Bool
  | .send _ => false
  | _ => true

namespace Link

variable {α : Type u} {τ : Type v}

/-- A connection that was just made. -/
def start (x : τ) : Link α τ := ⟨[], [], [], [], x, [], [], false, []⟩

/-- The server looks at what it holds: it takes the first request, when there is
one, and does not look again. -/
def serve (p : Protocol α τ) (s : Link α τ) : Option (Link α τ) :=
  match p.request.next s.serverHolds with
  | .more => some s
  | .bad => none
  | .message m rest =>
    some { s with
      serverHolds := rest
      taken := s.taken ++ [m]
      session := (p.answer s.session m).1
      toClient := s.toClient ++ (p.answer s.session m).2 }

/-- The client looks at what it holds: it reads the first reply, or waits. -/
def look (p : Protocol α τ) (s : Link α τ) : Option (Link α τ) :=
  match p.reply.next s.clientHolds with
  | .more => some { s with waiting := true }
  | .bad => none
  | .message m rest =>
    some { s with clientHolds := rest, waiting := false, replies := s.replies ++ [m] }

/-- The length of a piece that the network can bring. -/
def Piece (p : Protocol α τ) (inFlight : List α) (n : Nat) : Prop :=
  0 < n ∧ n ≤ p.chunk ∧ n ≤ inFlight.length

instance (p : Protocol α τ) (inFlight : List α) (n : Nat) : Decidable (Piece p inFlight n) := by
  unfold Piece
  infer_instance

/-- A piece comes to the server. -/
def brought (s : Link α τ) (n : Nat) : Link α τ :=
  { s with
    toServer := s.toServer.drop n
    serverHolds := s.serverHolds ++ s.toServer.take n }

/-- A piece comes to the client. -/
def returned (s : Link α τ) (n : Nat) : Link α τ :=
  { s with
    toClient := s.toClient.drop n
    clientHolds := s.clientHolds ++ s.toClient.take n }

/-- One move; `none` when it is not possible, or when a header is bad. -/
def step (p : Protocol α τ) (s : Link α τ) : Move α → Option (Link α τ)
  | .send m =>
    if s.sent.length < s.replies.length + p.window then
      some { s with sent := s.sent ++ [m], toServer := s.toServer ++ m }
    else none
  | .ask => if s.waiting then none else s.look p
  | .toServer n => if Piece p s.toServer n then (s.brought n).serve p else none
  | .toClient n => if s.waiting ∧ Piece p s.toClient n then (s.returned n).look p else none

/-! ## The invariant -/

/-- The replies to requests. -/
def repliesTo (p : Protocol α τ) (x : τ) (ms : List (List α)) : List (List α) :=
  (run p.answer x ms).2

/-- Where the messages of a connection are whose session began as `x`. The requests
that were sent are those taken and some more, which are what the server holds and
what is on the way to it; the replies to those taken are those read and some more,
likewise. -/
structure Flow (p : Protocol α τ) (x : τ) (s : Link α τ) : Prop where
  sent : ∀ m ∈ s.sent, p.request.IsMessage m
  window : s.sent.length ≤ s.replies.length + p.window
  session : s.session = (run p.answer x s.taken).1
  untaken : ∃ more, s.sent = s.taken ++ more ∧ s.serverHolds ++ s.toServer = more.flatten
  unread : ∃ more, repliesTo p x s.taken = s.replies ++ more ∧
    s.clientHolds ++ s.toClient = more.flatten

/-- What holds on a connection between two moves: a client that waits has no whole
reply, and the server leaves fewer requests behind than the window. -/
structure Inv (p : Protocol α τ) (x : τ) (s : Link α τ) : Prop extends Flow p x s where
  waiting : s.waiting = true → p.reply.next s.clientHolds = .more
  backlog : (p.request.messages s.serverHolds).length ≤ p.window - 1

section Replies

variable {p : Protocol α τ} {x : τ}

theorem repliesTo_append (ms : List (List α)) (m : List α) :
    repliesTo p x (ms ++ [m]) = repliesTo p x ms ++ [(p.answer (run p.answer x ms).1 m).2] := by
  rw [repliesTo, run_append]
  rfl

theorem length_repliesTo (ms : List (List α)) : (repliesTo p x ms).length = ms.length := by
  induction ms using List.reverseRecOn with
  | nil => rfl
  | append_singleton ms m ih => simp [repliesTo_append, ih]

theorem repliesTo_mono {ms ms' : List (List α)} (h : ms <+: ms') :
    repliesTo p x ms <+: repliesTo p x ms' := by
  obtain ⟨more, rfl⟩ := h
  rw [repliesTo, repliesTo, run_append]
  exact List.prefix_append _ _

theorem isMessage_repliesTo {ms : List (List α)} (h : ∀ m ∈ ms, p.request.IsMessage m) :
    ∀ r ∈ repliesTo p x ms, p.reply.IsMessage r := by
  induction ms using List.reverseRecOn with
  | nil => exact fun r hr => (List.not_mem_nil hr).elim
  | append_singleton ms m ih =>
    intro r hr
    rw [repliesTo_append, List.mem_append, List.mem_singleton] at hr
    rcases hr with hr | rfl
    · exact ih (fun m' hm' => h m' (List.mem_append_left _ hm')) r hr
    · exact p.isMessage_answer (h m (List.mem_append_right _ (List.mem_singleton_self m)))

end Replies

section Flow

variable {p : Protocol α τ} {x : τ} {s : Link α τ}

theorem inv_start (p : Protocol α τ) (x : τ) : Inv p x (start x) where
  sent := fun m hm => (List.not_mem_nil hm).elim
  window := Nat.zero_le _
  session := rfl
  untaken := ⟨[], rfl, rfl⟩
  unread := ⟨[], rfl, rfl⟩
  waiting := fun h => Bool.noConfusion h
  backlog := by
    show (p.request.messages []).length ≤ _
    rw [Codec.messages_nil]
    exact Nat.zero_le _

theorem Flow.brought (h : Flow p x s) (n : Nat) : Flow p x (s.brought n) where
  sent := h.sent
  window := h.window
  session := h.session
  untaken := by
    obtain ⟨more, hsent, hmore⟩ := h.untaken
    refine ⟨more, hsent, ?_⟩
    rw [← hmore, Link.brought, List.append_assoc, List.take_append_drop]
  unread := h.unread

theorem Flow.returned (h : Flow p x s) (n : Nat) : Flow p x (s.returned n) where
  sent := h.sent
  window := h.window
  session := h.session
  untaken := h.untaken
  unread := by
    obtain ⟨more, hreplies, hmore⟩ := h.unread
    refine ⟨more, hreplies, ?_⟩
    rw [← hmore, Link.returned, List.append_assoc, List.take_append_drop]

/-- The requests that were not taken are messages, and no more than the window. -/
theorem Flow.length_untaken (h : Flow p x s) {more : List (List α)}
    (hsent : s.sent = s.taken ++ more) : more.length ≤ p.window := by
  obtain ⟨due, hreplies, -⟩ := h.unread
  have htaken := congrArg List.length hreplies
  have hwindow := h.window
  rw [length_repliesTo, List.length_append] at htaken
  rw [hsent, List.length_append] at hwindow
  omega

/-- A part of a stream holds no more messages than the stream. -/
theorem length_messages_part {c : Codec α} {ms : List (List α)} (h : ∀ m ∈ ms, c.IsMessage m)
    {q t : List α} (hq : q ++ t = ms.flatten) : (c.messages q).length ≤ ms.length := by
  rw [← Codec.messages_of_flatten h, ← hq, Codec.messages_append, List.length_append]
  exact Nat.le_add_right _ _

/-! ## What is left to do -/

/-- How many cells the replies have to the requests that were sent and not taken. -/
def owed (p : Protocol α τ) (s : Link α τ) : Nat :=
  (repliesTo p s.session (p.request.messages (s.serverHolds ++ s.toServer))).flatten.length

/-- A bound on the moves before the next request that are about cells: a cell on
the way to the client can come, be taken up in a reply, and make the client ask
again. -/
def cells (p : Protocol α τ) (s : Link α τ) : Nat :=
  s.toServer.length + 3 * (s.owed p + s.toClient.length) + s.clientHolds.length

/-- A bound on all moves before the next request. -/
def work (p : Protocol α τ) (s : Link α τ) : Nat := s.cells p + if s.waiting then 0 else 1

theorem Flow.owed_eq (h : Flow p x s) {more : List (List α)} (hsent : s.sent = s.taken ++ more)
    (hmore : s.serverHolds ++ s.toServer = more.flatten) :
    s.owed p = (repliesTo p s.session more).flatten.length := by
  rw [owed, hmore, Codec.messages_of_flatten fun m hm => h.sent m
    (hsent ▸ List.mem_append_right _ hm)]

/-- What a link is like when the server has looked at what it holds. -/
structure Served (p : Protocol α τ) (x : τ) (s s' : Link α τ) : Prop extends Flow p x s' where
  backlog : (p.request.messages s'.serverHolds).length ≤ p.window - 1
  cells : s'.cells p = s.cells p
  waiting : s'.waiting = s.waiting
  clientHolds : s'.clientHolds = s.clientHolds

/-- What a link is like when the client has looked at what it holds. -/
structure Looked (p : Protocol α τ) (x : τ) (s s' : Link α τ) : Prop extends Flow p x s' where
  waiting : s'.waiting = true → p.reply.next s'.clientHolds = .more
  serverHolds : s'.serverHolds = s.serverHolds
  work : s'.work p ≤ s.cells p

/-- What the server does with what it holds: it takes the first request, or waits
for the rest of it. -/
theorem Flow.serve (h : Flow p x s) (hne : s.serverHolds ≠ []) :
    ∃ s', s.serve p = some s' ∧ Served p x s s' := by
  obtain ⟨more, hsent, hmore⟩ := h.untaken
  have hmsgs : ∀ m ∈ more, p.request.IsMessage m := fun m hm =>
    h.sent m (hsent ▸ List.mem_append_right _ hm)
  have hlen := h.length_untaken hsent
  unfold Link.serve
  rcases Codec.next_part hmsgs hmore with ⟨rfl, hp, -⟩ | ⟨m, rest, rfl, -, hnext⟩ |
    ⟨m, rest, r, rfl, hp, hr, hnext⟩
  · exact absurd hp hne
  · rw [hnext]
    refine ⟨s, rfl, ⟨h, ?_, rfl, rfl, rfl⟩⟩
    rw [Codec.messages_stop (Codec.ne_message_of_more hnext)]
    exact Nat.zero_le _
  · -- the request moves to those taken, its reply to what is on the way
    rw [hnext]
    have hm := hmsgs m (List.mem_cons_self ..)
    have hrest : ∀ m' ∈ rest, p.request.IsMessage m' := fun m' hm' =>
      hmsgs m' (List.mem_cons_of_mem _ hm')
    have hsent' : s.sent = s.taken ++ [m] ++ rest := by
      rw [hsent, List.append_assoc]
      rfl
    have howed := h.owed_eq hsent hmore
    refine ⟨_, rfl, ⟨⟨h.sent, h.window, ?_, ⟨rest, hsent', hr⟩, ?_⟩, ?_, ?_, rfl, rfl⟩⟩
    · show (p.answer s.session m).1 = _
      rw [run_append, ← h.session]
      rfl
    · obtain ⟨due, hreplies, hdue⟩ := h.unread
      refine ⟨due ++ [(p.answer s.session m).2], ?_, ?_⟩
      · rw [repliesTo_append, hreplies, ← h.session, List.append_assoc]
      · rw [List.flatten_append, List.flatten_singleton, ← hdue, List.append_assoc]
    · have := length_messages_part hrest hr
      rw [List.length_cons] at hlen
      show (p.request.messages r).length ≤ _
      omega
    · -- the cells of the reply were owed before
      have howed' : owed p { s with
          serverHolds := r
          taken := s.taken ++ [m]
          session := (p.answer s.session m).1
          toClient := s.toClient ++ (p.answer s.session m).2 } =
          (repliesTo p (p.answer s.session m).1 rest).flatten.length := by
        rw [owed, show r ++ s.toServer = rest.flatten from hr, Codec.messages_of_flatten hrest]
      rw [cells, howed', cells, howed, List.length_append]
      show _ = _ + 3 * (((p.answer s.session m).2 ::
        repliesTo p (p.answer s.session m).1 rest).flatten.length + _) + _
      rw [List.flatten_cons, List.length_append]
      dsimp only
      omega

/-- The replies that the client has still to read are replies. -/
theorem Flow.isMessage_due {due : List (List α)} (h : Flow p x s)
    (hreplies : repliesTo p x s.taken = s.replies ++ due) : ∀ r ∈ due, p.reply.IsMessage r := by
  obtain ⟨more, hsent, -⟩ := h.untaken
  intro r hr
  exact isMessage_repliesTo (fun m hm => h.sent m (hsent ▸ List.mem_append_left _ hm)) r
    (hreplies ▸ List.mem_append_right _ hr)

theorem Flow.wait (h : Flow p x s) (hnext : p.reply.next s.clientHolds = .more) :
    Looked p x s { s with waiting := true } :=
  ⟨⟨h.sent, h.window, h.session, h.untaken, h.unread⟩, fun _ => hnext, rfl, Nat.le_refl _⟩

/-- What the client does with what it holds: it reads the first reply, or waits for
the rest of it. -/
theorem Flow.look (h : Flow p x s) :
    ∃ s', s.look p = some s' ∧ Looked p x s s' := by
  obtain ⟨due, hreplies, hdue⟩ := h.unread
  have hmsgs := h.isMessage_due hreplies
  unfold Link.look
  rcases Codec.next_part hmsgs hdue with ⟨rfl, hp, -⟩ | ⟨m, rest, rfl, -, hnext⟩ |
    ⟨m, rest, r, rfl, hp, hr, hnext⟩
  · have hnext : p.reply.next s.clientHolds = .more := by
      rw [hp]
      cases hnil : p.reply.next [] with
      | more => rfl
      | bad => exact absurd hnil p.next_nil
      | message m r => exact absurd (Codec.length_rest_lt hnil) (Nat.not_lt_zero _)
    rw [hnext]
    exact ⟨_, rfl, h.wait hnext⟩
  · rw [hnext]
    exact ⟨_, rfl, h.wait hnext⟩
  · rw [hnext]
    have hreplies' : repliesTo p x s.taken = s.replies ++ [m] ++ rest := by
      rw [hreplies, List.append_assoc]
      rfl
    refine ⟨_, rfl, ⟨⟨h.sent, ?_, h.session, h.untaken, ⟨rest, hreplies', hr⟩⟩,
      (fun hw => Bool.noConfusion hw), rfl, ?_⟩⟩
    · have := h.window
      show s.sent.length ≤ (s.replies ++ [m]).length + p.window
      rw [List.length_append]
      omega
    · -- a reply that is read is not empty
      have hpos := (hmsgs m (List.mem_cons_self ..)).length_pos
      show cells p { s with clientHolds := r, waiting := false, replies := s.replies ++ [m] } +
        1 ≤ _
      rw [cells, cells, hp, List.length_append]
      show s.toServer.length + 3 * (s.owed p + s.toClient.length) + r.length + 1 ≤ _
      omega

/-! ## Moves -/

theorem cells_brought (s : Link α τ) {n : Nat} (hn : n ≤ s.toServer.length) :
    (s.brought n).cells p + n = s.cells p := by
  rw [cells, cells, owed, owed, Link.brought]
  dsimp only
  rw [List.append_assoc, List.take_append_drop, List.length_drop]
  omega

theorem cells_returned (s : Link α τ) {n : Nat} (hn : n ≤ s.toClient.length) :
    (s.returned n).cells p + 2 * n = s.cells p := by
  rw [cells, cells, owed, owed, Link.returned]
  dsimp only
  rw [List.length_drop, List.length_append, List.length_take]
  omega

/-- A request is sent. -/
theorem Inv.send (h : Inv p x s) {m : List α} (hm : p.request.IsMessage m)
    (hwindow : s.sent.length < s.replies.length + p.window) :
    Inv p x { s with sent := s.sent ++ [m], toServer := s.toServer ++ m } := by
  refine ⟨⟨?_, ?_, h.session, ?_, h.unread⟩, h.waiting, h.backlog⟩
  · intro m' hm'
    rcases List.mem_append.mp hm' with hm' | hm'
    · exact h.sent m' hm'
    · exact List.mem_singleton.mp hm' ▸ hm
  · show (s.sent ++ [m]).length ≤ s.replies.length + p.window
    rw [List.length_append, List.length_singleton]
    omega
  · obtain ⟨more, hsent, hmore⟩ := h.untaken
    refine ⟨more ++ [m], ?_, ?_⟩
    · rw [hsent, List.append_assoc]
    · rw [List.flatten_append, List.flatten_singleton, ← hmore, List.append_assoc]

/-- The client asks for a reply. -/
theorem Inv.ask (h : Inv p x s) (hwait : s.waiting ≠ true) :
    ∃ s', s.look p = some s' ∧ Inv p x s' ∧ s'.work p < s.work p := by
  obtain ⟨s', hlook, hs'⟩ := h.toFlow.look
  refine ⟨s', hlook, ⟨hs'.toFlow, hs'.waiting, hs'.serverHolds ▸ h.backlog⟩, ?_⟩
  have hwork := hs'.work
  have hidle : s.work p = s.cells p + 1 := by rw [work, if_neg hwait]
  omega

/-- A piece comes to the server. -/
theorem Inv.toServer (h : Inv p x s) {n : Nat} (hn : Piece p s.toServer n) :
    ∃ s', (s.brought n).serve p = some s' ∧ Inv p x s' ∧ s'.work p < s.work p := by
  obtain ⟨hpos, -, hle⟩ := hn
  have hne : (s.brought n).serverHolds ≠ [] := fun hnil => by
    have hlen := congrArg List.length (List.append_eq_nil_iff.mp hnil).2
    rw [List.length_take, List.length_nil] at hlen
    omega
  obtain ⟨s', hserve, hs'⟩ := (h.toFlow.brought n).serve hne
  refine ⟨s', hserve, ⟨hs'.toFlow, ?_, hs'.backlog⟩, ?_⟩
  · rw [hs'.waiting, hs'.clientHolds]
    exact h.waiting
  · have hcells := cells_brought (p := p) s hle
    rw [work, work, hs'.cells, hs'.waiting, ← hcells]
    show _ + (if s.waiting = true then 0 else 1) < _
    omega

/-- A piece comes to the client. -/
theorem Inv.toClient (h : Inv p x s) {n : Nat} (hn : Piece p s.toClient n) :
    ∃ s', (s.returned n).look p = some s' ∧ Inv p x s' ∧ s'.work p < s.work p := by
  obtain ⟨hpos, -, hle⟩ := hn
  obtain ⟨s', hlook, hs'⟩ := (h.toFlow.returned n).look
  refine ⟨s', hlook, ⟨hs'.toFlow, hs'.waiting, hs'.serverHolds ▸ h.backlog⟩, ?_⟩
  have hwork := hs'.work
  have hcells := cells_returned (p := p) s hle
  have hidle : s.cells p ≤ s.work p := Nat.le_add_right _ _
  omega

/-- Every move keeps the invariant, and every move but a request leaves less to
do. -/
theorem Inv.step (h : Inv p x s) {v : Move α} {s' : Link α τ}
    (hv : ∀ m, v = .send m → p.request.IsMessage m) (hstep : s.step p v = some s') :
    Inv p x s' ∧ (v.isWork = true → s'.work p < s.work p) := by
  cases v with
  | send m =>
    obtain ⟨hwindow, hs'⟩ := Option.ite_none_right_eq_some.mp hstep
    cases hs'
    exact ⟨h.send (hv m rfl) hwindow, fun hwork => Bool.noConfusion hwork⟩
  | ask =>
    obtain ⟨hwait, hlook⟩ := Option.ite_none_left_eq_some.mp hstep
    obtain ⟨t, ht, hinv, hlt⟩ := h.ask hwait
    cases hlook.symm.trans ht
    exact ⟨hinv, fun _ => hlt⟩
  | toServer n =>
    obtain ⟨hn, hserve⟩ := Option.ite_none_right_eq_some.mp hstep
    obtain ⟨t, ht, hinv, hlt⟩ := h.toServer hn
    cases hserve.symm.trans ht
    exact ⟨hinv, fun _ => hlt⟩
  | toClient n =>
    obtain ⟨⟨-, hn⟩, hlook⟩ := Option.ite_none_right_eq_some.mp hstep
    obtain ⟨t, ht, hinv, hlt⟩ := h.toClient hn
    cases hlook.symm.trans ht
    exact ⟨hinv, fun _ => hlt⟩

end Flow

/-! ## Runs -/

section Runs

variable {p : Protocol α τ} {x : τ} {s s' : Link α τ}

/-- Without new requests, only boundedly much happens. -/
theorem exec_work (h : Inv p x s) {vs : List (Move α)} (hvs : ∀ v ∈ vs, v.isWork = true)
    (hexec : exec (Link.step p) s vs = some s') : vs.length + s'.work p ≤ s.work p := by
  induction vs generalizing s with
  | nil =>
    cases hexec
    exact Nat.le_of_eq (Nat.zero_add _)
  | cons v vs ih =>
    obtain ⟨t, ht, hexec⟩ := exec_cons.mp hexec
    have hv := hvs v (List.mem_cons_self ..)
    obtain ⟨hinv, hlt⟩ := h.step (fun m hm => by rw [hm] at hv; cases hv) ht
    have hle := ih hinv (fun v' hv' => hvs v' (List.mem_cons_of_mem v hv')) hexec
    have := hlt hv
    rw [List.length_cons]
    omega

/-- The replies so far are the first ones to the requests so far. -/
theorem Inv.replies (h : Inv p x s) : s.replies <+: repliesTo p x s.sent := by
  obtain ⟨more, hsent, -⟩ := h.untaken
  obtain ⟨due, hreplies, -⟩ := h.unread
  have hread : s.replies <+: repliesTo p x s.taken := ⟨due, hreplies.symm⟩
  exact hread.trans (repliesTo_mono ⟨more, hsent.symm⟩)

/-- Nothing but a new request is possible. -/
def Idle (p : Protocol α τ) (s : Link α τ) : Prop :=
  ∀ v : Move α, v.isWork = true → s.step p v = none

/-- On an idle link nothing is on the way, and the client waits. -/
theorem Inv.of_idle (h : Inv p x s) (hidle : Idle p s) (hchunk : 0 < p.chunk) :
    s.waiting = true ∧ s.toServer = [] ∧ s.toClient = [] := by
  have hwait : s.waiting = true := by
    by_contra hwait
    obtain ⟨t, ht, -⟩ := h.ask hwait
    cases (hidle .ask rfl).symm.trans ((if_neg hwait).trans ht)
  refine ⟨hwait, ?_, ?_⟩
  · by_contra hne
    have hn : Piece p s.toServer 1 := ⟨Nat.one_pos, hchunk, List.length_pos_of_ne_nil hne⟩
    obtain ⟨t, ht, -⟩ := h.toServer hn
    cases (hidle (.toServer 1) rfl).symm.trans ((if_pos hn).trans ht)
  · by_contra hne
    have hn : Piece p s.toClient 1 := ⟨Nat.one_pos, hchunk, List.length_pos_of_ne_nil hne⟩
    obtain ⟨t, ht, -⟩ := h.toClient hn
    cases (hidle (.toClient 1) rfl).symm.trans ((if_pos ⟨hwait, hn⟩).trans ht)

/-- On an idle link the requests without a reply are those the server has in its
hands, fewer than the window; all others have been answered. -/
theorem idle_answered (h : Inv p x s) (hidle : Idle p s) (hchunk : 0 < p.chunk) :
    ∃ k ≤ p.window - 1, k ≤ s.sent.length ∧
      s.replies = repliesTo p x (s.sent.take (s.sent.length - k)) := by
  obtain ⟨hwait, hserver, hclient⟩ := h.of_idle hidle hchunk
  obtain ⟨more, hsent, hmore⟩ := h.untaken
  obtain ⟨due, hreplies, hdue⟩ := h.unread
  rw [hserver, List.append_nil] at hmore
  rw [hclient, List.append_nil] at hdue
  have hmsgs : ∀ m ∈ more, p.request.IsMessage m := fun m hm =>
    h.sent m (hsent ▸ List.mem_append_right _ hm)
  have hbacklog := h.backlog
  rw [hmore, Codec.messages_of_flatten hmsgs] at hbacklog
  -- the client has read every reply that came
  have hnil : due = [] := by
    have hnext := h.waiting hwait
    rw [hdue] at hnext
    have hmessages := Codec.messages_of_flatten (h.isMessage_due hreplies)
    rwa [Codec.messages_stop (Codec.ne_message_of_more hnext), eq_comm] at hmessages
  refine ⟨more.length, hbacklog, by rw [hsent, List.length_append]; omega, ?_⟩
  rw [hsent, List.length_append, Nat.add_sub_cancel, List.take_left, hreplies, hnil,
    List.append_nil]

end Runs

end Link

end Lib
