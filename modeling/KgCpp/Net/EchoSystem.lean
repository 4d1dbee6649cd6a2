import KgCpp.Lib.Exchange
import KgCpp.Net.EchoAgreement

/-!
# A client and a server (`net/echo_client.hpp`, `net/echo_server.hpp`)

An `echo_client_t` connected to an `echo_server_t`: the client writes requests to
its socket and calls `read`; the server's connection coroutine calls
`forward_readed` with what each `async_read_some` brings, and the user's `readed`
writes an answer to the socket. The network cuts both streams as it likes, and a
`read` that finds no message in its buffer waits in `read_some` while everything
else goes on.

`bisimulation` relates the two parsers, their buffers and their pending sizes to a
`Lib.Link`, where there is nothing but the two streams of messages. From it,
`conversation` says what any interleaving keeps, and `completes` that a client
which limits its unanswered requests gets its answers.
-/

namespace KgCpp.Net

open Lib Bytes

universe u

/-- `KG_NET_BASIC_SERVER_BUFFER_SIZE`. -/
def serverBufferSize : Nat := 1024

namespace EchoServer

variable {σ : Type u} {headerSize : Int32} {reader : List Byte → Int32} {f : σ → List Byte → σ}

/-- A pure reader leaves the session alone. -/
theorem KnowsSize.session_eq {b : BasicSession σ} {n : Int32} {x : σ} {calls : List Called}
    (hk : KnowsSize (pureServing headerSize reader f)
      (fun x header => (.ok (reader header), x)) b n x calls) : x = b.session := by
  cases hk with
  | before => rfl
  | now hsize hlen hr hgood =>
    cases hr
    rfl

/-- A call that meets no bad header answers true, and does to the session what
`readed` does with what was delivered. -/
theorem Unpacked.session_of_pure {b : BasicSession σ} (hb : InStream headerSize reader b)
    (hbad : (echoCodec (clampHeaderSize headerSize) reader).next b.unread ≠ .bad)
    {r : Forwarded σ}
    (hr : Unpacked (pureServing headerSize reader f)
      (fun x header => (.ok (reader header), x)) (fun x msg => (.ok true, f x msg)) b r) :
    r.answer = .ok true ∧ r.basic.session = (delivered r.calls).foldl f b.session := by
  cases hr with
  | waitHeader hsize hlt => exact ⟨rfl, rfl⟩
  | readerThrew hsize hlen hr => cases hr
  | badHeader hsize hlen hr hgood =>
    cases hr
    exact absurd (next_of_bad hlen hgood) hbad
  | waitBody hk hlt hx hsize hu =>
    rw [(hk.of_pure hb).2.2.2]
    exact ⟨rfl, hx.trans hk.session_eq⟩
  | message hk hlen hr hx hsize hu =>
    cases hr
    rw [delivered_append, (hk.of_pure hb).2.2.2]
    exact ⟨rfl, hk.session_eq ▸ hx⟩
  | refused hk hlen hr hne =>
    cases hr
    exact absurd rfl hne

theorem answer_catchBadAlloc {r : Forwarded σ} (h : r.answer = .ok true) :
    (catchBadAlloc r).answer = .ok true := by
  unfold catchBadAlloc
  split
  · rename_i hthrew
    cases h.symm.trans hthrew
  · exact h

/-- Everything a call comes to, on a session in the middle of a stream without a
bad header: the call answers true, and takes the first message when there is
one. -/
theorem step_pure_cases {b : BasicSession σ} (hb : InStream headerSize reader b)
    (chunk : List Byte)
    (hbad : (echoCodec (clampHeaderSize headerSize) reader).next (b.unread ++ chunk) ≠ .bad)
    {r : BasicSession σ × Except Thrown Bool × List Called}
    (hr : (pureServing headerSize reader f).step b chunk = r) :
    r.2.1 = .ok true ∧ InStream headerSize reader r.1 ∧
      (((echoCodec (clampHeaderSize headerSize) reader).next (b.unread ++ chunk) = .more ∧
          delivered r.2.2 = [] ∧ r.1.unread = b.unread ++ chunk ∧ r.1.session = b.session) ∨
        ∃ m, (echoCodec (clampHeaderSize headerSize) reader).next (b.unread ++ chunk) =
            .message m r.1.unread ∧
          delivered r.2.2 = [m] ∧ r.1.session = f b.session m) := by
  subst hr
  have hb' : InStream headerSize reader (b.written chunk .none) := by
    rw [InStream, BasicSession.unread_written]
    exact SizeOf.append hb chunk
  rw [← BasicSession.unread_written] at hbad ⊢
  have hunpack : Unpacked (pureServing headerSize reader f)
    (fun x header => (.ok (reader header), x)) (fun x msg => (.ok true, f x msg))
    (b.written chunk .none) _ := unpack_cases
  obtain ⟨htrue, hsession⟩ := hunpack.session_of_pure hb' hbad
  rw [step, pureServing, forwardReaded_serving]
  dsimp only
  rw [calls_catchBadAlloc, basic_catchBadAlloc]
  refine ⟨answer_catchBadAlloc htrue, ?_⟩
  rcases pure_cases hb' hunpack with ⟨hnext, hnone, hu, hin⟩ | ⟨hnext, -⟩ | ⟨m, hnext, hdel, hin⟩
  · rw [hnone] at hsession
    exact ⟨hin, .inl ⟨hnext, hnone, hu, hsession⟩⟩
  · exact absurd hnext hbad
  · rw [hdel] at hsession
    exact ⟨hin, .inr ⟨m, hnext, hdel, hsession⟩⟩

end EchoServer

namespace EchoClient

variable {headerSize : Int32} {reader : List Byte → Int32}

/-- Everything a call of `read` comes to before it asks the socket, and where it
is left when it does. -/
theorem read_nil {c : EchoClient} {s : List Byte} (h : Holds headerSize reader c s)
    {x : Pulled (EchoClient × List Arrival) Byte Failure} (hx : c.read .none [] = x) :
    ((echoCodec headerSize reader).next s = .more ∧ x.answer = .blocked ∧
        Holds headerSize reader x.state.1 s) ∨
      (echoCodec headerSize reader).next s = .bad ∨
      ∃ m rest, (echoCodec headerSize reader).next s = .message m rest ∧
        x.answer = .returned m ∧ Holds headerSize reader x.state.1 rest := by
  subst hx
  rw [read, readerMessage]
  rcases h.unpacked rfl with ⟨hok, hnext, hh⟩ | ⟨herr, hnext, -⟩ | ⟨m, rest, hok, hne, hnext, hh⟩
  · rw [returnOr_empty hok]
    exact .inl ⟨hnext, rfl, hh⟩
  · exact .inr (.inl hnext)
  · rw [returnOr_message hok hne]
    exact .inr (.inr ⟨m, rest, hnext, rfl, hh⟩)

/-- A `read` that waits goes on with the piece that comes as a new call would with
the piece in its buffer. -/
theorem readLoop_nil {c : EchoClient} {s : List Byte} (h : Holds headerSize reader c s)
    (p : Piece) :
    (c.readLoop [.piece p .none]).answer =
        (((c.filled p).written p.bytes .none).read .none []).answer ∧
      (c.readLoop [.piece p .none]).state =
        (((c.filled p).written p.bytes .none).read .none []).state := by
  rw [readLoop_piece h.reader_eq]
  exact ⟨rfl, rfl⟩

end EchoClient

/-! ## The two of them -/

/-- An application: the header sizes and readers of both sides, and what `readed`
does with a request. It changes the user's session and writes an answer, which is
a message for the client. -/
structure EchoApp (τ : Type u) : Type u where
  serverHeaderSize : Int32
  serverReader : List Byte → Int32
  clientHeaderSize : Int32
  clientReader : List Byte → Int32
  answer : τ → List Byte → τ × List Byte
  isMessage_answer : ∀ {x : τ} {m : List Byte},
    (echoCodec (clampHeaderSize serverHeaderSize) serverReader).IsMessage m →
    (echoCodec (clampHeaderSize clientHeaderSize) clientReader).IsMessage (answer x m).2
  next_nil : (echoCodec (clampHeaderSize clientHeaderSize) clientReader).next [] ≠ .bad

/-- What `readed` has at hand: the user's session, and the socket, whose bytes have
not come to the client. -/
structure Wired (τ : Type u) : Type u where
  user : τ
  out : List Byte

/-- A connection. `sent` are the requests the client has written, `results` what
its calls of `read` came back with; `waiting` is set while one is in `read_some`.
`toServer` is on the way to the server, whose session is `basic`; `taken` are the
messages given to `readed`, and `closed` is set when `forward_readed` did not
return true. -/
structure EchoLink (τ : Type u) : Type u where
  client : EchoClient
  waiting : Bool
  results : List (Answer Byte Failure)
  sent : List (List Byte)
  toServer : List Byte
  basic : BasicSession (Wired τ)
  taken : List (List Byte)
  closed : Bool

namespace EchoApp

variable {τ : Type u} (app : EchoApp τ)

/-- What `readed` does. -/
def readed (w : Wired τ) (msg : List Byte) : Wired τ :=
  ⟨(app.answer w.user msg).1, w.out ++ (app.answer w.user msg).2⟩

/-- The server. -/
def server : EchoServer (Wired τ) :=
  EchoServer.pureServing app.serverHeaderSize app.serverReader app.readed

/-- The two formats as a protocol. -/
def protocol (window : Nat) : Protocol Byte τ where
  request := echoCodec (clampHeaderSize app.serverHeaderSize) app.serverReader
  reply := echoCodec (clampHeaderSize app.clientHeaderSize) app.clientReader
  answer := app.answer
  isMessage_answer := app.isMessage_answer
  next_nil := app.next_nil
  window := window
  chunk := serverBufferSize

end EchoApp

namespace EchoLink

variable {τ : Type u}

/-- A client and a session that were just made. -/
def connected (app : EchoApp τ) (x : τ) (data : { data : List Byte // data.length = dataSize })
    (fresh fresh' : Nat → Nat → Byte) : EchoLink τ where
  client := .create app.clientHeaderSize (some app.clientReader) data fresh
  waiting := false
  results := []
  sent := []
  toServer := []
  basic := .create ⟨x, []⟩ fresh'
  taken := []
  closed := false

/-- After a part of `read`: it waits in `read_some`, or came back. -/
def cameBack (s : EchoLink τ) (r : Pulled (EchoClient × List Arrival) Byte Failure) :
    EchoLink τ :=
  match r.answer with
  | .blocked => { s with client := r.state.1, waiting := true }
  | answer =>
    { s with client := r.state.1, waiting := false, results := s.results ++ [answer] }

/-- After the call of `forward_readed` with `n` bytes. -/
def forwarded (s : EchoLink τ) (n : Nat)
    (r : BasicSession (Wired τ) × Except Thrown Bool × List Called) : EchoLink τ :=
  { s with
    toServer := s.toServer.drop n
    basic := r.1
    taken := s.taken ++ EchoServer.delivered r.2.2
    closed := r.2.1 ≠ .ok true }

/-- After `n` bytes have left the server's socket. -/
def arrived (s : EchoLink τ) (n : Nat) : EchoLink τ :=
  { s with
    basic := { s.basic with
      session := ⟨s.basic.session.user, s.basic.session.out.drop n⟩ } }

theorem length_piece {out : List Byte} {n : Nat} (h : n ≤ out.length) :
    (out.take n).length = n := by
  rw [List.length_take, Nat.min_eq_left h]

theorem piece_pos {out : List Byte} {n : Nat} (h : 0 < n ∧ n ≤ dataSize ∧ n ≤ out.length) :
    0 < (out.take n).length := by
  rw [length_piece h.2.2]
  exact h.1

theorem piece_fits {out : List Byte} {n : Nat} (h : 0 < n ∧ n ≤ dataSize ∧ n ≤ out.length) :
    (out.take n).length ≤ dataSize := by
  rw [length_piece h.2.2]
  exact h.2.1

/-- One move on the connection. The client may have `window` requests without a
result. -/
def step (app : EchoApp τ) (window : Nat) (s : EchoLink τ) : Move Byte → Option (EchoLink τ)
  | .send m =>
    if s.sent.length < s.results.length + window then
      some { s with sent := s.sent ++ [m], toServer := s.toServer ++ m }
    else none
  | .ask => if s.waiting then none else some (s.cameBack (s.client.read .none []))
  | .toServer n =>
    if s.closed = false ∧ 0 < n ∧ n ≤ serverBufferSize ∧ n ≤ s.toServer.length then
      some (s.forwarded n (app.server.step s.basic (s.toServer.take n)))
    else none
  | .toClient n =>
    if h : s.waiting = true ∧ 0 < n ∧ n ≤ dataSize ∧ n ≤ s.basic.session.out.length then
      some ((s.arrived n).cameBack (s.client.readLoop
        [.piece ⟨s.basic.session.out.take n, piece_pos h.2, piece_fits h.2⟩ .none]))
    else none

/-! ## The link it stands for -/

/-- A connection and the link it stands for. -/
structure Matches (app : EchoApp τ) (s : EchoLink τ) (t : Link Byte τ) : Prop where
  client : EchoClient.Holds (clampHeaderSize app.clientHeaderSize) app.clientReader s.client
    t.clientHolds
  waiting : s.waiting = t.waiting
  results : s.results = t.replies.map .returned
  sent : s.sent = t.sent
  toServer : s.toServer = t.toServer
  stream : EchoServer.InStream app.serverHeaderSize app.serverReader s.basic
  serverHolds : s.basic.unread = t.serverHolds
  taken : s.taken = t.taken
  user : s.basic.session.user = t.session
  out : s.basic.session.out = t.toClient
  opened : s.closed = false

/-- The connection stands for a link on which the invariant holds. -/
def Simulates (app : EchoApp τ) (window : Nat) (x : τ) (s : EchoLink τ) (t : Link Byte τ) :
    Prop :=
  Matches app s t ∧ Link.Inv (app.protocol window) x t

variable {app : EchoApp τ} {window : Nat} {x : τ} {s : EchoLink τ} {t : Link Byte τ}

theorem matches_connected (app : EchoApp τ) (x : τ)
    (data : { data : List Byte // data.length = dataSize }) (fresh fresh' : Nat → Nat → Byte) :
    Matches app (connected app x data fresh fresh') (.start x) where
  client := EchoClient.holds_create app.clientHeaderSize app.clientReader data fresh
  waiting := rfl
  results := rfl
  sent := rfl
  toServer := rfl
  stream := .inl rfl
  serverHolds := rfl
  taken := rfl
  user := rfl
  out := rfl
  opened := rfl

/-- Bytes leave the server's socket and are in the client's buffer. -/
theorem Matches.arrived (h : Matches app s t) (n : Nat) {c : EchoClient}
    (hc : EchoClient.Holds (clampHeaderSize app.clientHeaderSize) app.clientReader c
      (t.clientHolds ++ s.basic.session.out.take n)) :
    Matches app { s.arrived n with client := c } (t.returned n) where
  client := by
    rw [h.out] at hc
    exact hc
  waiting := h.waiting
  results := h.results
  sent := h.sent
  toServer := h.toServer
  stream := h.stream
  serverHolds := h.serverHolds
  taken := h.taken
  user := h.user
  out := congrArg (List.drop n) h.out
  opened := h.opened

/-- The client's part of a `read` is a look at what it holds. -/
theorem Matches.look (h : Matches app s t)
    {r : Pulled (EchoClient × List Arrival) Byte Failure}
    (hanswer : r.answer = (s.client.read .none []).answer)
    (hstate : r.state = (s.client.read .none []).state) {t' : Link Byte τ}
    (ht : t.look (app.protocol window) = some t') :
    Matches app (s.cameBack r) t' := by
  unfold Link.look at ht
  rcases EchoClient.read_nil h.client rfl with
    ⟨hnext, hans, hh⟩ | hnext | ⟨m, rest, hnext, hans, hh⟩
  · rw [show (app.protocol window).reply.next t.clientHolds = .more from hnext] at ht
    cases ht
    rw [cameBack, hanswer, hans, hstate]
    exact ⟨hh, rfl, h.results, h.sent, h.toServer, h.stream, h.serverHolds, h.taken, h.user,
      h.out, h.opened⟩
  · rw [show (app.protocol window).reply.next t.clientHolds = .bad from hnext] at ht
    cases ht
  · rw [show (app.protocol window).reply.next t.clientHolds = .message m rest from hnext] at ht
    cases ht
    rw [cameBack, hanswer, hans, hstate]
    refine ⟨hh, rfl, ?_, h.sent, h.toServer, h.stream, h.serverHolds, h.taken, h.user,
      h.out, h.opened⟩
    show s.results ++ [.returned m] = (t.replies ++ [m]).map Answer.returned
    rw [List.map_append, h.results]
    rfl

/-- A call of `forward_readed` is the server's look at what it holds. -/
theorem Matches.serve (h : Matches app s t) {n : Nat} {t' : Link Byte τ}
    (ht : (t.brought n).serve (app.protocol window) = some t') :
    Matches app (s.forwarded n (app.server.step s.basic (s.toServer.take n))) t' := by
  have hholds : s.basic.unread ++ s.toServer.take n = (t.brought n).serverHolds := by
    rw [h.serverHolds, h.toServer]
    rfl
  have hbad : (app.protocol window).request.next (s.basic.unread ++ s.toServer.take n) ≠
      .bad := fun hnext => by
    rw [Link.serve, ← hholds, hnext] at ht
    cases ht
  obtain ⟨htrue, hin, hcases⟩ := EchoServer.step_pure_cases (f := app.readed) h.stream
    (s.toServer.take n) hbad rfl
  have hclosed : (s.forwarded n (app.server.step s.basic (s.toServer.take n))).closed = false :=
    decide_eq_false fun hne => hne htrue
  have hleft : s.toServer.drop n = t.toServer.drop n := by rw [h.toServer]
  unfold Link.serve at ht
  rcases hcases with ⟨hnext, hdel, hunread, hsession⟩ | ⟨m, hnext, hdel, hsession⟩
  · -- the request is not all there
    rw [hholds] at hnext
    rw [show (app.protocol window).request.next (t.brought n).serverHolds = .more from hnext]
      at ht
    cases ht
    refine ⟨h.client, h.waiting, h.results, h.sent, hleft, hin, hunread.trans hholds, ?_, ?_, ?_,
      hclosed⟩
    · exact (congrArg (s.taken ++ ·) hdel).trans ((List.append_nil _).trans h.taken)
    · exact (congrArg Wired.user hsession).trans h.user
    · exact (congrArg Wired.out hsession).trans h.out
  · -- `readed` takes it, and writes its answer
    rw [hholds] at hnext
    rw [show (app.protocol window).request.next (t.brought n).serverHolds =
      .message m _ from hnext] at ht
    cases ht
    refine ⟨h.client, h.waiting, h.results, h.sent, hleft, hin, rfl, ?_, ?_, ?_, hclosed⟩
    · exact (congrArg (s.taken ++ ·) hdel).trans (congrArg (· ++ [m]) h.taken)
    · refine (congrArg Wired.user hsession).trans ?_
      show (app.answer s.basic.session.user m).1 = (app.answer t.session m).1
      rw [h.user]
    · refine (congrArg Wired.out hsession).trans ?_
      show s.basic.session.out ++ (app.answer s.basic.session.user m).2 =
        t.toClient ++ (app.answer t.session m).2
      rw [h.out, h.user]

/-- **The echo classes and the network are the link**: the same moves are possible,
and lead to connections and links that belong together. -/
theorem bisimulation (app : EchoApp τ) (window : Nat) (x : τ) :
    Bisimulation (step app window) (Link.step (app.protocol window))
      (fun v => ∀ m, v = .send m → (app.protocol window).request.IsMessage m)
      (Simulates app window x) := by
  rintro s t v ⟨h, hinv⟩ hv
  cases v with
  | send m =>
    have hguard : s.sent.length < s.results.length + window ↔
        t.sent.length < t.replies.length + (app.protocol window).window := by
      rw [h.sent, h.results, List.length_map]
      rfl
    rw [step, Link.step]
    by_cases hwindow : t.sent.length < t.replies.length + (app.protocol window).window
    · rw [if_pos (hguard.mpr hwindow), if_pos hwindow]
      refine .some ⟨⟨h.client, h.waiting, h.results, ?_, ?_, h.stream, h.serverHolds, h.taken,
        h.user, h.out, h.opened⟩, hinv.send (hv m rfl) hwindow⟩
      · exact congrArg (· ++ [m]) h.sent
      · exact congrArg (· ++ m) h.toServer
    · rw [if_neg (mt hguard.mp hwindow), if_neg hwindow]
      exact .none
  | ask =>
    rw [step, Link.step, h.waiting]
    split
    · exact .none
    · rename_i hwait
      obtain ⟨t', ht', hinv', -⟩ := hinv.ask hwait
      rw [ht']
      exact .some ⟨h.look rfl rfl ht', hinv'⟩
  | toServer n =>
    rw [step, Link.step]
    by_cases hn : Link.Piece (app.protocol window) t.toServer n
    · have hn' : s.closed = false ∧ 0 < n ∧ n ≤ serverBufferSize ∧ n ≤ s.toServer.length :=
        ⟨h.opened, hn.1, hn.2.1, h.toServer ▸ hn.2.2⟩
      obtain ⟨t', ht', hinv', -⟩ := hinv.toServer hn
      rw [if_pos hn, if_pos hn', ht']
      exact .some ⟨h.serve ht', hinv'⟩
    · rw [if_neg hn, if_neg fun hn' => hn ⟨hn'.2.1, hn'.2.2.1, h.toServer ▸ hn'.2.2.2⟩]
      exact .none
  | toClient n =>
    rw [step, Link.step]
    by_cases hn : t.waiting = true ∧ Link.Piece (app.protocol window) t.toClient n
    · have hn' : s.waiting = true ∧ 0 < n ∧ n ≤ dataSize ∧ n ≤ s.basic.session.out.length :=
        ⟨h.waiting ▸ hn.1, hn.2.1, hn.2.2.1, h.out ▸ hn.2.2.2⟩
      obtain ⟨t', ht', hinv', -⟩ := hinv.toClient hn.2
      rw [if_pos hn, dif_pos hn', ht']
      -- `read` goes on as if it were called with the piece in the buffer
      obtain ⟨hanswer, hstate⟩ := EchoClient.readLoop_nil h.client
        ⟨s.basic.session.out.take n, piece_pos hn'.2, piece_fits hn'.2⟩
      have hreceived := h.client.received
        ⟨s.basic.session.out.take n, piece_pos hn'.2, piece_fits hn'.2⟩
      exact .some ⟨(h.arrived n hreceived).look (by rw [hanswer]) (by rw [hstate]) ht', hinv'⟩
    · rw [if_neg hn, dif_neg fun hn' => hn ⟨h.waiting ▸ hn'.1, hn'.2.1, hn'.2.2.1,
        h.out ▸ hn'.2.2.2⟩]
      exact .none

/-- The link that a run leads to. -/
theorem exists_link {vs : List (Move Byte)}
    (hvs : ∀ m, .send m ∈ vs → (app.protocol window).request.IsMessage m)
    (hst : Simulates app window x s t) {s' : EchoLink τ}
    (hexec : exec (step app window) s vs = some s') :
    ∃ t', exec (Link.step (app.protocol window)) t vs = some t' ∧
      Simulates app window x s' t' := by
  have hrel := (bisimulation app window x).exec_rel hst vs fun v hv m hm => hvs m (hm ▸ hv)
  rw [hexec] at hrel
  generalize ht : exec (Link.step (app.protocol window)) t vs = r at hrel
  cases hrel with
  | some hsim => exact ⟨_, rfl, hsim⟩

/-! ## What a conversation is -/

/-- What holds of a connection whose session began as `x`: the requests taken are
the first ones sent, the session is what they made of it, the results are the
answers to the first requests, the bytes on both ways are accounted for, and the
server has not closed it. -/
structure Conversation (app : EchoApp τ) (x : τ) (s : EchoLink τ) : Prop where
  taken : s.taken <+: s.sent
  user : s.basic.session.user = (run app.answer x s.taken).1
  results : s.results = (returnedOf s.results).map .returned
  answers : returnedOf s.results <+: (run app.answer x s.sent).2
  requestBytes : s.taken.flatten ++ s.basic.unread ++ s.toServer = s.sent.flatten
  answerBytes : (returnedOf s.results).flatten ++ s.client.unread ++ s.basic.session.out =
    (run app.answer x s.taken).2.flatten
  opened : s.closed = false

theorem Simulates.converses (h : Simulates app window x s t) : Conversation app x s := by
  obtain ⟨h, hinv⟩ := h
  obtain ⟨more, hsent, hmore⟩ := hinv.untaken
  obtain ⟨due, hreplies, hdue⟩ := hinv.unread
  have hreturned : returnedOf s.results = t.replies := by rw [h.results, returnedOf_map]
  refine ⟨?_, ?_, ?_, ?_, ?_, ?_, h.opened⟩
  · rw [h.taken, h.sent]
    exact ⟨more, hsent.symm⟩
  · rw [h.user, h.taken]
    exact hinv.session
  · rw [hreturned, h.results]
  · rw [hreturned, h.sent]
    exact hinv.replies
  · rw [h.taken, h.serverHolds, h.toServer, h.sent, List.append_assoc, hmore, hsent,
      List.flatten_append]
  · rw [hreturned, h.taken, h.client.unread, h.out, List.append_assoc, hdue, ← List.flatten_append,
      ← hreplies]
    rfl

/-- **A conversation over any network**: whatever the two sides do in whatever
order, and however the network cuts the streams and delays them, the server takes
the requests in order, each once, and the client reads their answers in order. -/
theorem conversation (app : EchoApp τ) (window : Nat) (x : τ)
    (data : { data : List Byte // data.length = dataSize }) (fresh fresh' : Nat → Nat → Byte)
    (vs : List (Move Byte)) (s : EchoLink τ)
    (hvs : ∀ m, .send m ∈ vs → (app.protocol window).request.IsMessage m)
    (hexec : exec (step app window) (connected app x data fresh fresh') vs = some s) :
    Conversation app x s := by
  obtain ⟨t, -, hsim⟩ := exists_link hvs
    ⟨matches_connected app x data fresh fresh', Link.inv_start (app.protocol window) x⟩ hexec
  exact hsim.converses

/-- Nothing is possible but a new request. -/
def Idle (app : EchoApp τ) (window : Nat) (s : EchoLink τ) : Prop :=
  ∀ v : Move Byte, v.isWork = true → step app window s v = none

/-- All requests but the last few, fewer than `window`, have been answered and
their answers read. -/
def Answered (app : EchoApp τ) (window : Nat) (x : τ) (s : EchoLink τ) : Prop :=
  ∃ k ≤ window - 1, k ≤ s.sent.length ∧
    s.results = ((run app.answer x (s.sent.take (s.sent.length - k))).2).map .returned

theorem Simulates.idle (h : Simulates app window x s t) (hidle : Idle app window s) :
    Link.Idle (app.protocol window) t := by
  intro v hv
  have hrel := bisimulation app window x s t v h fun m hm => by
    rw [hm] at hv
    cases hv
  rw [hidle v hv] at hrel
  cases ht : Link.step (app.protocol window) t v with
  | none => rfl
  | some t' =>
    rw [ht] at hrel
    cases hrel

/-- **A conversation ends**: without new requests only boundedly much happens, and
when nothing more can happen, all requests but fewer than `window` of them have
been answered: all of them for a client that waits for each answer. -/
theorem completes (app : EchoApp τ) (window : Nat) (x : τ)
    (data : { data : List Byte // data.length = dataSize }) (fresh fresh' : Nat → Nat → Byte)
    (vs : List (Move Byte)) (s : EchoLink τ)
    (hvs : ∀ m, .send m ∈ vs → (app.protocol window).request.IsMessage m)
    (hexec : exec (step app window) (connected app x data fresh fresh') vs = some s) :
    ∃ bound, ∀ rest s', (∀ v ∈ rest, v.isWork = true) →
      exec (step app window) s rest = some s' →
      rest.length ≤ bound ∧ (Idle app window s' → Answered app window x s') := by
  obtain ⟨t, -, hsim⟩ := exists_link hvs
    ⟨matches_connected app x data fresh fresh', Link.inv_start (app.protocol window) x⟩ hexec
  refine ⟨t.work (app.protocol window), fun rest s' hrest hexec' => ?_⟩
  have hwork : ∀ m, .send m ∈ rest → (app.protocol window).request.IsMessage m :=
    fun m hm => by cases hrest _ hm
  obtain ⟨t', ht', hsim'⟩ := exists_link hwork hsim hexec'
  have hbound := Link.exec_work hsim.2 hrest ht'
  refine ⟨by omega, fun hidle => ?_⟩
  obtain ⟨k, hk, hle, hreplies⟩ := Link.idle_answered hsim'.2 (hsim'.idle hidle)
    (show 0 < serverBufferSize by decide)
  rw [Answered, hsim'.1.sent, hsim'.1.results, hreplies]
  exact ⟨k, hk, hle, rfl⟩

end EchoLink

/-- The application that sends every request back, with messages whose first byte
is their length. -/
def echoApp : EchoApp Unit where
  serverHeaderSize := 1
  serverReader := EchoServer.lengthByte
  clientHeaderSize := 1
  clientReader := EchoServer.lengthByte
  answer := fun x m => (x, m)
  isMessage_answer := fun h => h
  next_nil := by decide

theorem length_blank : (List.replicate dataSize (0 : Byte)).length = dataSize :=
  List.length_replicate

/-- Before the first move. -/
def echoStart : EchoLink Unit :=
  .connected echoApp () ⟨List.replicate dataSize 0, length_blank⟩ (fun _ _ => 0)
    fun _ _ => 0

/-- A client that waits for its answer, which comes in two pieces. -/
def askedOnce : List (Move Byte) := [.send [2, 7], .toServer 1, .ask, .toServer 1, .toClient 1]

theorem isMessage_askedOnce {window : Nat} :
    ∀ m, .send m ∈ askedOnce → (echoApp.protocol window).request.IsMessage m := by
  intro m hm
  rcases List.mem_cons.mp hm with h | hm
  · cases h
    show (echoCodec (clampHeaderSize 1) EchoServer.lengthByte).IsMessage [2, 7]
    decide
  · simp at hm

theorem exists_askedOnce : ∃ s, exec (EchoLink.step echoApp 1) echoStart askedOnce = some s :=
  Option.isSome_iff_exists.mp (by decide +kernel)

theorem conversation_askedOnce :
    ∃ s, exec (EchoLink.step echoApp 1) echoStart askedOnce = some s ∧
      EchoLink.Conversation echoApp () s := by
  obtain ⟨s, hs⟩ := exists_askedOnce
  exact ⟨s, hs, EchoLink.conversation echoApp 1 () _ _ _ askedOnce s isMessage_askedOnce hs⟩

theorem completes_askedOnce :
    ∃ s, exec (EchoLink.step echoApp 1) echoStart askedOnce = some s ∧
      ∃ bound, ∀ rest s', (∀ v ∈ rest, v.isWork = true) →
        exec (EchoLink.step echoApp 1) s rest = some s' →
        rest.length ≤ bound ∧
          (EchoLink.Idle echoApp 1 s' → EchoLink.Answered echoApp 1 () s') := by
  obtain ⟨s, hs⟩ := exists_askedOnce
  exact ⟨s, hs, EchoLink.completes echoApp 1 () _ _ _ askedOnce s isMessage_askedOnce hs⟩

end KgCpp.Net
