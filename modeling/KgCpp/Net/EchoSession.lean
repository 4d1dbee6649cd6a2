import KgCpp.Lib.Trail
import KgCpp.Net.EchoServer

/-!
# The session of a connection (`net/echo_server.hpp`)

A connection of the server from `forward_connected` to `forward_closed`, with
the session value every user callback gets and leaves. The calls inside
`forward_readed` are read off `forwardReaded` itself, run on sessions that
record the calls they go through; `forwardReaded_recorded` says that recording
changes nothing else and misses no call.

`session_iff` says when the callbacks hand one session on: always, but when
`connected` refuses the connection, since `forward_connected` then drops the
session it gave to `connected` and `closed` gets the one `basic_session_t` was
made with.
-/

namespace KgCpp.Net

open Lib Bytes

universe u

variable {σ : Type u}

/-- The user callbacks that are set. -/
structure Callbacks (σ : Type u) : Type u where
  connected : Option (σ → Bool × σ)
  reader : Option (σ → List Byte → Int32 × σ)
  readed : Option (σ → List Byte → Bool × σ)
  closed : Option (σ → σ)

/-- A call of a user callback. -/
inductive Callback where
  | connected
  | called (call : Called)
  | closed
deriving DecidableEq, Repr

/-- A callback that returns, as one that may throw. -/
def returning {α : Type} (f : σ → List Byte → α × σ) (x : σ) (bytes : List Byte) :
    Except Thrown α × σ :=
  (.ok (f x bytes).1, (f x bytes).2)

/-- The server with these callbacks. -/
def Callbacks.server (cb : Callbacks σ) (headerSize : Int32) : EchoServer σ :=
  { (EchoServer.create headerSize : EchoServer σ) with
    reader := cb.reader.map returning
    readed := cb.readed.map returning }

/-! ## Recording the calls of `forward_readed` -/

section Recorded

variable {x : σ}

/-- A callback that records itself. -/
def recorded {α : Type} (call : List Byte → Except Thrown α → Called)
    (f : σ → List Byte → Except Thrown α × σ) (t : Trail Callback x) (bytes : List Byte) :
    Except Thrown α × Trail Callback x :=
  ((f t.value bytes).1, t.visit (.called (call bytes (f t.value bytes).1)) (f t.value bytes).2)

/-- The server, recording. -/
def EchoServer.recorded (s : EchoServer σ) (x : σ) : EchoServer (Trail Callback x) where
  headerSize := s.headerSize
  headerSize_nonneg := s.headerSize_nonneg
  reader := s.reader.map (Net.recorded .reader)
  readed := s.readed.map (Net.recorded .readed)

/-- The session before anything is recorded. -/
def BasicSession.recording (b : BasicSession σ) : BasicSession (Trail Callback b.session) :=
  ⟨.start b.session, b.buffer, b.size, b.wf⟩

/-- The session without its record. -/
def BasicSession.plain (b : BasicSession (Trail Callback x)) : BasicSession σ :=
  ⟨b.session.value, b.buffer, b.size, b.wf⟩

/-- Run with recording, a call does what it does without, and its record grows
by the calls it makes. -/
structure Records (before : List Callback) (r : Forwarded (Trail Callback x))
    (plain : Forwarded σ) : Prop where
  answer : r.answer = plain.answer
  basic : r.basic.plain = plain.basic
  calls : r.calls = plain.calls
  visits : r.basic.session.visits.map Visit.call = before ++ plain.calls.map .called

variable (reader : σ → List Byte → Except Thrown Int32 × σ)
  (readed : σ → List Byte → Except Thrown Bool × σ)

/-- The calls a session has been through. -/
def BasicSession.history (b : BasicSession (Trail Callback x)) : List Callback :=
  b.session.visits.map Visit.call

/-- One more call. -/
theorem history_visit (b : BasicSession (Trail Callback x)) (call : Called) (y : σ) :
    (b.session.visit (.called call) y).visits.map Visit.call =
      b.history ++ [call].map .called := List.map_append ..

theorem records_nothing (answer : Except Thrown Bool) (b : BasicSession (Trail Callback x)) :
    Records b.history ⟨answer, b, []⟩ ⟨answer, b.plain, []⟩ :=
  ⟨rfl, rfl, rfl, (List.append_nil _).symm⟩

theorem takeMessage_recorded (b : BasicSession (Trail Callback x)) (faults : ForwardFaults) :
    Records b.history (EchoServer.takeMessage (recorded .readed readed) b faults)
      (EchoServer.takeMessage readed b.plain faults) := by
  unfold EchoServer.takeMessage
  split
  · rename_i h
    rw [if_pos (show b.plain.buffer.size < sizeOfInt b.plain.size from h)]
    exact records_nothing _ b
  · rename_i h
    rw [if_neg (show ¬ b.plain.buffer.size < sizeOfInt b.plain.size from h)]
    split
    · exact records_nothing _ b
    · dsimp only [recorded, BasicSession.plain]
      rcases readed b.session.value (b.buffer.read (sizeOfInt b.size)).2.1 with ⟨answer, y⟩
      rcases answer with e | ok
      · exact ⟨rfl, rfl, rfl, history_visit b _ _⟩
      · cases ok
        · exact ⟨rfl, rfl, rfl, history_visit b _ _⟩
        · exact ⟨rfl, rfl, rfl, history_visit b _ _⟩

theorem readHeader_recorded (s : EchoServer σ) (b : BasicSession (Trail Callback x))
    (header : List Byte) (faults : ForwardFaults) :
    Records b.history
      ((s.recorded x).readHeader (recorded .reader reader) (recorded .readed readed) b header
        faults)
      (s.readHeader reader readed b.plain header faults) := by
  unfold EchoServer.readHeader
  dsimp only [recorded, BasicSession.plain]
  rcases reader b.session.value header with ⟨answer, y⟩
  rcases answer with e | n
  · exact ⟨rfl, rfl, rfl, history_visit b _ _⟩
  · dsimp only
    split
    · rename_i h
      rw [if_pos (show n < s.headerSize ∨ n < 1 from h)]
      exact ⟨rfl, rfl, rfl, history_visit b _ _⟩
    · rename_i h
      rw [if_neg (show ¬ (n < s.headerSize ∨ n < 1) from h)]
      -- the call of `reader` comes before what the rest records
      obtain ⟨hanswer, hbasic, hcalls, hvisits⟩ := takeMessage_recorded readed
        ⟨b.session.visit (.called (.reader header (.ok n))) y, b.buffer, n, b.wf⟩ faults
      refine ⟨hanswer, hbasic, congrArg _ hcalls, hvisits.trans ?_⟩
      rw [List.map_cons, List.append_cons]
      exact congrArg (· ++ _) (history_visit b _ _)

theorem unpack_recorded (s : EchoServer σ) (b : BasicSession (Trail Callback x))
    (faults : ForwardFaults) :
    Records b.history
      ((s.recorded x).unpack (recorded .reader reader) (recorded .readed readed) b faults)
      (s.unpack reader readed b.plain faults) := by
  unfold EchoServer.unpack
  split
  · rename_i hsize
    rw [if_pos (show b.plain.size = -1 from hsize)]
    split
    · rename_i hzero
      rw [if_pos (show s.headerSize = 0 from hzero)]
      exact readHeader_recorded reader readed s b [] faults
    · rename_i hzero
      rw [if_neg (show ¬ s.headerSize = 0 from hzero)]
      split
      · rename_i hwait
        rw [if_pos (show b.plain.buffer.size < sizeOfInt s.headerSize from hwait)]
        exact records_nothing _ b
      · rename_i hwait
        rw [if_neg (show ¬ b.plain.buffer.size < sizeOfInt s.headerSize from hwait)]
        split
        · exact records_nothing _ b
        · exact readHeader_recorded reader readed s b _ faults
  · rename_i hsize
    rw [if_neg (show ¬ b.plain.size = -1 from hsize)]
    exact takeMessage_recorded readed b faults

theorem catchBadAlloc_recorded {before : List Callback} {r : Forwarded (Trail Callback x)}
    {plain : Forwarded σ} (h : Records before r plain) :
    Records before (EchoServer.catchBadAlloc r) (EchoServer.catchBadAlloc plain) := by
  unfold EchoServer.catchBadAlloc
  rw [h.answer]
  split
  · exact ⟨rfl, h.basic, h.calls, h.visits⟩
  · exact h

/-- Recording changes nothing that `forward_readed` does, and misses none of the
callbacks it calls. -/
theorem forwardReaded_recorded (s : EchoServer σ) (b : BasicSession (Trail Callback x))
    (bytes : List Byte) (faults : ForwardFaults) :
    Records b.history ((s.recorded x).forwardReaded b bytes faults)
      (s.forwardReaded b.plain bytes faults) := by
  unfold EchoServer.forwardReaded EchoServer.recorded
  cases hreaded : s.readed with
  | none => exact records_nothing _ b
  | some readed =>
    cases hreader : s.reader with
    | none => exact ⟨rfl, rfl, rfl, history_visit b _ _⟩
    | some reader =>
      refine catchBadAlloc_recorded ?_
      split
      · rename_i h
        rw [if_pos (show bytes.length ≠ (b.plain.buffer.write bytes faults.write).1 from h)]
        exact records_nothing _ (b.written bytes faults.write)
      · rename_i h
        rw [if_neg (show ¬ bytes.length ≠ (b.plain.buffer.write bytes faults.write).1 from h)]
        have hwritten := unpack_recorded reader readed s (b.written bytes faults.write) faults
        rw [EchoServer.recorded, hreaded, hreader] at hwritten
        exact hwritten

end Recorded

namespace EchoServer

/-- The calls inside one `forward_readed`, with the sessions they got and
left. -/
def visits (s : EchoServer σ) (b : BasicSession σ) (bytes : List Byte) :
    List (Visit Callback σ) :=
  ((s.recorded b.session).forwardReaded b.recording bytes .none).basic.session.visits

/-- They are the calls it makes. -/
theorem call_visits (s : EchoServer σ) (b : BasicSession σ) (bytes : List Byte) :
    (s.visits b bytes).map Visit.call =
      (s.forwardReaded b bytes .none).calls.map .called :=
  (forwardReaded_recorded s b.recording bytes .none).visits

/-- They hand the session of the connection on. -/
theorem chain_visits (s : EchoServer σ) (b : BasicSession σ) (bytes : List Byte) :
    Chain b.session (s.visits b bytes) (s.forwardReaded b bytes .none).basic.session := by
  have hbasic := (forwardReaded_recorded s b.recording bytes .none).basic
  have hleft : ((s.recorded b.session).forwardReaded b.recording bytes
      .none).basic.session.value = (s.forwardReaded b bytes .none).basic.session :=
    congrArg BasicSession.session hbasic
  rw [← hleft]
  exact Trail.chain _

/-- The loop of `coroutine_read` over the chunks it reads, until one of them is
refused or a read fails. -/
def serve (s : EchoServer σ) :
    BasicSession σ → List (List Byte) → List (Visit Callback σ) × BasicSession σ
  | b, [] => ([], b)
  | b, bytes :: chunks =>
    match (s.forwardReaded b bytes .none).answer with
    | .ok true =>
      (s.visits b bytes ++ (serve s (s.forwardReaded b bytes .none).basic chunks).1,
        (serve s (s.forwardReaded b bytes .none).basic chunks).2)
    | _ => (s.visits b bytes, (s.forwardReaded b bytes .none).basic)

theorem chain_serve (s : EchoServer σ) (b : BasicSession σ) (chunks : List (List Byte)) :
    Chain b.session (s.serve b chunks).1 (s.serve b chunks).2.session := by
  induction chunks generalizing b with
  | nil => exact rfl
  | cons bytes chunks ih =>
    have hcall := s.chain_visits b bytes
    rw [serve]
    split
    · exact chain_append.mpr ⟨_, hcall, ih _⟩
    · exact hcall

end EchoServer

namespace Callbacks

variable (cb : Callbacks σ)

/-- `forward_connected`: its answer, the session of the connection, and the call
it makes. `zero` is `session_t()`, and `blank` what the constructor of
`basic_session_t` leaves in its `session`. -/
def forwardConnected (zero blank : σ) (fresh : Nat → Nat → Byte) :
    Bool × BasicSession σ × List (Visit Callback σ) :=
  let basic := BasicSession.create blank fresh
  match cb.connected with
  | none => (true, { basic with session := zero }, [])
  | some connected =>
    if (connected zero).1 then
      (true, { basic with session := (connected zero).2 },
        [⟨.connected, zero, (connected zero).2⟩])
    -- what `connected` left was in a local variable
    else (false, basic, [⟨.connected, zero, (connected zero).2⟩])

/-- `forward_closed`, as the call it makes. -/
def forwardClosed (b : BasicSession σ) : List (Visit Callback σ) :=
  match cb.closed with
  | none => []
  | some closed => [⟨.closed, b.session, closed b.session⟩]

/-- The calls of a connection that receives these chunks: `coroutine_read`, with
the callbacks of the server forwarded. -/
def connection (headerSize : Int32) (zero blank : σ) (fresh : Nat → Nat → Byte)
    (chunks : List (List Byte)) : List (Visit Callback σ) :=
  let opened := cb.forwardConnected zero blank fresh
  let served :=
    if opened.1 then (cb.server headerSize).serve opened.2.1 chunks else ([], opened.2.1)
  opened.2.2 ++ (served.1 ++ cb.forwardClosed served.2)

/-- `connected` refuses the connection, and leaves a session other than the one
`closed` gets. -/
def DropsSession (zero blank : σ) : Prop :=
  ∃ connected, cb.connected = some connected ∧ (connected zero).1 = false ∧
    (connected zero).2 ≠ blank ∧ cb.closed.isSome = true

variable {cb}

/-- `closed` gets the session there is. -/
theorem chain_forwardClosed {x : σ} {b : BasicSession σ} :
    (∃ y, Chain x (cb.forwardClosed b) y) ↔ cb.closed.isSome = true → b.session = x := by
  unfold forwardClosed
  cases cb.closed with
  | none => exact iff_of_true ⟨x, rfl⟩ fun h => by cases h
  | some closed => exact ⟨fun ⟨_, h, _⟩ _ => h, fun h => ⟨_, h rfl, rfl⟩⟩

/-- `forward_connected` accepts, with the session handed on, or refuses, with
a new one. -/
theorem forwardConnected_cases (cb : Callbacks σ) (zero blank : σ) (fresh : Nat → Nat → Byte) :
    ((cb.forwardConnected zero blank fresh).1 = true ∧
        Chain zero (cb.forwardConnected zero blank fresh).2.2
          (cb.forwardConnected zero blank fresh).2.1.session ∧ ¬ cb.DropsSession zero blank) ∨
      ∃ connected, cb.connected = some connected ∧ (connected zero).1 = false ∧
        cb.forwardConnected zero blank fresh =
          (false, .create blank fresh, [⟨.connected, zero, (connected zero).2⟩]) := by
  unfold forwardConnected
  cases hset : cb.connected with
  | none =>
    refine .inl ⟨rfl, rfl, ?_⟩
    rintro ⟨connected, hconnected, -⟩
    rw [hset] at hconnected
    cases hconnected
  | some connected =>
    dsimp only
    cases hok : (connected zero).1 with
    | true =>
      rw [if_pos rfl]
      refine .inl ⟨rfl, chain_singleton.mpr ⟨rfl, rfl⟩, ?_⟩
      rintro ⟨connected', hconnected, hno, -⟩
      rw [hset] at hconnected
      cases hconnected
      rw [hok] at hno
      cases hno
    | false => exact .inr ⟨connected, rfl, hok, rfl⟩

end Callbacks

open Callbacks

/-- **When the session is one**: whatever the callbacks do with the session and
answer, and whatever the connection receives, every callback of a connection
gets the session that the callback before it left, the first one `session_t()`,
if and only if it is not so that `connected` refuses the connection leaving a
session that differs from a new one, and `closed` is set. -/
theorem session_iff (cb : Callbacks σ) (headerSize : Int32) (zero blank : σ)
    (fresh : Nat → Nat → Byte) (chunks : List (List Byte)) :
    (∃ y, Chain zero (cb.connection headerSize zero blank fresh chunks) y) ↔
      ¬ cb.DropsSession zero blank := by
  rw [connection]
  rcases forwardConnected_cases cb zero blank fresh with ⟨hok, hchain, hkeeps⟩ | hrefused
  · rw [hok]
    generalize (cb.forwardConnected zero blank fresh).2.1 = b at hchain ⊢
    obtain ⟨y, hy⟩ : ∃ y, Chain ((cb.server headerSize).serve b chunks).2.session
        (cb.forwardClosed ((cb.server headerSize).serve b chunks).2) y :=
      chain_forwardClosed.mpr fun _ => rfl
    have hserved := (cb.server headerSize).chain_serve b chunks
    exact iff_of_true
      ⟨y, chain_append.mpr ⟨_, hchain, chain_append.mpr ⟨_, hserved, hy⟩⟩⟩ hkeeps
  · obtain ⟨connected, hset, hno, heq⟩ := hrefused
    have hclosed : (∃ y, Chain (connected zero).2
        (cb.forwardClosed (BasicSession.create blank fresh)) y) ↔
        (cb.closed.isSome = true → blank = (connected zero).2) := chain_forwardClosed
    rw [heq]
    show (∃ y, zero = zero ∧ Chain (connected zero).2
      (cb.forwardClosed (BasicSession.create blank fresh)) y) ↔ _
    simp only [true_and]
    rw [hclosed]
    constructor
    · rintro h ⟨connected', hconnected, -, hne, hsome⟩
      rw [hset] at hconnected
      cases hconnected
      exact hne (h hsome).symm
    · intro h hsome
      by_contra hne
      exact h ⟨connected, hset, hno, Ne.symm hne, hsome⟩

/-- `connected` refuses with a 1 in the session, and `closed` gets a 0. -/
theorem session_dropped :
    ¬ ∃ y, Chain 0 ((Callbacks.mk (some fun _ => (false, 1)) none none (some id)).connection
      4 0 0 (fun _ _ => 0) []) y := by
  rintro ⟨y, -, h, -⟩
  cases h

end KgCpp.Net
