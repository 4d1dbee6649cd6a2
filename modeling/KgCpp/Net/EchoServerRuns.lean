import KgCpp.Net.EchoServer

/-!
# Runs of the server's parser

A connection is a run of `forwardReaded` calls on a fresh session, one chunk a
call, with both callbacks set and no allocation failing.

`conservation` holds of every run whose calls returned true, whatever the bytes
and whatever the callbacks answer: the callbacks were called for the delivered
messages one after another, the delivered messages and the unread bytes are the
received bytes, and the size in the session is the size of the message that the
unread bytes begin with.
-/

namespace KgCpp.Net.EchoServer

open Lib Bytes

universe u

variable {σ : Type u}

/-- The server with both callbacks set. -/
def serving (headerSize : Int32) (reader : σ → List Byte → Except Thrown Int32 × σ)
    (readed : σ → List Byte → Except Thrown Bool × σ) : EchoServer σ :=
  { (create headerSize : EchoServer σ) with reader := some reader, readed := some readed }

/-- One call, as a machine step: its output is the answer and the callback
calls. -/
def step (s : EchoServer σ) (b : BasicSession σ) (bytes : List Byte) :
    BasicSession σ × Except Thrown Bool × List Called :=
  ((s.forwardReaded b bytes .none).basic, (s.forwardReaded b bytes .none).answer,
    (s.forwardReaded b bytes .none).calls)

/-- All callback calls of a run. -/
def allCalls (outs : List (Except Thrown Bool × List Called)) : List Called :=
  outs.flatMap fun out => out.2

/-- The messages given to `readed`. -/
def delivered (calls : List Called) : List (List Byte) :=
  calls.filterMap fun
    | .readed msg _ => some msg
    | .reader _ _ => none

theorem allCalls_append (outs outs' : List (Except Thrown Bool × List Called)) :
    allCalls (outs ++ outs') = allCalls outs ++ allCalls outs' := List.flatMap_append

@[simp] theorem allCalls_singleton (out : Except Thrown Bool × List Called) :
    allCalls [out] = out.2 := List.append_nil _

theorem delivered_append (calls calls' : List Called) :
    delivered (calls ++ calls') = delivered calls ++ delivered calls' :=
  List.filterMap_append

/-- With both callbacks set the call is the parser on the grown buffer. -/
theorem forwardReaded_serving (headerSize : Int32)
    (reader : σ → List Byte → Except Thrown Int32 × σ)
    (readed : σ → List Byte → Except Thrown Bool × σ) (b : BasicSession σ)
    (bytes : List Byte) :
    (serving headerSize reader readed).forwardReaded b bytes .none =
      catchBadAlloc ((serving headerSize reader readed).unpack reader readed
        (b.written bytes .none) .none) := by
  rw [forwardReaded, serving]
  dsimp only
  rw [show ForwardFaults.none.write = .none from rfl, (Buffer.write_none b.wf bytes).1,
    if_neg (fun h => h rfl)]

/-- Catching does not make an answer true. -/
theorem catchBadAlloc_true {r : Forwarded σ} (h : (catchBadAlloc r).answer = .ok true) :
    catchBadAlloc r = r := by
  unfold catchBadAlloc at h ⊢
  split
  · rename_i hbad
    rw [hbad] at h
    cases h
  · rfl

@[simp] theorem calls_catchBadAlloc (r : Forwarded σ) :
    (catchBadAlloc r).calls = r.calls := by
  unfold catchBadAlloc
  split <;> rfl

@[simp] theorem basic_catchBadAlloc (r : Forwarded σ) :
    (catchBadAlloc r).basic = r.basic := by
  unfold catchBadAlloc
  split <;> rfl

/-! ## Conservation -/

variable (s : EchoServer σ)

/-- The callback calls for one delivered message. -/
def messageCalls (m : List Byte) : List Called :=
  [.reader (m.take (headerLength s.headerSize)) (.ok (.ofNat m.length)), .readed m (.ok true)]

/-- The callback call for the message the unread bytes begin with, when its size
has been read. -/
def startedCalls (b : BasicSession σ) : List Called :=
  if b.size = -1 then [] else [.reader (b.unread.take (headerLength s.headerSize)) (.ok b.size)]

/-- What the received bytes, the callback calls and the session have to do with
each other. -/
structure Conserved (received : List Byte) (calls : List Called) (b : BasicSession σ) :
    Prop where
  bytes : (delivered calls).flatten ++ b.unread = received
  calls_eq : calls = (delivered calls).flatMap s.messageCalls ++ s.startedCalls b
  lengths : ∀ m ∈ delivered calls,
    1 ≤ m.length ∧ headerLength s.headerSize ≤ m.length ∧ (Int32.ofNat m.length).toInt = m.length
  size : b.size = -1 ∨
    (max 1 (headerLength s.headerSize : Int) ≤ b.size.toInt ∧
      (b.unread.length : Int) < b.size.toInt)
  header : b.size ≠ -1 → headerLength s.headerSize ≤ b.unread.length

variable {s}

theorem startedCalls_of_none {b : BasicSession σ} (h : b.size = -1) : s.startedCalls b = [] :=
  if_pos h

theorem startedCalls_of_some {b : BasicSession σ} (h : b.size ≠ -1) :
    s.startedCalls b = [.reader (b.unread.take (headerLength s.headerSize)) (.ok b.size)] :=
  if_neg h

/-- The size of a message whose bytes are all there. -/
theorem ofNat_length_take {n : Int32} (hn : 0 ≤ n.toInt) {u : List Byte}
    (h : sizeOfInt n ≤ u.length) :
    (u.take (sizeOfInt n)).length = n.toInt.toNat ∧
      Int32.ofNat (u.take (sizeOfInt n)).length = n := by
  have hlen : (u.take (sizeOfInt n)).length = n.toInt.toNat := by
    rw [List.length_take, Nat.min_eq_left h, sizeOfInt_of_nonneg hn]
  refine ⟨hlen, ?_⟩
  rw [hlen, ← Int32.ofInt_eq_ofNat, Int.toNat_of_nonneg hn, Int32.ofInt_toInt]

section Step

variable {reader : σ → List Byte → Except Thrown Int32 × σ} {received : List Byte}
  {calls : List Called} {b : BasicSession σ}

/-- The size the parser knows is good, and its header is there and was given to
`reader` once. -/
theorem Conserved.knowsSize (h : s.Conserved received calls b) {bytes : List Byte}
    {n : Int32} {x : σ} {new : List Called}
    (hk : KnowsSize s reader (b.written bytes .none) n x new) :
    max 1 (headerLength s.headerSize : Int) ≤ n.toInt ∧
      headerLength s.headerSize ≤ (b.unread ++ bytes).length ∧ delivered new = [] ∧
      s.startedCalls b ++ new =
        [.reader ((b.unread ++ bytes).take (headerLength s.headerSize)) (.ok n)] := by
  cases hk with
  | before hsize =>
    -- the size is from an earlier call, and so is the `reader` call
    rw [BasicSession.size_written] at hsize
    have hhd := h.header hsize
    have hgood : max 1 (headerLength s.headerSize : Int) ≤ b.size.toInt := by
      rcases h.size with hnone | ⟨hgood, -⟩
      · exact absurd hnone hsize
      · exact hgood
    refine ⟨hgood, by rw [List.length_append]; omega, rfl, ?_⟩
    rw [startedCalls_of_some hsize, List.append_nil, List.take_append_of_le_length hhd]
    rfl
  | now hsize hlen hr hgood =>
    rw [BadSize] at hgood
    rw [BasicSession.size_written] at hsize
    rw [BasicSession.unread_written] at hlen
    refine ⟨by omega, hlen, rfl, ?_⟩
    rw [startedCalls_of_none hsize, List.nil_append, BasicSession.unread_written]

/-- The bytes that are delivered or unread after a chunk has been written. -/
theorem Conserved.written_bytes (h : s.Conserved received calls b) (bytes : List Byte) :
    (delivered calls).flatten ++ (b.unread ++ bytes) = received ++ bytes := by
  rw [← List.append_assoc, h.bytes]

/-- A call that waits for the header keeps the conservation. -/
theorem Conserved.waitHeader (h : s.Conserved received calls b) {bytes : List Byte}
    (hsize : (b.written bytes .none).size = -1) :
    s.Conserved (received ++ bytes) calls (b.written bytes .none) := by
  have hnone : b.size = -1 := hsize
  refine ⟨?_, ?_, h.lengths, .inl hsize, fun hne => absurd hsize hne⟩
  · rw [BasicSession.unread_written]
    exact h.written_bytes bytes
  · rw [startedCalls_of_none hsize, ← startedCalls_of_none hnone]
    exact h.calls_eq

/-- A call that waits for the body keeps it. -/
theorem Conserved.waitBody (h : s.Conserved received calls b) {bytes : List Byte} {n : Int32}
    {x : σ} {new : List Called} {b' : BasicSession σ}
    (hk : KnowsSize s reader (b.written bytes .none) n x new)
    (hlt : (b.written bytes .none).unread.length < sizeOfInt n) (hsize : b'.size = n)
    (hu : b'.unread = (b.written bytes .none).unread) :
    s.Conserved (received ++ bytes) (calls ++ new) b' := by
  obtain ⟨hgood, hhd, hnew, hstart⟩ := h.knowsSize hk
  rw [BasicSession.unread_written] at hu hlt
  have hne : b'.size ≠ -1 := by
    rw [hsize]
    rintro rfl
    have hneg : (-1 : Int32).toInt = -1 := rfl
    omega
  have hdel : delivered (calls ++ new) = delivered calls := by
    rw [delivered_append, hnew, List.append_nil]
  refine ⟨?_, ?_, ?_, .inr ⟨?_, ?_⟩, fun _ => ?_⟩
  · rw [hdel, hu]
    exact h.written_bytes bytes
  · -- the message has started, now or before
    have hb' : s.startedCalls b' =
        [.reader ((b.unread ++ bytes).take (headerLength s.headerSize)) (.ok n)] := by
      rw [startedCalls_of_some hne, hu, hsize]
    rw [hdel, hb', ← hstart, ← List.append_assoc, ← h.calls_eq]
  · rw [hdel]
    exact h.lengths
  · rw [hsize]
    exact hgood
  · rw [hsize, hu]
    rw [sizeOfInt_of_nonneg (by omega)] at hlt
    omega
  · rw [hu]
    exact hhd

/-- A call that delivers a message keeps it. -/
theorem Conserved.message (h : s.Conserved received calls b) {bytes : List Byte} {n : Int32}
    {x : σ} {new : List Called} {b' : BasicSession σ}
    (hk : KnowsSize s reader (b.written bytes .none) n x new)
    (hlen : sizeOfInt n ≤ (b.written bytes .none).unread.length) (hsize : b'.size = -1)
    (hu : b'.unread = (b.written bytes .none).unread.drop (sizeOfInt n)) :
    s.Conserved (received ++ bytes)
      (calls ++ (new ++ [.readed ((b.written bytes .none).unread.take (sizeOfInt n))
        (.ok true)])) b' := by
  obtain ⟨hgood, hhd, hnew, hstart⟩ := h.knowsSize hk
  rw [BasicSession.unread_written] at hu hlen
  obtain ⟨hlength, hofNat⟩ := ofNat_length_take (by omega) hlen
  rw [BasicSession.unread_written]
  generalize hm : (b.unread ++ bytes).take (sizeOfInt n) = m at hlength hofNat
  have hmhd : m.take (headerLength s.headerSize) =
      (b.unread ++ bytes).take (headerLength s.headerSize) := by
    rw [← hm, List.take_take, Nat.min_eq_left]
    rw [sizeOfInt_of_nonneg (by omega)]
    omega
  have hdel : delivered (calls ++ (new ++ [.readed m (.ok true)])) =
      delivered calls ++ [m] := by
    rw [delivered_append, delivered_append, hnew]
    rfl
  refine ⟨?_, ?_, ?_, .inl hsize, fun hne => absurd hsize hne⟩
  · -- the message moves from the unread bytes to the delivered ones
    have hsplit : m ++ (b.unread ++ bytes).drop (sizeOfInt n) = b.unread ++ bytes := by
      rw [← hm, List.take_append_drop]
    rw [hdel, hu, List.flatten_append, List.flatten_singleton, List.append_assoc, hsplit]
    exact h.written_bytes bytes
  · -- the started message is now a delivered one
    have hmsg : s.messageCalls m = s.startedCalls b ++ new ++ [.readed m (.ok true)] := by
      rw [hstart, messageCalls, hmhd, hofNat]
      rfl
    rw [hdel, List.flatMap_append, List.flatMap_singleton, hmsg,
      startedCalls_of_none hsize, List.append_nil]
    simp only [← List.append_assoc]
    rw [← h.calls_eq]
  · intro m' hm'
    rw [hdel, List.mem_append, List.mem_singleton] at hm'
    rcases hm' with hm' | rfl
    · exact h.lengths m' hm'
    · refine ⟨by omega, by omega, ?_⟩
      rw [hofNat, hlength]
      omega

/-- One call keeps the conservation. -/
theorem Conserved.unpack (h : s.Conserved received calls b) {bytes : List Byte}
    {readed : σ → List Byte → Except Thrown Bool × σ} {r : Forwarded σ}
    (hr : Unpacked s reader readed (b.written bytes .none) r) (htrue : r.answer = .ok true) :
    s.Conserved (received ++ bytes) (calls ++ r.calls) r.basic := by
  cases hr with
  | waitHeader hsize hlt =>
    rw [List.append_nil]
    exact h.waitHeader hsize
  | readerThrew hsize hlen hr => cases htrue
  | badHeader hsize hlen hr hbad => cases htrue
  | refused hk hlen hr hne hx hsize hu => exact absurd htrue hne
  | waitBody hk hlt hx hsize hu => exact h.waitBody hk hlt hsize hu
  | message hk hlen hr hx hsize hu => exact h.message hk hlen hsize hu

/-- A size that `reader` answers and the parser goes on with is a good one. -/
theorem KnowsSize.good {n n' : Int32} {x : σ} {header : List Byte}
    (hk : KnowsSize s reader b n x calls) (hmem : .reader header (.ok n') ∈ calls) :
    ¬ BadSize s.headerSize n' := by
  cases hk with
  | before => cases hmem
  | now hsize hlen hr hgood =>
    cases List.mem_singleton.mp hmem
    exact hgood

/-- A bad size ends the call. -/
theorem bad_of_unpacked {readed : σ → List Byte → Except Thrown Bool × σ} {r : Forwarded σ}
    (hr : Unpacked s reader readed b r) {header : List Byte} {n : Int32}
    (hmem : .reader header (.ok n) ∈ r.calls)
    (hbad : BadSize s.headerSize n) :
    r.answer = .ok false ∧ delivered r.calls = [] := by
  have hlast : ∀ {new : List Called} {msg : List Byte} {answer : Except Thrown Bool},
      .reader header (.ok n) ∈ new ++ [Called.readed msg answer] →
      .reader header (.ok n) ∈ new := fun h => by simpa using h
  cases hr with
  | waitHeader hsize hlt => cases hmem
  | readerThrew hsize hlen hr => cases List.mem_singleton.mp hmem
  | badHeader hsize hlen hr _ => exact ⟨rfl, rfl⟩
  | waitBody hk => exact absurd hbad (hk.good hmem)
  | message hk => exact absurd hbad (hk.good (hlast hmem))
  | refused hk => exact absurd hbad (hk.good (hlast hmem))

end Step

/-- **Conservation**. After every run of calls that returned true, on a fresh
session, the received bytes are the delivered messages and the unread bytes, and
`reader` was called once, on its header, for each delivered message and for the
started one. A call in which `reader` answers a bad size returns false and does
not call `readed`. -/
theorem conservation (headerSize : Int32)
    (reader : σ → List Byte → Except Thrown Int32 × σ)
    (readed : σ → List Byte → Except Thrown Bool × σ) :
    (∀ (session : σ) (fresh : Nat → Nat → Byte) (chunks : List (List Byte)),
      (∀ out ∈ (run (serving headerSize reader readed).step
        (.create session fresh) chunks).2, out.1 = .ok true) →
      (serving headerSize reader readed).Conserved chunks.flatten
        (allCalls (run (serving headerSize reader readed).step
          (.create session fresh) chunks).2)
        (run (serving headerSize reader readed).step (.create session fresh) chunks).1) ∧
    (∀ (b : BasicSession σ) (bytes : List Byte) (header : List Byte) (n : Int32),
      .reader header (.ok n) ∈
        ((serving headerSize reader readed).forwardReaded b bytes .none).calls →
      BadSize (serving headerSize reader readed).headerSize n →
      ((serving headerSize reader readed).forwardReaded b bytes .none).answer = .ok false ∧
        delivered ((serving headerSize reader readed).forwardReaded b bytes .none).calls
          = []) := by
  constructor
  · intro session fresh chunks htrue
    refine run_history (serving headerSize reader readed).step
      (fun out => out.1 = .ok true)
      (fun chunks outs b => (serving headerSize reader readed).Conserved chunks.flatten
        (allCalls outs) b) ?_ ?_ chunks htrue
    · intro chunks outs b bytes h hok
      obtain ⟨r, hr, hcases⟩ : ∃ r, (serving headerSize reader readed).forwardReaded b bytes
          .none = r ∧ (r.answer = .ok true →
            Unpacked (serving headerSize reader readed) reader readed
              (b.written bytes .none) r) := by
        refine ⟨_, rfl, fun htrue => ?_⟩
        rw [forwardReaded_serving] at htrue ⊢
        rw [catchBadAlloc_true htrue]
        exact unpack_cases
      rw [step, hr] at hok ⊢
      rw [List.flatten_append, List.flatten_singleton, allCalls_append, allCalls_singleton]
      exact h.unpack (hcases hok) hok
    · exact ⟨rfl, rfl, (fun m hm => by cases hm), .inl rfl, fun hne => absurd rfl hne⟩
  · intro b bytes header n hmem hbad
    rw [forwardReaded_serving] at hmem ⊢
    rw [calls_catchBadAlloc] at hmem ⊢
    obtain ⟨hfalse, hnone⟩ := bad_of_unpacked unpack_cases hmem hbad
    refine ⟨?_, hnone⟩
    rw [catchBadAlloc, hfalse]
    exact hfalse

/-- A server whose one-byte header is the length, counting its reader calls. -/
def lengthByteServer : EchoServer Nat :=
  serving 1 (fun calls header => (.ok (Int32.ofNat (header.getD 0 0).toNat), calls + 1))
    fun calls _ => (.ok true, calls)

/-- A message over two chunks, the second of which starts the next message; and
a header that tells a length of 0. -/
theorem conservation_two_chunks :
    lengthByteServer.Conserved [3, 1, 2, 2]
        (allCalls (run lengthByteServer.step (.create 0 fun _ _ => 0) [[3], [1, 2, 2]]).2)
        (run lengthByteServer.step (.create 0 fun _ _ => 0) [[3], [1, 2, 2]]).1 ∧
      (lengthByteServer.forwardReaded (.create 0 fun _ _ => 0) [0, 5] .none).answer =
        .ok false ∧
      delivered (lengthByteServer.forwardReaded (.create 0 fun _ _ => 0) [0, 5] .none).calls =
        [] :=
  ⟨(conservation 1 _ _).1 0 (fun _ _ => 0) [[3], [1, 2, 2]] (by decide),
    (conservation 1 _ _).2 (.create 0 fun _ _ => 0) [0, 5] [0] 0 (by decide) (by decide)⟩

end KgCpp.Net.EchoServer
