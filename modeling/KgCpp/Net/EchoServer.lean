import KgCpp.Lib.Run
import KgCpp.Bytes.BufferContent
import KgCpp.Net.EchoCodec

/-!
# `echo_server_t` (`net/echo_server.hpp`)

The server collects the chunks of a connection in the buffer of its session and
cuts messages out of it, with the user's `reader` telling the length of a
message from its header and the user's `readed` taking the message.

- `forwardReaded` is one call, with any callbacks (stateful in the session,
  returning or throwing) and any allocation failures, and it lists the callbacks
  it called with what they answered.
- `unpack_cases` says once what the parser can do when allocations succeed, in
  terms of the unread bytes; everything after it is case analysis.
-/

namespace KgCpp.Net

open Lib Bytes

universe u

/-- What a user callback can leave with. -/
inductive Thrown where
  | badAlloc
  | other
deriving DecidableEq, Repr

/-- `basic_session_t`, with the invariant of its buffer. -/
structure BasicSession (σ : Type u) : Type u where
  session : σ
  buffer : Buffer
  size : Int32
  wf : buffer.WF

/-- `echo_server_t`, as far as it parses messages: `_headerSize` and the
callbacks `_reader` and `_readed`, when they are set. -/
structure EchoServer (σ : Type u) : Type u where
  headerSize : Int32
  headerSize_nonneg : 0 ≤ headerSize.toInt
  reader : Option (σ → List Byte → Except Thrown Int32 × σ)
  readed : Option (σ → List Byte → Except Thrown Bool × σ)

/-- A callback call: its argument and its answer. -/
inductive Called where
  | reader (header : List Byte) (answer : Except Thrown Int32)
  | readed (msg : List Byte) (answer : Except Thrown Bool)
deriving DecidableEq, Repr

/-- What a call of `forward_readed` does: its answer, the session afterwards,
and the callbacks it called. -/
structure Forwarded (σ : Type u) : Type u where
  answer : Except Thrown Bool
  basic : BasicSession σ
  calls : List Called

/-- Which allocations of `forward_readed` throw. -/
structure ForwardFaults where
  write : WriteFaults
  header : Bool
  msg : Bool
deriving DecidableEq, Repr

/-- Every allocation succeeds. -/
def ForwardFaults.none : ForwardFaults := ⟨.none, false, false⟩

namespace BasicSession

variable {σ : Type u}

/-- `forward_connected`'s new session. -/
def create (session : σ) (fresh : Nat → Nat → Byte) : BasicSession σ :=
  ⟨session, .create Buffer.defaultCapacity fresh, -1,
    Buffer.wf_create Buffer.defaultCapacity fresh⟩

/-- The bytes received and not yet handed out. -/
def unread (b : BasicSession σ) : List Byte := b.buffer.content

/-- After `buffer.write`. -/
def written (b : BasicSession σ) (bytes : List Byte) (faults : WriteFaults) :
    BasicSession σ :=
  ⟨b.session, (b.buffer.write bytes faults).2, b.size, Buffer.wf_write b.wf bytes faults⟩

/-- After `buffer.read`. -/
def drained (b : BasicSession σ) (n : Nat) : BasicSession σ :=
  ⟨b.session, (b.buffer.read n).2.2, b.size, (Buffer.read_spec b.wf n).2.2.1⟩

@[simp] theorem unread_written (b : BasicSession σ) (bytes : List Byte) :
    (b.written bytes .none).unread = b.unread ++ bytes := (Buffer.write_none b.wf bytes).2

@[simp] theorem size_written (b : BasicSession σ) (bytes : List Byte) (faults : WriteFaults) :
    (b.written bytes faults).size = b.size := rfl

@[simp] theorem unread_drained (b : BasicSession σ) (n : Nat) :
    (b.drained n).unread = b.unread.drop n := (Buffer.read_spec b.wf n).2.2.2

theorem buffer_size (b : BasicSession σ) : b.buffer.size = b.unread.length :=
  Buffer.size_eq b.buffer

end BasicSession

namespace EchoServer

variable {σ : Type u}

/-- The constructor, with the callbacks still to be set. -/
def create (headerSize : Int32) : EchoServer σ :=
  ⟨clampHeaderSize headerSize, clampHeaderSize_nonneg headerSize, none, none⟩

/-- The part of `forward_readed` from the size of the message on. -/
def takeMessage (readed : σ → List Byte → Except Thrown Bool × σ) (b : BasicSession σ)
    (faults : ForwardFaults) : Forwarded σ :=
  if b.buffer.size < sizeOfInt b.size then
    -- wait for the body
    ⟨.ok true, b, []⟩
  else if faults.msg then ⟨.error .badAlloc, b, []⟩
  else
    -- the array is as long as what is read into it: the buffer holds that much
    let msg := (b.buffer.read (sizeOfInt b.size)).2.1
    match readed b.session msg with
    | (.ok true, session) =>
      ⟨.ok true, { b.drained (sizeOfInt b.size) with session := session, size := -1 },
        [.readed msg (.ok true)]⟩
    | (answer, session) =>
      ⟨answer, { b.drained (sizeOfInt b.size) with session := session },
        [.readed msg answer]⟩

/-- The part of `forward_readed` that has the header at hand. -/
def readHeader (s : EchoServer σ) (reader : σ → List Byte → Except Thrown Int32 × σ)
    (readed : σ → List Byte → Except Thrown Bool × σ) (b : BasicSession σ)
    (header : List Byte) (faults : ForwardFaults) : Forwarded σ :=
  match reader b.session header with
  | (.error e, session) =>
    ⟨.error e, { b with session := session }, [.reader header (.error e)]⟩
  | (.ok size, session) =>
    if size < s.headerSize ∨ size < 1 then
      ⟨.ok false, { b with session := session, size := size }, [.reader header (.ok size)]⟩
    else
      let r := takeMessage readed { b with session := session, size := size } faults
      ⟨r.answer, r.basic, .reader header (.ok size) :: r.calls⟩

/-- The part of `forward_readed` after the bytes are in the buffer. -/
def unpack (s : EchoServer σ) (reader : σ → List Byte → Except Thrown Int32 × σ)
    (readed : σ → List Byte → Except Thrown Bool × σ) (b : BasicSession σ)
    (faults : ForwardFaults) : Forwarded σ :=
  if b.size = -1 then
    if s.headerSize = 0 then s.readHeader reader readed b [] faults
    else if b.buffer.size < sizeOfInt s.headerSize then
      -- wait for the header
      ⟨.ok true, b, []⟩
    else if faults.header then ⟨.error .badAlloc, b, []⟩
    else s.readHeader reader readed b (b.buffer.copyTo (sizeOfInt s.headerSize)).2 faults
  else takeMessage readed b faults

/-- `catch(const std::bad_alloc&) { return false; }` -/
def catchBadAlloc (r : Forwarded σ) : Forwarded σ :=
  match r.answer with
  | .error .badAlloc => ⟨.ok false, r.basic, r.calls⟩
  | _ => r

/-- `forward_readed`. -/
def forwardReaded (s : EchoServer σ) (b : BasicSession σ) (bytes : List Byte)
    (faults : ForwardFaults) : Forwarded σ :=
  match s.readed with
  | none => ⟨.ok true, b, []⟩
  | some readed =>
    match s.reader with
    | none =>
      ⟨(readed b.session bytes).1, { b with session := (readed b.session bytes).2 },
        [.readed bytes (readed b.session bytes).1]⟩
    | some reader =>
      catchBadAlloc
        (if bytes.length ≠ (b.buffer.write bytes faults.write).1 then
          ⟨.ok false, b.written bytes faults.write, []⟩
        else s.unpack reader readed (b.written bytes faults.write) faults)

/-! ## What the parser can do -/

section Cases

variable (s : EchoServer σ) (reader : σ → List Byte → Except Thrown Int32 × σ)
  (readed : σ → List Byte → Except Thrown Bool × σ) (b : BasicSession σ)

/-- The parser knows a good size `n`: it knew it before, or it gets it from
`reader` now, which then leaves the session `x`. -/
inductive KnowsSize : Int32 → σ → List Called → Prop
  | before : b.size ≠ -1 → KnowsSize b.size b.session []
  | now {n : Int32} {x : σ} : b.size = -1 → headerLength s.headerSize ≤ b.unread.length →
      reader b.session (b.unread.take (headerLength s.headerSize)) = (.ok n, x) →
      ¬ BadSize s.headerSize n →
      KnowsSize n x [.reader (b.unread.take (headerLength s.headerSize)) (.ok n)]

/-- What the parser can do in the session `b` when allocations succeed. -/
inductive Unpacked : Forwarded σ → Prop
  | waitHeader : b.size = -1 → b.unread.length < headerLength s.headerSize →
      Unpacked ⟨.ok true, b, []⟩
  | readerThrew {e : Thrown} {x : σ} : b.size = -1 →
      headerLength s.headerSize ≤ b.unread.length →
      reader b.session (b.unread.take (headerLength s.headerSize)) = (.error e, x) →
      Unpacked ⟨.error e, { b with session := x },
        [.reader (b.unread.take (headerLength s.headerSize)) (.error e)]⟩
  | badHeader {n : Int32} {x : σ} : b.size = -1 →
      headerLength s.headerSize ≤ b.unread.length →
      reader b.session (b.unread.take (headerLength s.headerSize)) = (.ok n, x) →
      BadSize s.headerSize n →
      Unpacked ⟨.ok false, { b with session := x, size := n },
        [.reader (b.unread.take (headerLength s.headerSize)) (.ok n)]⟩
  | waitBody {n : Int32} {x : σ} {calls : List Called} {b' : BasicSession σ} :
      KnowsSize s reader b n x calls → b.unread.length < sizeOfInt n →
      b'.session = x → b'.size = n → b'.unread = b.unread → Unpacked ⟨.ok true, b', calls⟩
  | message {n : Int32} {x x' : σ} {calls : List Called} {b' : BasicSession σ} :
      KnowsSize s reader b n x calls → sizeOfInt n ≤ b.unread.length →
      readed x (b.unread.take (sizeOfInt n)) = (.ok true, x') →
      b'.session = x' → b'.size = -1 → b'.unread = b.unread.drop (sizeOfInt n) →
      Unpacked ⟨.ok true, b',
        calls ++ [.readed (b.unread.take (sizeOfInt n)) (.ok true)]⟩
  | refused {n : Int32} {x x' : σ} {calls : List Called} {answer : Except Thrown Bool}
      {b' : BasicSession σ} :
      KnowsSize s reader b n x calls → sizeOfInt n ≤ b.unread.length →
      readed x (b.unread.take (sizeOfInt n)) = (answer, x') → answer ≠ .ok true →
      b'.session = x' → b'.size = n → b'.unread = b.unread.drop (sizeOfInt n) →
      Unpacked ⟨answer, b', calls ++ [.readed (b.unread.take (sizeOfInt n)) answer]⟩

variable {s reader readed b}

theorem takeMessage_cases (b₁ : BasicSession σ) (calls : List Called)
    (hk : KnowsSize s reader b b₁.size b₁.session calls) (hu : b₁.unread = b.unread) :
    Unpacked s reader readed b
      ⟨(takeMessage readed b₁ .none).answer, (takeMessage readed b₁ .none).basic,
        calls ++ (takeMessage readed b₁ .none).calls⟩ := by
  rw [takeMessage, BasicSession.buffer_size]
  split
  · rename_i hlt
    rw [List.append_nil]
    exact .waitBody hk (by rw [← hu]; exact hlt) rfl rfl hu
  · rename_i hlen
    rw [if_neg (by decide), (Buffer.read_spec b₁.wf (sizeOfInt b₁.size)).2.1,
      show b₁.buffer.content = b.unread from hu]
    dsimp only
    have hlen' : sizeOfInt b₁.size ≤ b.unread.length := by
      rw [← hu]
      omega
    have hrest : (b₁.drained (sizeOfInt b₁.size)).unread =
        b.unread.drop (sizeOfInt b₁.size) := by
      rw [← hu]
      exact b₁.unread_drained (sizeOfInt b₁.size)
    cases hr : readed b₁.session (b.unread.take (sizeOfInt b₁.size)) with
    | mk answer x =>
      by_cases hok : answer = .ok true
      · subst hok
        exact .message hk hlen' hr rfl rfl hrest
      · have hrefused : Unpacked s reader readed b
            ⟨answer, { b₁.drained (sizeOfInt b₁.size) with session := x },
              calls ++ [.readed (b.unread.take (sizeOfInt b₁.size)) answer]⟩ :=
          .refused hk hlen' hr hok rfl rfl hrest
        cases answer with
        | error e => exact hrefused
        | ok v =>
          cases v with
          | false => exact hrefused
          | true => exact absurd rfl hok

theorem readHeader_cases (hsize : b.size = -1)
    (hlen : headerLength s.headerSize ≤ b.unread.length) :
    Unpacked s reader readed b
      (s.readHeader reader readed b (b.unread.take (headerLength s.headerSize)) .none) := by
  rw [readHeader]
  cases hr : reader b.session (b.unread.take (headerLength s.headerSize)) with
  | mk answer x =>
    cases answer with
    | error e => exact .readerThrew hsize hlen hr
    | ok n =>
      dsimp only
      split
      · rename_i hbad
        rw [badSize_iff s.headerSize_nonneg] at hbad
        exact .badHeader hsize hlen hr hbad
      · rename_i hgood
        rw [badSize_iff s.headerSize_nonneg] at hgood
        have hk : KnowsSize s reader b n x
            [.reader (b.unread.take (headerLength s.headerSize)) (.ok n)] :=
          .now hsize hlen hr hgood
        exact takeMessage_cases { b with session := x, size := n } _ hk rfl

/-- Everything the parser can do, in terms of the unread bytes. -/
theorem unpack_cases : Unpacked s reader readed b (s.unpack reader readed b .none) := by
  rw [unpack]
  split
  · rename_i hsize
    split
    · rename_i hzero
      have hlen : headerLength s.headerSize = 0 := by
        show headerLength s.headerSize = 0
        rw [hzero]
        rfl
      have h : Unpacked s reader readed b (s.readHeader reader readed b
          (b.unread.take (headerLength s.headerSize)) .none) :=
        readHeader_cases hsize (by omega)
      rwa [hlen, List.take_zero] at h
    · rw [BasicSession.buffer_size, sizeOfInt_headerSize s.headerSize_nonneg]
      split
      · rename_i hlt
        exact .waitHeader hsize hlt
      · rename_i hlen
        rw [if_neg (by decide), Buffer.copyTo_eq]
        exact readHeader_cases hsize (Nat.le_of_not_lt hlen)
  · rename_i hsize
    exact takeMessage_cases b [] (.before hsize) rfl

end Cases

end EchoServer

end KgCpp.Net
