import KgCpp.Lib.Pull
import KgCpp.Bytes.BufferContent
import KgCpp.Net.EchoCodec

/-!
# `echo_client_t` (`net/echo_client.hpp`)

The client reads the socket in pieces and cuts messages out of them. Two entry
points share its buffer and its pending size: `read`, which asks the socket, and
`readerMessage`, to which the caller hands bytes (or none).

- The model has every way out of them: messages, the empty result, the error
  codes, `boost::bad_function_call` without a reader, `std::bad_alloc`, and the
  undefined behaviour of reading past the end of `_data`.
- `unpack_cases` says once what the parser does when allocations succeed and a
  reader is set: it takes off what the message format has at the front of the
  unread bytes (`Codec.next`).
- `read_reference`: a client used through `read` is the lazy reader of the
  format, over every way the socket cuts the stream.
-/

namespace KgCpp.Net

open Lib Bytes

/-- How a call of the client fails. -/
inductive Failure where
  /-- `boost::system::system_error` of the category `echo_client_category` -/
  | code (ev : Int32)
  /-- `boost::system::system_error` of the socket -/
  | socket (ev : Int32)
  | badFunctionCall
  | badAlloc
  /-- the bytes past the end of `_data` are read -/
  | outOfBounds
deriving DecidableEq, Repr

/-- `KG_NET_ECHO_CLIENT_CODE_BAD_ALLOC`. -/
def codeBadAlloc : Int32 := 1

/-- `KG_NET_ECHO_CLIENT_CODE_BAD_MSG_HEADER`. -/
def codeBadMsgHeader : Int32 := 200

/-- The number of elements of `_data`. -/
def dataSize : Nat := 1024

/-- `echo_client_t`, with the invariants of its members. `fresh` tells what the
slices made without a reader hold, `slices` counts them. -/
structure EchoClient where
  headerSize : Int32
  headerSize_nonneg : 0 ≤ headerSize.toInt
  buffer : Buffer
  wf : buffer.WF
  size : Int32
  data : List Byte
  length_data : data.length = dataSize
  reader : Option (List Byte → Int32)
  fresh : Nat → Nat → Byte
  slices : Nat

/-- What `read_some` fills into `_data`. -/
structure Piece where
  bytes : List Byte
  pos : 0 < bytes.length
  fits : bytes.length ≤ dataSize

/-- Which allocations of one turn throw: those of the write to the buffer, the
header array, one of those of the returned slice. -/
structure TurnFaults where
  write : WriteFaults
  header : Bool
  slice : Bool
deriving DecidableEq, Repr

/-- Every allocation succeeds. -/
def TurnFaults.none : TurnFaults := ⟨.none, false, false⟩

/-- What one call of `read_some` comes back with. -/
inductive Arrival where
  | piece (p : Piece) (faults : TurnFaults)
  | error (ev : Int32)

namespace EchoClient

/-- The constructor, and `reader(func)`. -/
def create (headerSize : Int32) (reader : Option (List Byte → Int32))
    (data : { data : List Byte // data.length = dataSize }) (fresh : Nat → Nat → Byte) :
    EchoClient where
  headerSize := clampHeaderSize headerSize
  headerSize_nonneg := clampHeaderSize_nonneg headerSize
  buffer := .create Buffer.defaultCapacity fresh
  wf := Buffer.wf_create Buffer.defaultCapacity fresh
  size := -1
  data := data.1
  length_data := data.2
  reader := reader
  fresh := fresh
  slices := 0

variable (c : EchoClient)

/-- The bytes buffered and not yet handed out. -/
def unread : List Byte := c.buffer.content

/-- After an assignment to `_size`. -/
def withSize (n : Int32) : EchoClient := { c with size := n }

/-- After `_buffer.write`. -/
def written (bytes : List Byte) (faults : WriteFaults) : EchoClient :=
  { c with
    buffer := (c.buffer.write bytes faults).2
    wf := Buffer.wf_write c.wf bytes faults }

/-- After `_buffer.read`, with the size reset. -/
def drained (n : Nat) : EchoClient :=
  { c with
    buffer := (c.buffer.read n).2.2
    wf := (Buffer.read_spec c.wf n).2.2.1
    size := -1 }

/-- After `read_some` into `_data`. -/
def filled (p : Piece) : EchoClient :=
  { c with
    data := blit c.data 0 p.bytes
    length_data := by
      rw [length_blit (by rw [c.length_data, Nat.zero_add]; exact p.fits)]
      exact c.length_data }

/-- The part of `reader_message` from the size of the message on. -/
def takeMessage (faults : TurnFaults) : Except Failure (List Byte) × EchoClient :=
  if c.buffer.size < sizeOfInt c.size then
    -- wait for the body
    (.ok [], c)
  else if faults.slice then (.ok [], c)
  else (.ok (c.buffer.read (sizeOfInt c.size)).2.1, c.drained (sizeOfInt c.size))

/-- The part of `reader_message` that has the header at hand. -/
def readHeader (header : List Byte) (faults : TurnFaults) :
    Except Failure (List Byte) × EchoClient :=
  match c.reader with
  | none => (.error .badFunctionCall, c)
  | some reader =>
    if reader header < c.headerSize ∨ reader header < 1 then
      (.error (.code codeBadMsgHeader), c.withSize (reader header))
    else (c.withSize (reader header)).takeMessage faults

/-- The part of `reader_message` after the caller's bytes are in the buffer. A
`std::bad_alloc` is caught and the empty slice returned. -/
def unpack (faults : TurnFaults) : Except Failure (List Byte) × EchoClient :=
  if c.size = -1 then
    if c.headerSize = 0 then c.readHeader [] faults
    else if c.buffer.size < sizeOfInt c.headerSize then
      -- wait for the header
      (.ok [], c)
    else if faults.header then (.ok [], c)
    else c.readHeader (c.buffer.copyTo (sizeOfInt c.headerSize)).2 faults
  else c.takeMessage faults

/-- `reader_message`: `b` is what the caller's pointer points to, or no pointer.
The bytes written to the buffer are those of `_data`. -/
def readerMessage (b : Option (List Byte)) (faults : TurnFaults) :
    Except Failure (List Byte) × EchoClient :=
  match b with
  | none => c.unpack faults
  | some b =>
    -- the source writes from `_data` here, not from `b`
    if dataSize < b.length then (.error .outOfBounds, c)
    else if b.length ≠ (c.buffer.write (c.data.take b.length) faults.write).1 then
      (.error (.code codeBadAlloc), c.written (c.data.take b.length) faults.write)
    else (c.written (c.data.take b.length) faults.write).unpack faults

/-- The result of `reader_message` in `read`: a message that is not empty is
returned, an exception leaves, anything else goes on. -/
def returnOr (r : Except Failure (List Byte) × EchoClient) (arrivals : List Arrival)
    (goOn : Pulled (EchoClient × List Arrival) Byte Failure) :
    Pulled (EchoClient × List Arrival) Byte Failure :=
  match r.1 with
  | .error e => ⟨.threw e, (r.2, arrivals), [.threw e]⟩
  | .ok msg => if msg.length ≠ 0 then ⟨.returned msg, (r.2, arrivals), [.returned msg]⟩ else goOn

/-- The loop of `read`. -/
def readLoop (c : EchoClient) : List Arrival → Pulled (EchoClient × List Arrival) Byte Failure
  | [] => ⟨.blocked, (c, []), [.asked]⟩
  | .error ev :: arrivals => ⟨.threw (.socket ev), (c, arrivals), [.asked, .threw (.socket ev)]⟩
  | .piece p faults :: arrivals =>
    let r : Pulled (EchoClient × List Arrival) Byte Failure :=
      match c.reader with
      | none =>
        -- the slice has the size of the piece, and nothing is copied into it
        if faults.slice then ⟨.threw .badAlloc, (c.filled p, arrivals), [.threw .badAlloc]⟩
        else
          ⟨.returned (createArray c.fresh c.slices p.bytes.length),
            ({ c.filled p with slices := c.slices + 1 }, arrivals),
            [.returned (createArray c.fresh c.slices p.bytes.length)]⟩
      | some _ =>
        if p.bytes.length ≠
            (c.buffer.write ((c.filled p).data.take p.bytes.length) faults.write).1 then
          ⟨.threw (.code codeBadAlloc),
            ((c.filled p).written ((c.filled p).data.take p.bytes.length) faults.write, arrivals),
            [.threw (.code codeBadAlloc)]⟩
        else
          let r := ((c.filled p).written ((c.filled p).data.take p.bytes.length)
            faults.write).readerMessage none faults
          returnOr r arrivals (readLoop r.2 arrivals)
    ⟨r.answer, r.state, .asked :: .received p.bytes :: r.trace⟩

/-- `read`. `faults` are those of its first turn, before it asks the socket. -/
def read (c : EchoClient) (faults : TurnFaults) (arrivals : List Arrival) :
    Pulled (EchoClient × List Arrival) Byte Failure :=
  let r := c.readerMessage none faults
  returnOr r arrivals (readLoop r.2 arrivals)

@[simp] theorem unread_withSize (n : Int32) : (c.withSize n).unread = c.unread := rfl

@[simp] theorem unread_written (bytes : List Byte) :
    (c.written bytes .none).unread = c.unread ++ bytes := (Buffer.write_none c.wf bytes).2

@[simp] theorem unread_drained (n : Nat) : (c.drained n).unread = c.unread.drop n :=
  (Buffer.read_spec c.wf n).2.2.2

theorem buffer_size : c.buffer.size = c.unread.length := Buffer.size_eq c.buffer

/-- What `read_some` filled in is what `_data` begins with. -/
theorem take_data_filled (p : Piece) : (c.filled p).data.take p.bytes.length = p.bytes :=
  window_blit_self (Nat.zero_le _)

/-! ## What the parser can do -/

section Cases

variable (reader : List Byte → Int32)

/-- What the parser of a client with the reader `reader` can do when allocations
succeed. `n` is the size it has read, before or now. -/
inductive Unpacked : Except Failure (List Byte) × EchoClient → Prop
  | more {n : Int32} : (echoCodec c.headerSize reader).next c.unread = .more →
      SizeOf c.headerSize reader n c.unread → Unpacked (.ok [], c.withSize n)
  | bad {n : Int32} : (echoCodec c.headerSize reader).next c.unread = .bad →
      BadSize c.headerSize n → Unpacked (.error (.code codeBadMsgHeader), c.withSize n)
  | message {m : List Byte} {n : Nat} :
      (echoCodec c.headerSize reader).next c.unread = .message m (c.unread.drop n) →
      m ≠ [] → Unpacked (.ok m, c.drained n)

variable {c reader}

theorem takeMessage_cases {n : Int32} (hgood : ¬ BadSize c.headerSize n)
    (hhd : headerLength c.headerSize ≤ c.unread.length)
    (hn : reader (c.unread.take (headerLength c.headerSize)) = n) :
    Unpacked c reader ((c.withSize n).takeMessage .none) := by
  obtain ⟨hpos, hle, hsize, hne⟩ := toNat_of_good hgood
  have hnext := next_of_good hhd hn hgood
  rw [takeMessage, buffer_size, unread_withSize, show (c.withSize n).size = n from rfl, hsize]
  split
  · rename_i hlt
    rw [if_pos hlt] at hnext
    exact .more hnext (.inr ⟨hgood, hhd, hn⟩)
  · rename_i hlen
    rw [if_neg hlen] at hnext
    rw [if_neg (by decide), (Buffer.read_spec (c.withSize n).wf n.toInt.toNat).2.1]
    refine Unpacked.message hnext fun hnil => ?_
    have hlength := congrArg List.length hnil
    rw [show (c.withSize n).buffer.content = c.unread from rfl, List.length_take,
      List.length_nil] at hlength
    omega

theorem readHeader_cases (hr : c.reader = some reader)
    (hhd : headerLength c.headerSize ≤ c.unread.length) :
    Unpacked c reader
      (c.readHeader (c.unread.take (headerLength c.headerSize)) .none) := by
  rw [readHeader, hr]
  dsimp only
  split
  · rename_i hbad
    rw [badSize_iff c.headerSize_nonneg] at hbad
    exact .bad (next_of_bad hhd hbad) hbad
  · rename_i hgood
    rw [badSize_iff c.headerSize_nonneg] at hgood
    exact takeMessage_cases hgood hhd rfl

/-- The parser takes off what the message format has at the front of the unread
bytes. -/
theorem unpack_cases (hr : c.reader = some reader)
    (hsize : SizeOf c.headerSize reader c.size c.unread) :
    Unpacked c reader (c.unpack .none) := by
  rw [unpack]
  rcases hsize with hnone | ⟨hgood, hhd, hn⟩
  · rw [if_pos hnone]
    split
    · rename_i hzero
      have hlen : headerLength c.headerSize = 0 := by
        rw [hzero]
        rfl
      have h := readHeader_cases hr (by omega)
      rwa [hlen, List.take_zero] at h
    · rw [buffer_size, sizeOfInt_headerSize c.headerSize_nonneg]
      split
      · rename_i hlt
        exact .more (n := c.size) (next_of_short hlt) (.inl hnone)
      · rename_i hlen
        rw [if_neg (by decide), Buffer.copyTo_eq]
        exact readHeader_cases hr (Nat.le_of_not_lt hlen)
  · rw [if_neg (toNat_of_good hgood).2.2.2]
    exact takeMessage_cases hgood hhd hn

end Cases

/-! ## `read` -/

section ReturnOr

variable {r : Except Failure (List Byte) × EchoClient} {arrivals : List Arrival}
  {goOn : Pulled (EchoClient × List Arrival) Byte Failure}

theorem returnOr_empty (h : r.1 = .ok []) : returnOr r arrivals goOn = goOn := by
  rw [returnOr, h]
  rfl

theorem returnOr_error {e : Failure} (h : r.1 = .error e) :
    returnOr r arrivals goOn = ⟨.threw e, (r.2, arrivals), [.threw e]⟩ := by
  rw [returnOr, h]

theorem returnOr_message {m : List Byte} (h : r.1 = .ok m) (hne : m.length ≠ 0) :
    returnOr r arrivals goOn = ⟨.returned m, (r.2, arrivals), [.returned m]⟩ := by
  rw [returnOr, h]
  exact if_pos hne

end ReturnOr

section Read

variable (headerSize : Int32) (reader : List Byte → Int32)

/-- The client is in the middle of a stream, with `s` unread. -/
structure Holds (c : EchoClient) (s : List Byte) : Prop where
  reader_eq : c.reader = some reader
  headerSize_eq : c.headerSize = headerSize
  size : SizeOf headerSize reader c.size c.unread
  unread : c.unread = s

/-- A client and the lazy reader of the format, at the same place of the same
stream. -/
def Follows (s : EchoClient × List Arrival) (t : List Byte × List (List Byte)) : Prop :=
  Holds headerSize reader s.1 t.1 ∧
    ∃ pieces : List Piece, s.2 = pieces.map (Arrival.piece · .none) ∧
      t.2 = pieces.map Piece.bytes

/-- The two come back with the same from a call. -/
def Agrees (x : Pulled (EchoClient × List Arrival) Byte Failure)
    (y : Pulled (List Byte × List (List Byte)) Byte Failure) : Prop :=
  x.answer = y.answer ∧ x.trace = y.trace ∧
    ∀ m, x.answer = .returned m → Follows headerSize reader x.state y.state

variable {headerSize reader}

/-- The parser keeps a client in the middle of its stream, unless it meets a bad
header. -/
theorem Holds.unpacked {c : EchoClient} {s : List Byte} (h : Holds headerSize reader c s)
    {r : Except Failure (List Byte) × EchoClient} (hr : c.unpack .none = r) :
    (r.1 = .ok [] ∧ (echoCodec headerSize reader).next s = .more ∧
        Holds headerSize reader r.2 s) ∨
      (r.1 = .error (.code codeBadMsgHeader) ∧ (echoCodec headerSize reader).next s = .bad ∧
        r.2.unread = s) ∨
      ∃ m rest, r.1 = .ok m ∧ m.length ≠ 0 ∧
        (echoCodec headerSize reader).next s = .message m rest ∧
        Holds headerSize reader r.2 rest := by
  obtain ⟨hreader, rfl, hsize, rfl⟩ := h
  have hcases := unpack_cases hreader hsize
  rw [hr] at hcases
  cases hcases with
  | more hnext hn => exact .inl ⟨rfl, hnext, hreader, rfl, hn, rfl⟩
  | bad hnext hbad => exact .inr (.inl ⟨rfl, hnext, rfl⟩)
  | @message m n hnext hne =>
    exact .inr (.inr ⟨m, _, rfl, mt List.length_eq_zero_iff.mp hne, hnext, hreader, rfl,
      .inl rfl, c.unread_drained n⟩)

/-- A piece arrives. -/
theorem Holds.received {c : EchoClient} {s : List Byte} (h : Holds headerSize reader c s)
    (p : Piece) : Holds headerSize reader ((c.filled p).written p.bytes .none) (s ++ p.bytes) := by
  obtain ⟨hreader, rfl, hsize, rfl⟩ := h
  have hunread : ((c.filled p).written p.bytes .none).unread = c.unread ++ p.bytes :=
    (c.filled p).unread_written p.bytes
  exact ⟨hreader, rfl, hunread ▸ hsize.append p.bytes, hunread⟩

/-- One turn of the loop is what `read` does with the piece in the buffer. -/
theorem readLoop_piece {c : EchoClient} (hr : c.reader = some reader) (p : Piece)
    (arrivals : List Arrival) :
    c.readLoop (.piece p .none :: arrivals) =
      ⟨(((c.filled p).written p.bytes .none).read .none arrivals).answer,
        (((c.filled p).written p.bytes .none).read .none arrivals).state,
        .asked :: .received p.bytes ::
          (((c.filled p).written p.bytes .none).read .none arrivals).trace⟩ := by
  rw [readLoop, hr]
  dsimp only
  rw [take_data_filled, show TurnFaults.none.write = .none from rfl,
    (Buffer.write_none c.wf p.bytes).1, if_neg (fun h => h rfl)]
  rfl

/-- A call of `read` is a call of the lazy reader. -/
theorem read_pull {c : EchoClient} {pieces : List Piece} {s : List Byte}
    (h : Holds headerSize reader c s) :
    Agrees headerSize reader (c.read .none (pieces.map (Arrival.piece · .none)))
      ((echoCodec headerSize reader).pull (.code codeBadMsgHeader) s
        (pieces.map Piece.bytes)) := by
  induction pieces generalizing c s with
  | nil =>
    rw [read, readerMessage]
    rcases h.unpacked rfl with ⟨hok, hnext, hh⟩ | ⟨herr, hnext, -⟩ |
      ⟨m, rest, hok, hne, hnext, hh⟩
    · rw [List.map_nil, List.map_nil, Codec.pull_more_nil hnext, returnOr_empty hok]
      exact ⟨rfl, rfl, fun m hm => by cases hm⟩
    · rw [Codec.pull_bad hnext, returnOr_error herr]
      exact ⟨rfl, rfl, fun m hm => by cases hm⟩
    · rw [Codec.pull_message hnext, returnOr_message hok hne]
      exact ⟨rfl, rfl, fun _ _ => ⟨hh, [], rfl, rfl⟩⟩
  | cons p pieces ih =>
    rw [read, readerMessage]
    rcases h.unpacked rfl with ⟨hok, hnext, hh⟩ | ⟨herr, hnext, -⟩ |
      ⟨m, rest, hok, hne, hnext, hh⟩
    · -- the socket is asked, and the piece is behind the unread bytes
      obtain ⟨hanswer, htrace, hstate⟩ := ih (hh.received p)
      rw [List.map_cons, List.map_cons, Codec.pull_more_cons hnext, returnOr_empty hok,
        readLoop_piece hh.reader_eq]
      exact ⟨hanswer, congrArg (fun t => .asked :: .received p.bytes :: t) htrace, hstate⟩
    · rw [Codec.pull_bad hnext, returnOr_error herr]
      exact ⟨rfl, rfl, fun m hm => by cases hm⟩
    · rw [Codec.pull_message hnext, returnOr_message hok hne]
      exact ⟨rfl, rfl, fun _ _ => ⟨hh, p :: pieces, rfl, rfl⟩⟩

end Read

/-- `n` calls of `read` on a fresh client, whose socket brings `pieces`: the
answers, and what happened. -/
def reads (headerSize : Int32) (reader : List Byte → Int32)
    (data : { data : List Byte // data.length = dataSize }) (fresh : Nat → Nat → Byte)
    (pieces : List Piece) (n : Nat) : List (Answer Byte Failure) × List (Event Byte Failure) :=
  calls (fun s : EchoClient × List Arrival => s.1.read .none s.2) n
    (create headerSize (some reader) data fresh, pieces.map (Arrival.piece · .none))

theorem holds_create (headerSize : Int32) (reader : List Byte → Int32)
    (data : { data : List Byte // data.length = dataSize }) (fresh : Nat → Nat → Byte) :
    Holds (clampHeaderSize headerSize) reader (create headerSize (some reader) data fresh) [] :=
  ⟨rfl, rfl, .inl rfl, rfl⟩

/-- **The client is the lazy reader of the format**: over every way the socket
cuts the stream, the calls of `read` on a fresh client return the messages of the
stream in order, up to the first bad header, at which the call throws; and the
socket is asked only when the unconsumed bytes hold neither a message nor a bad
header. -/
theorem read_reference (headerSize : Int32) (reader : List Byte → Int32)
    (data : { data : List Byte // data.length = dataSize }) (fresh : Nat → Nat → Byte)
    (pieces : List Piece) (n : Nat) :
    (reads headerSize reader data fresh pieces n).1 =
        (echoCodec (clampHeaderSize headerSize) reader).answers (.code codeBadMsgHeader)
          (pieces.map Piece.bytes).flatten n ∧
      Lazy (echoCodec (clampHeaderSize headerSize) reader) []
        (reads headerSize reader data fresh pieces n).2 := by
  have hcalls : reads headerSize reader data fresh pieces n =
      calls (fun t : List Byte × List (List Byte) =>
        (echoCodec (clampHeaderSize headerSize) reader).pull (.code codeBadMsgHeader) t.1 t.2)
        n ([], pieces.map Piece.bytes) := by
    refine calls_congr (R := Follows (clampHeaderSize headerSize) reader) ?_
      ⟨holds_create headerSize reader data fresh, pieces, rfl, rfl⟩ n
    rintro ⟨c, arrivals⟩ ⟨s, ps⟩ ⟨h, pieces, rfl, rfl⟩
    exact read_pull h
  rw [hcalls]
  exact ⟨Codec.answers_calls_pull n [] _, Codec.lazy_calls_pull n [] _⟩

end EchoClient

end KgCpp.Net
