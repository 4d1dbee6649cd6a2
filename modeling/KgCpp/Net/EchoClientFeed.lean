import KgCpp.Lib.Run
import KgCpp.Net.EchoClient

/-!
# Feeding the client by hand

`reader_message(b, n)` hands the client bytes that did not come from its socket.
The source writes the first `n` bytes of `_data` to the buffer where it should
write the ones at `b`.

`feed_iff` says when that makes no difference: a call acts as if `b` had arrived
exactly when `b` is no longer than `_data` and `_data` happens to begin with
`b`; and a stream all of whose chunks are such gives by hand the messages that
`read` gives.
-/

namespace KgCpp.Net.EchoClient

open Lib Bytes

/-- `reader_message(b, n)` comes back with what `reader_message()` does when `b`
is behind the buffered bytes, and leaves the same bytes and size. -/
def ActsAsAppend (c : EchoClient) (b : List Byte) : Prop :=
  (c.readerMessage (some b) .none).1 = ((c.written b .none).readerMessage none .none).1 ∧
    (c.readerMessage (some b) .none).2.unread =
      ((c.written b .none).readerMessage none .none).2.unread ∧
    (c.readerMessage (some b) .none).2.size =
      ((c.written b .none).readerMessage none .none).2.size

instance (c : EchoClient) (b : List Byte) : Decidable (c.ActsAsAppend b) := by
  unfold ActsAsAppend
  infer_instance

/-! ## One call -/

/-- With allocations succeeding, the call is the parser on the first bytes of
`_data`. -/
theorem readerMessage_some (c : EchoClient) {b : List Byte} (h : b.length ≤ dataSize) :
    c.readerMessage (some b) .none = (c.written (c.data.take b.length) .none).unpack .none := by
  have hlen : (c.data.take b.length).length = b.length := by
    rw [List.length_take, c.length_data, Nat.min_eq_left h]
  rw [readerMessage, if_neg (by omega), show TurnFaults.none.write = .none from rfl,
    (Buffer.write_none c.wf _).1, hlen, if_neg (fun h => h rfl)]

/-- More than `_data` holds is read past its end. -/
theorem readerMessage_long (c : EchoClient) {b : List Byte} (h : dataSize < b.length) :
    c.readerMessage (some b) .none = (.error .outOfBounds, c) := if_pos h

/-- The bytes a result and the client after it hold. -/
def accounted (r : Except Failure (List Byte) × EchoClient) : List Byte :=
  match r.1 with
  | .ok m => m ++ r.2.unread
  | .error _ => r.2.unread

section Conserves

variable (c : EchoClient) (faults : TurnFaults)

theorem takeMessage_conserves :
    accounted (c.takeMessage faults) = c.unread ∧
      (c.takeMessage faults).1 ≠ .error .outOfBounds := by
  rw [takeMessage]
  split
  · exact ⟨rfl, fun h => by cases h⟩
  · split
    · exact ⟨rfl, fun h => by cases h⟩
    · rw [(Buffer.read_spec c.wf _).2.1]
      refine ⟨?_, fun h => by cases h⟩
      show c.unread.take _ ++ (c.drained _).unread = c.unread
      rw [unread_drained, List.take_append_drop]

theorem readHeader_conserves (header : List Byte) :
    accounted (c.readHeader header faults) = c.unread ∧
      (c.readHeader header faults).1 ≠ .error .outOfBounds := by
  rw [readHeader]
  split
  · exact ⟨rfl, fun h => by cases h⟩
  · split
    · exact ⟨rfl, fun h => by cases h⟩
    · exact takeMessage_conserves _ faults

/-- The parser loses no byte, whatever the state, and never reads `_data`. -/
theorem unpack_conserves :
    accounted (c.unpack faults) = c.unread ∧ (c.unpack faults).1 ≠ .error .outOfBounds := by
  rw [unpack]
  split
  · split
    · exact readHeader_conserves c faults []
    · split
      · exact ⟨rfl, fun h => by cases h⟩
      · split
        · exact ⟨rfl, fun h => by cases h⟩
        · exact readHeader_conserves c faults _
  · exact takeMessage_conserves c faults

end Conserves

/-- When a call acts as an append. -/
theorem actsAsAppend_iff (c : EchoClient) (b : List Byte) :
    c.ActsAsAppend b ↔ b.length ≤ dataSize ∧ c.data.take b.length = b := by
  constructor
  · rintro ⟨hanswer, hunread, -⟩
    by_cases hlen : b.length ≤ dataSize
    · refine ⟨hlen, ?_⟩
      rw [readerMessage_some c hlen] at hanswer hunread
      have hbytes : accounted ((c.written (c.data.take b.length) .none).unpack .none) =
          accounted ((c.written b .none).unpack .none) := by
        rw [accounted, accounted, hanswer, hunread]
        rfl
      -- the parser loses nothing: what was appended is the same on both sides
      rw [(unpack_conserves _ _).1, (unpack_conserves _ _).1, unread_written, unread_written]
        at hbytes
      exact List.append_cancel_left hbytes
    · rw [readerMessage_long c (by omega)] at hanswer
      exact absurd hanswer.symm (unpack_conserves _ _).2
  · rintro ⟨hlen, hb⟩
    rw [ActsAsAppend, readerMessage_some c hlen, hb]
    exact ⟨rfl, rfl, rfl⟩

/-! ## A stream by hand -/

/-- One call of `reader_message(b, n)`, as a machine step. -/
def feed (c : EchoClient) (b : List Byte) : EchoClient × Except Failure (List Byte) :=
  ((c.readerMessage (some b) .none).2, (c.readerMessage (some b) .none).1)

/-- The messages among results: those that are not empty. -/
def messagesOf (results : List (Except Failure (List Byte))) : List (List Byte) :=
  results.filterMap fun
    | .ok (b :: bs) => some (b :: bs)
    | _ => none

theorem messagesOf_append (results results' : List (Except Failure (List Byte))) :
    messagesOf (results ++ results') = messagesOf results ++ messagesOf results' :=
  List.filterMap_append

theorem messagesOf_empty : messagesOf [.ok []] = [] := rfl

theorem messagesOf_message {m : List Byte} (hne : m.length ≠ 0) :
    messagesOf [.ok m] = [m] := by
  cases m with
  | nil => exact absurd rfl hne
  | cons b bs => rfl

/-- `reader_message()` until it returns the empty slice (or throws), in at most
`fuel` calls; `none` when they are not enough. -/
def drain : Nat → EchoClient → Option (List (List Byte))
  | 0, _ => none
  | fuel + 1, c =>
    match (c.readerMessage none .none).1 with
    | .ok (b :: bs) => (drain fuel (c.readerMessage none .none).2).map ((b :: bs) :: ·)
    | _ => some []

/-- The messages of feeding the chunks by hand and then draining. -/
def byHand (c : EchoClient) (chunks : List (List Byte)) (fuel : Nat) :
    Option (List (List Byte)) :=
  (drain fuel (run feed c chunks).1).map (messagesOf (run feed c chunks).2 ++ ·)

section Run

variable {headerSize : Int32} {reader : List Byte → Int32} {c : EchoClient} {s : List Byte}

theorem drain_eq (h : Holds headerSize reader c s) {fuel : Nat}
    (hfuel : ((echoCodec headerSize reader).messages s).length < fuel) :
    drain fuel c = some ((echoCodec headerSize reader).messages s) := by
  induction fuel generalizing c s with
  | zero => omega
  | succ fuel ih =>
    rw [drain]
    rcases h.unpacked (r := c.readerMessage none .none) rfl with ⟨hok, hnext, -⟩ |
      ⟨herr, hnext, -⟩ | ⟨m, rest, hok, hne, hnext, hh⟩
    · rw [hok, Codec.messages_stop (Codec.ne_message_of_more hnext)]
    · rw [herr, Codec.messages_stop (Codec.ne_message_of_bad hnext)]
    · rw [Codec.messages_cons hnext, List.length_cons] at hfuel
      rw [hok, Codec.messages_cons hnext]
      cases m with
      | nil => exact absurd rfl hne
      | cons b bs =>
        dsimp only
        rw [ih hh (by omega)]
        rfl

/-- Where a client is after it was fed a part of a stream. -/
structure Fed (headerSize : Int32) (reader : List Byte → Int32) (data received : List Byte)
    (results : List (Except Failure (List Byte))) (c : EchoClient) : Prop where
  holds : Holds headerSize reader c c.unread
  data_eq : c.data = data
  progress : (echoCodec headerSize reader).Progress received (messagesOf results) c.unread

theorem takeMessage_data (c : EchoClient) : (c.takeMessage .none).2.data = c.data := by
  rw [takeMessage]
  split
  · rfl
  · rw [if_neg (by decide)]
    rfl

theorem readHeader_data (c : EchoClient) (header : List Byte) :
    (c.readHeader header .none).2.data = c.data := by
  rw [readHeader]
  split
  · rfl
  · split
    · rfl
    · exact takeMessage_data _

/-- The parser does not touch `_data`. -/
theorem unpack_data (c : EchoClient) : (c.unpack .none).2.data = c.data := by
  rw [unpack]
  split
  · split
    · exact readHeader_data c []
    · split
      · rfl
      · rw [if_neg (by decide)]
        exact readHeader_data c _
  · exact takeMessage_data c

/-- Feeding one more chunk that `_data` begins with. -/
theorem Fed.feed {data received : List Byte} {results : List (Except Failure (List Byte))}
    (h : Fed headerSize reader data received results c) {b : List Byte}
    (hb : b.length ≤ dataSize ∧ data.take b.length = b)
    (hmore : (echoCodec headerSize reader).next
      ((echoCodec headerSize reader).leftover (received ++ b)) = .more) :
    Fed headerSize reader data (received ++ b) (results ++ [(c.feed b).2]) (c.feed b).1 := by
  obtain ⟨hh, hdata, hprog⟩ := h
  have hcall : c.readerMessage (some b) .none = (c.written b .none).unpack .none := by
    rw [readerMessage_some c hb.1, hdata, hb.2]
  have hunread := c.unread_written b
  have hw : Holds headerSize reader (c.written b .none) (c.unread ++ b) :=
    ⟨hh.reader_eq, hh.headerSize_eq, hunread ▸ hh.size.append b, hunread⟩
  have hdata' : ((c.written b .none).unpack .none).2.data = data :=
    (unpack_data _).trans hdata
  rw [EchoClient.feed, hcall]
  rcases hw.unpacked rfl with ⟨hok, hnext, hh'⟩ | ⟨herr, hnext, -⟩ |
    ⟨m, rest, hok, hne, hnext, hh'⟩
  · refine ⟨⟨hh'.reader_eq, hh'.headerSize_eq, hh'.size, rfl⟩, hdata', ?_⟩
    rw [hok, messagesOf_append, messagesOf_empty, List.append_nil, hh'.unread]
    exact hprog.append b
  · exact absurd hnext ((hprog.append b).next_ne_bad hmore)
  · refine ⟨⟨hh'.reader_eq, hh'.headerSize_eq, hh'.size, rfl⟩, hdata', ?_⟩
    rw [hok, messagesOf_append, messagesOf_message hne, hh'.unread]
    exact (hprog.append b).message hnext

/-- Feeding a part of a well-formed stream, in chunks that `_data` begins with. -/
theorem fed_of_prefix {data : { data : List Byte // data.length = dataSize }}
    (fresh : Nat → Nat → Byte) {stream : List Byte} {ms : List (List Byte)}
    (hms : (echoCodec (clampHeaderSize headerSize) reader).Carries stream ms)
    {chunks : List (List Byte)} (hpre : chunks.flatten <+: stream)
    (hne : ∀ b ∈ chunks, b ≠ [])
    (hb : ∀ b ∈ chunks, b.length ≤ dataSize ∧ data.1.take b.length = b) :
    Fed (clampHeaderSize headerSize) reader data.1 chunks.flatten
      (run EchoClient.feed (create headerSize (some reader) data fresh) chunks).2
      (run EchoClient.feed (create headerSize (some reader) data fresh) chunks).1 := by
  induction chunks using List.reverseRecOn with
  | nil => exact ⟨holds_create headerSize reader data fresh, rfl, Codec.progress_nil⟩
  | append_singleton chunks b ih =>
    rw [List.flatten_append, List.flatten_singleton] at hpre ⊢
    have hmem : b ∈ chunks ++ [b] := List.mem_append_right _ (List.mem_singleton_self b)
    have hq : chunks.flatten ++ b ≠ [] := by
      intro hnil
      exact hne b hmem (List.append_eq_nil_iff.mp hnil).2
    have h := ih ((List.prefix_append _ b).trans hpre)
      (fun b' hb' => hne b' (List.mem_append_left _ hb'))
      fun b' hb' => hb b' (List.mem_append_left _ hb')
    rw [run_append]
    exact h.feed (hb b hmem) (hms.of_prefix hpre hq).2

end Run

/-- **When feeding by hand agrees with receiving**: a call acts as if the bytes
had arrived exactly when `_data` is as long and begins with them; and a stream
in such chunks gives by hand, after the last chunk in finitely many calls, the
messages that `read` gives when the socket brings the same bytes. -/
theorem feed_iff (headerSize : Int32) (reader : List Byte → Int32)
    (data : { data : List Byte // data.length = dataSize }) (fresh : Nat → Nat → Byte) :
    (∀ (c : EchoClient) (b : List Byte),
      c.ActsAsAppend b ↔ b.length ≤ dataSize ∧ c.data.take b.length = b) ∧
    ∀ (stream : List Byte) (ms : List (List Byte)),
      (echoCodec (clampHeaderSize headerSize) reader).Carries stream ms →
      ∀ (chunks : List (List Byte)) (pieces : List Piece) (n : Nat),
        chunks.flatten = stream → (∀ b ∈ chunks, b ≠ []) →
        (∀ b ∈ chunks, b.length ≤ dataSize ∧ data.1.take b.length = b) →
        (pieces.map Piece.bytes).flatten = stream → ms.length < n →
        byHand (create headerSize (some reader) data fresh) chunks n = some ms ∧
          returnedOf (reads headerSize reader data fresh pieces n).1 = ms := by
  refine ⟨actsAsAppend_iff, ?_⟩
  intro stream ms hms chunks pieces n hchunks hne hb hpieces hn
  subst hchunks
  constructor
  · have h := fed_of_prefix fresh hms List.prefix_rfl hne hb
    have hall := h.progress.messages
    rw [hms.messages_eq] at hall
    have hlen := congrArg List.length hall
    rw [List.length_append] at hlen
    rw [byHand, drain_eq h.holds (by omega), Option.map_some, hall]
  · rw [(read_reference headerSize reader data fresh pieces n).1, Codec.returnedOf_answers,
      hpieces, hms.messages_eq, List.take_of_length_le (by omega)]

/-- A client without header whose messages have one byte, with `_data` zeroed. -/
def oneByteClient : EchoClient :=
  create 0 (some fun _ => 1) ⟨List.replicate dataSize 0, List.length_replicate⟩ fun _ _ => 0

/-- The message `[0]`, which `_data` begins with. -/
theorem feed_iff_zero :
    oneByteClient.ActsAsAppend [0] ∧
      byHand oneByteClient [[0], [0]] 3 = some [[0], [0]] ∧
      returnedOf (reads 0 (fun _ => 1) ⟨List.replicate dataSize 0, List.length_replicate⟩
        (fun _ _ => 0) [⟨[0, 0], by decide, by decide⟩] 3).1 = [[0], [0]] := by
  have h := feed_iff 0 (fun _ => 1) ⟨List.replicate dataSize 0, List.length_replicate⟩
    fun _ _ => 0
  refine ⟨(h.1 oneByteClient [0]).mpr (by decide), ?_⟩
  refine h.2 [0, 0] [[0], [0]] ⟨?_, [], rfl, .inl rfl⟩ _ _ 3 rfl (by decide) (by decide) rfl
    (by decide)
  intro m hm
  have hm' : m = [0] := by simpa using hm
  rw [hm']
  rfl

/-- Feeding the byte 7 gives the first byte of `_data` back. -/
theorem feed_seven : ¬ oneByteClient.ActsAsAppend [7] := by decide

end KgCpp.Net.EchoClient
