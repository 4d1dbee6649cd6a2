import KgCpp.Lib.Run
import KgCpp.Net.EchoClientFeed
import KgCpp.Net.EchoClientHeader

/-!
# Allocations that fail while a message is taken out

`reader_message` catches `std::bad_alloc` and returns the empty slice. The header
array and the returned slice are allocated before anything is taken out of the
buffer, and a size the reader has told stays in `_size`; so the next call goes on
where the last one stopped.

`extracts`: on a buffered stream of messages, with any allocations failing in any
of the calls, the calls return the first messages in order, and the reader is
asked about each message at most once. `unpackAsking` is `unpack` with a record of
what the reader is asked.
-/

namespace KgCpp.Net.EchoClient

open Lib Bytes

/-- `unpack`, with the headers the reader is called with. -/
def unpackAsking (c : EchoClient) (faults : TurnFaults) :
    (Except Failure (List Byte) × EchoClient) × List (List Byte) :=
  if c.size = -1 then
    if c.headerSize = 0 then (c.readHeader [] faults, [[]])
    else if c.buffer.size < sizeOfInt c.headerSize then ((.ok [], c), [])
    else if faults.header then ((.ok [], c), [])
    else
      let header := (c.buffer.copyTo (sizeOfInt c.headerSize)).2
      (c.readHeader header faults, [header])
  else (c.takeMessage faults, [])

theorem unpackAsking_fst (c : EchoClient) (faults : TurnFaults) :
    (c.unpackAsking faults).1 = c.readerMessage none faults := by
  rw [readerMessage, unpackAsking, unpack]
  split
  · split
    · rfl
    · split
      · rfl
      · split <;> rfl
  · rfl

/-- One call of `reader_message()`: its result, and what the reader was asked. -/
def attempt (c : EchoClient) (faults : TurnFaults) :
    EchoClient × Except Failure (List Byte) × List (List Byte) :=
  ((c.unpackAsking faults).1.2, (c.unpackAsking faults).1.1, (c.unpackAsking faults).2)

/-- The header whose size is pending. -/
def pendingHeader (c : EchoClient) : List (List Byte) :=
  if c.size = -1 then [] else [c.unread.take (headerLength c.headerSize)]

section Retry

variable (headerSize : Int32) (reader : List Byte → Int32)

/-- An allocation that the call comes to fails: that of the header array, when the
header is there and is not read yet, or that of a message that is there. -/
def Fails (c : EchoClient) (faults : TurnFaults) : Prop :=
  (faults.header = true ∧ c.size = -1 ∧ headerSize ≠ 0 ∧
      headerLength headerSize ≤ c.unread.length) ∨
    (faults.slice = true ∧
      ∃ m rest, (echoCodec headerSize reader).next c.unread = .message m rest)

/-- What calls on a buffered stream `s` of the messages `ms` come to: `outs` are their
results and what the reader was asked in each, `c` is the client after them. -/
structure Extracts (s : List Byte) (ms : List (List Byte))
    (outs : List (Except Failure (List Byte) × List (List Byte))) (c : EchoClient) : Prop where
  /-- The results that are not empty are the first messages. -/
  messages : messagesOf (outs.map Prod.fst) <+: ms
  /-- Nothing is lost: what was not returned is still buffered. -/
  position : (messagesOf (outs.map Prod.fst)).flatten ++ c.unread = s
  /-- No call throws. -/
  returns : (echoCodec headerSize reader).next [] ≠ .bad →
    ∀ o ∈ outs, ∃ m, o.1 = .ok m
  /-- The reader was asked once about each returned message, in order, and at most once about
  what is at the front now. -/
  asked : (echoCodec headerSize reader).next [] ≠ .bad →
    (outs.map Prod.snd).flatten =
      (messagesOf (outs.map Prod.fst)).map (List.take (headerLength headerSize)) ++
        c.pendingHeader
  /-- A call that an allocation fails in returns empty and leaves the buffer. -/
  failed : ∀ faults, Fails headerSize reader c faults →
    (c.readerMessage none faults).1 = .ok [] ∧ (c.readerMessage none faults).2.buffer = c.buffer
  /-- Any other call returns the next message. -/
  succeeds : ∀ m rest, ms = messagesOf (outs.map Prod.fst) ++ m :: rest →
    ∀ faults, ¬ Fails headerSize reader c faults → (c.readerMessage none faults).1 = .ok m
  /-- So does the first such call after one that failed. -/
  resumes : ∀ m rest, ms = messagesOf (outs.map Prod.fst) ++ m :: rest →
    ∀ faults, Fails headerSize reader c faults →
      ((c.readerMessage none faults).2.readerMessage none .none).1 = .ok m

variable {headerSize reader} {c : EchoClient}

/-- Taking out a message whose size is known: it is not there, or not allocated, and the
client stays; or it is returned. -/
theorem takeMessage_attempt {n : Int32} (hgood : ¬ BadSize c.headerSize n)
    (hhd : headerLength c.headerSize ≤ c.unread.length)
    (hn : reader (c.unread.take (headerLength c.headerSize)) = n) (faults : TurnFaults) :
    ((c.withSize n).takeMessage faults = (.ok [], c.withSize n) ∧
        ∀ m rest, (echoCodec c.headerSize reader).next c.unread = .message m rest →
          faults.slice = true) ∨
      ∃ m, (echoCodec c.headerSize reader).next c.unread =
          .message m (c.unread.drop n.toInt.toNat) ∧ faults.slice = false ∧
        (c.withSize n).takeMessage faults = (.ok m, (c.withSize n).drained n.toInt.toNat) := by
  obtain ⟨-, -, hsize, -⟩ := toNat_of_good hgood
  have hnext := next_of_good hhd hn hgood
  rw [takeMessage, buffer_size, unread_withSize, show (c.withSize n).size = n from rfl, hsize]
  by_cases hlen : c.unread.length < n.toInt.toNat
  · rw [if_pos hlen] at hnext ⊢
    refine .inl ⟨rfl, fun m rest hmsg => ?_⟩
    cases hnext.symm.trans hmsg
  · rw [if_neg hlen] at hnext ⊢
    cases hslice : faults.slice with
    | true => exact .inl ⟨rfl, fun _ _ _ => rfl⟩
    | false =>
      refine .inr ⟨_, hnext, rfl, ?_⟩
      rw [if_neg (by decide), (Buffer.read_spec (c.withSize n).wf n.toInt.toNat).2.1]
      rfl

variable (reader c) in
/-- What a call on a stream without a bad header can do: leave the buffer, having
perhaps read a header, or take the next message off. -/
inductive Attempted (faults : TurnFaults) :
    (Except Failure (List Byte) × EchoClient) × List (List Byte) → Prop
  | stays {n : Int32} {log : List (List Byte)} : SizeOf c.headerSize reader n c.unread →
      c.pendingHeader ++ log = (c.withSize n).pendingHeader →
      Fails c.headerSize reader c faults ∨
        (echoCodec c.headerSize reader).next c.unread = .more →
      Attempted faults ((.ok [], c.withSize n), log)
  | takes {m : List Byte} {k : Nat} {log : List (List Byte)} :
      (echoCodec c.headerSize reader).next c.unread = .message m (c.unread.drop k) →
      ¬ Fails c.headerSize reader c faults →
      c.pendingHeader ++ log = [c.unread.take (headerLength c.headerSize)] →
      Attempted faults ((.ok m, c.drained k), log)

theorem attempted_take {n : Int32} (hgood : ¬ BadSize c.headerSize n)
    (hhd : headerLength c.headerSize ≤ c.unread.length)
    (hn : reader (c.unread.take (headerLength c.headerSize)) = n) {faults : TurnFaults}
    (hheader : ¬ (faults.header = true ∧ c.size = -1 ∧ c.headerSize ≠ 0))
    {log : List (List Byte)}
    (hlog : c.pendingHeader ++ log = [c.unread.take (headerLength c.headerSize)]) :
    Attempted reader c faults ((c.withSize n).takeMessage faults, log) := by
  have hne : n ≠ -1 := (toNat_of_good hgood).2.2.2
  have hnext := next_of_good hhd hn hgood
  rcases takeMessage_attempt hgood hhd hn faults with ⟨htake, hslice⟩ | ⟨m, hmsg, hslice, htake⟩
  · rw [htake]
    refine .stays (.inr ⟨hgood, hhd, hn⟩) ?_ ?_
    · rw [hlog]
      exact (if_neg hne).symm
    · split at hnext
      · exact .inr hnext
      · exact .inl (.inr ⟨hslice _ _ hnext, _, _, hnext⟩)
  · rw [htake]
    refine .takes hmsg ?_ hlog
    rintro (⟨h1, h2, h3, -⟩ | ⟨h1, -⟩)
    · exact hheader ⟨h1, h2, h3⟩
    · rw [hslice] at h1
      cases h1

/-- With the header at hand: a stream without a bad header has a good one there. -/
theorem attempted_header (hr : c.reader = some reader) (hsize : c.size = -1)
    (hbad : (echoCodec c.headerSize reader).next c.unread ≠ .bad)
    (hhd : headerLength c.headerSize ≤ c.unread.length) {faults : TurnFaults}
    (hheader : ¬ (faults.header = true ∧ c.headerSize ≠ 0)) :
    Attempted reader c faults (c.readHeader (c.unread.take (headerLength c.headerSize)) faults,
      [c.unread.take (headerLength c.headerSize)]) := by
  have hgood := mt (next_of_bad hhd) hbad
  have hpending : c.pendingHeader = [] := if_pos hsize
  rw [readHeader, hr]
  dsimp only
  rw [if_neg ((badSize_iff c.headerSize_nonneg _).not.mpr hgood)]
  refine attempted_take hgood hhd rfl (fun h => hheader ⟨h.1, h.2.2⟩) ?_
  rw [hpending, List.nil_append]

theorem unpackAsking_cases (hr : c.reader = some reader)
    (hsize : SizeOf c.headerSize reader c.size c.unread)
    (hbad : (echoCodec c.headerSize reader).next c.unread ≠ .bad) (faults : TurnFaults) :
    Attempted reader c faults (c.unpackAsking faults) := by
  rw [unpackAsking]
  rcases hsize with hnone | ⟨hgood, hhd, hn⟩
  · have hstay : c.pendingHeader ++ [] = (c.withSize c.size).pendingHeader := List.append_nil _
    rw [if_pos hnone]
    split
    · rename_i hzero
      have hlen : headerLength c.headerSize = 0 := by
        rw [hzero]
        rfl
      have h : Attempted reader c faults _ :=
        attempted_header hr hnone hbad (by omega) fun h => h.2 hzero
      rwa [hlen, List.take_zero] at h
    · rename_i hpos
      rw [buffer_size, sizeOfInt_headerSize c.headerSize_nonneg]
      split
      · rename_i hlt
        exact .stays (n := c.size) (.inl hnone) hstay (.inr (next_of_short hlt))
      · rename_i hlen
        split
        · rename_i hfails
          exact .stays (n := c.size) (.inl hnone) hstay
            (.inl (.inl ⟨hfails, hnone, hpos, Nat.le_of_not_lt hlen⟩))
        · rename_i hfails
          rw [Buffer.copyTo_eq]
          exact attempted_header hr hnone hbad (Nat.le_of_not_lt hlen) fun h => hfails h.1
  · have hne := (toNat_of_good hgood).2.2.2
    rw [if_neg hne]
    refine attempted_take hgood hhd hn (fun h => hne h.2.1) ?_
    rw [List.append_nil]
    exact if_neg hne

/-- What calls on a stream keep, when the reader does not reject what is not there. -/
structure Kept (headerSize : Int32) (reader : List Byte → Int32) (s : List Byte)
    (outs : List (Except Failure (List Byte) × List (List Byte))) (c : EchoClient) : Prop where
  holds : Holds headerSize reader c c.unread
  progress : (echoCodec headerSize reader).Progress s (messagesOf (outs.map Prod.fst)) c.unread
  position : (messagesOf (outs.map Prod.fst)).flatten ++ c.unread = s
  returns : ∀ o ∈ outs, ∃ m, o.1 = .ok m
  asked : (outs.map Prod.snd).flatten =
    (messagesOf (outs.map Prod.fst)).map (List.take (headerLength headerSize)) ++ c.pendingHeader

variable {s : List Byte} {outs : List (Except Failure (List Byte) × List (List Byte))}

theorem Kept.attempted (h : Kept headerSize reader s outs c)
    (hmore : (echoCodec headerSize reader).next ((echoCodec headerSize reader).leftover s) = .more)
    (faults : TurnFaults) : Attempted reader c faults (c.unpackAsking faults) := by
  have hbad := h.progress.next_ne_bad hmore
  obtain ⟨hreader, rfl, hsize, -⟩ := h.holds
  exact unpackAsking_cases hreader hsize hbad faults

/-- A call that returns `m` and takes `front` off the stream, which is that message or
nothing. -/
theorem Kept.answer (h : Kept headerSize reader s outs c) {c' : EchoClient} {m : List Byte}
    {front log : List (List Byte)} (hfront : messagesOf [.ok m] = front)
    (hc' : Holds headerSize reader c' c'.unread) (hunread : c.unread = front.flatten ++ c'.unread)
    (hprogress : (echoCodec headerSize reader).Progress s
      (messagesOf (outs.map Prod.fst) ++ front) c'.unread)
    (hasked : c.pendingHeader ++ log =
      front.map (List.take (headerLength headerSize)) ++ c'.pendingHeader) :
    Kept headerSize reader s (outs ++ [(.ok m, log)]) c' := by
  have hmsgs : messagesOf ((outs ++ [((.ok m, log) :
      Except Failure (List Byte) × List (List Byte))]).map Prod.fst) =
      messagesOf (outs.map Prod.fst) ++ front := by
    rw [List.map_append, messagesOf_append, ← hfront]
    rfl
  refine ⟨hc', ?_, ?_, ?_, ?_⟩
  · rw [hmsgs]
    exact hprogress
  · rw [hmsgs, List.flatten_append, List.append_assoc, ← hunread]
    exact h.position
  · intro o ho
    rcases List.mem_append.mp ho with ho | ho
    · exact h.returns o ho
    · exact ⟨m, by rw [List.mem_singleton.mp ho]⟩
  · rw [hmsgs, List.map_append, List.map_append, List.flatten_append, h.asked, List.append_assoc]
    show _ ++ (c.pendingHeader ++ (log ++ [])) = _
    rw [List.append_nil, hasked, List.append_assoc]

/-- One call keeps it, whatever fails. -/
theorem Kept.attempt (h : Kept headerSize reader s outs c)
    (hmore : (echoCodec headerSize reader).next ((echoCodec headerSize reader).leftover s) = .more)
    (faults : TurnFaults) :
    Kept headerSize reader s (outs ++ [(c.attempt faults).2]) (c.attempt faults).1 := by
  have hcases := h.attempted hmore faults
  obtain ⟨hreader, rfl, hsize, -⟩ := h.holds
  rw [EchoClient.attempt]
  generalize c.unpackAsking faults = r at hcases
  cases hcases with
  | @stays n log hn hlog _ =>
    have hnone : messagesOf [(.ok [] : Except Failure (List Byte))] = [] := rfl
    refine h.answer hnone ⟨hreader, rfl, hn, rfl⟩ rfl ?_ hlog
    rw [List.append_nil]
    exact h.progress
  | @takes m k log hnext _ hlog =>
    have hne : m.length ≠ 0 := Nat.ne_of_gt (Codec.isMessage_of_next hnext).length_pos
    have hrest : (c.drained k).unread = c.unread.drop k := c.unread_drained k
    have hdone : (c.drained k).pendingHeader = [] := if_pos rfl
    have hheader : m.take (headerLength c.headerSize) =
        c.unread.take (headerLength c.headerSize) := Codec.take_header_of_next hnext
    refine h.answer (messagesOf_message hne) ⟨hreader, rfl, .inl rfl, rfl⟩ ?_ ?_ ?_
    · show c.unread = [m].flatten ++ (c.drained k).unread
      rw [hrest, List.flatten_singleton, Codec.append_of_next hnext]
    · show Codec.Progress _ s _ (c.drained k).unread
      rw [hrest]
      exact h.progress.message hnext
    · show c.pendingHeader ++ log = [m.take _] ++ (c.drained k).pendingHeader
      rw [hlog, hdone, List.append_nil, hheader]

section Front

variable {ms : List (List Byte)} (h : Kept headerSize reader s outs c)
  (hs : (echoCodec headerSize reader).Carries s ms)
  (hmore : (echoCodec headerSize reader).next ((echoCodec headerSize reader).leftover s) = .more)

include h hmore

/-- A call that fails somewhere. -/
theorem Kept.failed {faults : TurnFaults} (hfails : Fails headerSize reader c faults) :
    (c.readerMessage none faults).1 = .ok [] ∧
      (c.readerMessage none faults).2.buffer = c.buffer := by
  have hcases := h.attempted hmore faults
  obtain ⟨-, rfl, -, -⟩ := h.holds
  rw [← unpackAsking_fst]
  generalize c.unpackAsking faults = r at hcases
  cases hcases with
  | stays _ _ _ => exact ⟨rfl, rfl⟩
  | takes _ hnot _ => exact absurd hfails hnot

include hs

/-- A call that fails nowhere. -/
theorem Kept.succeeds {m : List Byte} {rest : List (List Byte)}
    (hms : ms = messagesOf (outs.map Prod.fst) ++ m :: rest) {faults : TurnFaults}
    (hnot : ¬ Fails headerSize reader c faults) : (c.readerMessage none faults).1 = .ok m := by
  have hcases := h.attempted hmore faults
  have hfront := h.progress.messages.trans (hs.messages_eq.trans hms)
  obtain ⟨r, hnext⟩ := Codec.next_of_messages (List.append_cancel_left hfront)
  obtain ⟨-, rfl, -, -⟩ := h.holds
  rw [← unpackAsking_fst]
  generalize c.unpackAsking faults = out at hcases
  cases hcases with
  | stays _ _ hwhy =>
    rcases hwhy with hfails | hwait
    · exact absurd hfails hnot
    · cases hwait.symm.trans hnext
  | takes hmsg _ _ =>
    cases hmsg.symm.trans hnext
    rfl

theorem Kept.toExtracts : Extracts headerSize reader s ms outs c where
  messages := ⟨_, h.progress.messages.trans hs.messages_eq⟩
  position := h.position
  returns _ := h.returns
  asked _ := h.asked
  failed _ := h.failed hmore
  succeeds _ _ hms _ := h.succeeds hs hmore hms
  resumes := by
    intro m rest hms faults hfails
    have hempty : (c.attempt faults).2.1 = .ok [] := by
      rw [← (h.failed hmore hfails).1, ← unpackAsking_fst]
      rfl
    have hafter : (c.readerMessage none faults).2 = (c.attempt faults).1 := by
      rw [← unpackAsking_fst]
      rfl
    have hsame : messagesOf ((outs ++ [(c.attempt faults).2]).map Prod.fst) =
        messagesOf (outs.map Prod.fst) := by
      rw [List.map_append, messagesOf_append, List.map_singleton, hempty]
      exact List.append_nil _
    rw [← hsame] at hms
    rw [hafter]
    refine (h.attempt hmore faults).succeeds hs hmore hms ?_
    rintro (⟨hheader, -⟩ | ⟨hslice, -⟩)
    · cases hheader
    · cases hslice

end Front

/-! ## Nothing buffered, and a reader that rejects nothing -/

/-- What calls keep when the buffer is empty. -/
def Idle (outs : List (Except Failure (List Byte) × List (List Byte))) (c : EchoClient) : Prop :=
  c.unread = [] ∧ messagesOf (outs.map Prod.fst) = []

theorem Idle.attempt (h : Idle outs c) (faults : TurnFaults) :
    Idle (outs ++ [(c.attempt faults).2]) (c.attempt faults).1 := by
  obtain ⟨hunread, hmsgs⟩ := h
  have hacc := (unpack_conserves c faults).1
  have hr : (c.unpackAsking faults).1 = c.unpack faults := c.unpackAsking_fst faults
  rw [hunread] at hacc
  rw [Idle, List.map_append, messagesOf_append, hmsgs, List.nil_append]
  show (c.unpackAsking faults).1.2.unread = [] ∧ messagesOf [(c.unpackAsking faults).1.1] = []
  rw [hr]
  unfold accounted at hacc
  cases hres : (c.unpack faults).1 with
  | ok m =>
    rw [hres] at hacc
    obtain ⟨rfl, hrest⟩ := List.append_eq_nil_iff.mp hacc
    exact ⟨hrest, rfl⟩
  | error e =>
    rw [hres] at hacc
    exact ⟨hacc, rfl⟩

theorem Idle.toExtracts (h : Idle outs c) (hpos : 0 ≤ headerSize.toInt)
    (hbad : (echoCodec headerSize reader).next [] = .bad) :
    Extracts headerSize reader [] [] outs c where
  messages := by
    rw [h.2]
  position := by rw [h.2, h.1, List.flatten_nil, List.append_nil]
  returns hnot := absurd hbad hnot
  asked hnot := absurd hbad hnot
  failed := by
    rintro faults (⟨-, -, hne, hle⟩ | ⟨-, m, rest, hmsg⟩)
    · -- a header of some bytes is not there
      rw [h.1, headerLength, List.length_nil] at hle
      exact absurd (Int32.toInt_inj.mp (show headerSize.toInt = 0 by omega)) hne
    · rw [h.1, hbad] at hmsg
      cases hmsg
  succeeds := by
    intro m rest hms
    rw [h.2] at hms
    cases hms
  resumes := by
    intro m rest hms
    rw [h.2] at hms
    cases hms

end Retry

/-- **Allocation failures lose nothing**: on a client that has the stream `s` of the messages
`ms` buffered and nothing pending, whatever fails in each of any number of calls of
`reader_message()`. -/
theorem extracts {headerSize : Int32} {reader : List Byte → Int32} {s : List Byte}
    {ms : List (List Byte)} (hs : (echoCodec headerSize reader).Carries s ms) {c : EchoClient}
    (hc : Holds headerSize reader c s) (hsize : c.size = -1) (calls : List TurnFaults) :
    Extracts headerSize reader s ms (run attempt c calls).2 (run attempt c calls).1 := by
  by_cases hbad : (echoCodec headerSize reader).next [] = .bad
  · obtain ⟨rfl, rfl⟩ := hs.of_next_nil hbad
    have hidle : Idle (run attempt c calls).2 (run attempt c calls).1 :=
      run_history attempt (fun _ => True) (fun _ => Idle) (fun _ _ _ faults h _ => h.attempt faults)
        ⟨hc.unread, rfl⟩ calls fun _ _ => trivial
    refine hidle.toExtracts ?_ hbad
    rw [← hc.headerSize_eq]
    exact c.headerSize_nonneg
  · have hmore := hs.next_leftover hbad
    have hpending : c.pendingHeader = [] := if_pos hsize
    have hunread := hc.unread
    have hstart : Kept headerSize reader s [] c := by
      refine ⟨?_, ?_, ?_, fun o ho => (List.not_mem_nil ho).elim, ?_⟩
      · rw [hunread]
        exact hc
      · rw [hunread]
        exact ⟨rfl, rfl⟩
      · exact hunread
      · rw [hpending]
        rfl
    exact (run_history attempt (fun _ => True) (fun _ => Kept headerSize reader s)
      (fun _ _ _ faults h _ => h.attempt hmore faults) hstart calls fun _ _ => trivial).toExtracts
        hs hmore

/-- Two messages with a header of one byte, which is the length. -/
def twoBuffered : EchoClient :=
  received 1 (fun hd => Int32.ofNat (hd.headD 0).toNat) [2, 7, 3, 8, 9]

theorem holds_twoBuffered :
    Holds 1 (fun hd => Int32.ofNat (hd.headD 0).toNat) twoBuffered [2, 7, 3, 8, 9] where
  reader_eq := rfl
  headerSize_eq := by decide
  size := .inl rfl
  unread := by decide +kernel

/-- The header array fails, then the slice, and then both messages come. -/
theorem extracts_two : Extracts 1 (fun hd => Int32.ofNat (hd.headD 0).toNat) [2, 7, 3, 8, 9]
    [[2, 7], [3, 8, 9]]
    (run attempt twoBuffered [⟨.none, true, false⟩, ⟨.none, false, true⟩, .none, .none]).2
    (run attempt twoBuffered [⟨.none, true, false⟩, ⟨.none, false, true⟩, .none, .none]).1 :=
  extracts ⟨by decide, [], by decide, .inl rfl⟩ holds_twoBuffered rfl _

end KgCpp.Net.EchoClient
