import KgCpp.Lib.Run
import KgCpp.Net.EchoClient

/-!
# After a bad header

`reader_message` stores what the reader tells in `_size` before it looks whether
that is a length, and leaves it there when it throws. A later call takes a
`_size` other than -1 for the size of a message.

`rejected_iff` says when the error leaves the parser where it was, so that every
later call meets the same bad header: exactly when the reader tells -1. Bytes that
the call is handed are in the buffer then.
-/

namespace KgCpp.Net.EchoClient

open Lib Bytes

/-- A call on a client. -/
inductive ClientCall where
  | readerMessage (b : Option (List Byte)) (faults : TurnFaults)
  | read (faults : TurnFaults) (arrivals : List Arrival)

/-- What a call of `reader_message` comes back with. -/
def answerOf : Except Failure (List Byte) → Answer Byte Failure
  | .ok m => .returned m
  | .error e => .threw e

/-- One call. -/
def perform (c : EchoClient) : ClientCall → EchoClient × Answer Byte Failure
  | .readerMessage b faults => ((c.readerMessage b faults).2, answerOf (c.readerMessage b faults).1)
  | .read faults arrivals => ((c.read faults arrivals).state.1, (c.read faults arrivals).answer)

/-- A call that asks for a message on the same bytes: `reader_message()` or
`read()`, with no allocation failing before the parser. -/
inductive ClientCall.Asks : ClientCall → Prop
  | readerMessage : Asks (.readerMessage none .none)
  | read (arrivals : List Arrival) : Asks (.read .none arrivals)

/-- The state a call of `reader_message` parses: the bytes it is handed are in
the buffer. -/
def handed (c : EchoClient) (b : Option (List Byte)) (faults : TurnFaults) : EchoClient :=
  match b with
  | none => c
  | some b => c.written (c.data.take b.length) faults.write

/-- The error left the parser where it was: nothing is pending, the buffer is as
it was, asking again throws again, and no message ever comes of any later call. -/
structure Unmoved (c c' : EchoClient) : Prop where
  size : c'.size = -1
  buffer : c'.buffer = c.buffer
  again : ∀ calls, (∀ call ∈ calls, call.Asks) → ∀ a ∈ (run perform c' calls).2,
    a = .threw (.code codeBadMsgHeader)
  never : ∀ calls m, .returned m ∈ (run perform c' calls).2 → m = []

section Rejecting

variable {reader : List Byte → Int32} {c : EchoClient}

/-- A bad header of length -1 is at the front of the unread bytes. -/
structure Rejecting (reader : List Byte → Int32) (c : EchoClient) : Prop where
  reader_eq : c.reader = some reader
  size : c.size = -1
  header : headerLength c.headerSize ≤ c.unread.length
  rejects : reader (c.unread.take (headerLength c.headerSize)) = -1

theorem badSize_neg_one (headerSize : Int32) : BadSize headerSize (-1) :=
  .inr (by decide)

/-- Whatever a write does, the bytes before it stay at the front. -/
theorem unread_written_prefix (c : EchoClient) (bytes : List Byte) (faults : WriteFaults) :
    ∃ more, (c.written bytes faults).unread = c.unread ++ more := by
  show ∃ more, (c.buffer.write bytes faults).2.content = c.buffer.content ++ more
  by_cases hn : bytes = []
  · exact ⟨[], by rw [hn, Buffer.write_nil, List.append_nil]⟩
  · have hw := Buffer.write_spec c.wf hn faults
    generalize c.buffer.write bytes faults = r at hw
    cases hw with
    | all _ _ hcont => exact ⟨_, hcont⟩
    | nothing _ _ _ hcont => exact ⟨[], by rw [hcont, List.append_nil]⟩
    | part _ _ hcont => exact ⟨_, hcont⟩

theorem Rejecting.written (h : Rejecting reader c) (bytes : List Byte) (faults : WriteFaults) :
    Rejecting reader (c.written bytes faults) := by
  obtain ⟨more, hmore⟩ := c.unread_written_prefix bytes faults
  refine ⟨h.reader_eq, h.size, ?_, ?_⟩
  · rw [hmore, List.length_append]
    exact Nat.le_add_right_of_le h.header
  · rw [hmore]
    show reader ((c.unread ++ more).take (headerLength c.headerSize)) = -1
    rw [List.take_append_of_le_length h.header]
    exact h.rejects

theorem Rejecting.filled (h : Rejecting reader c) (p : Piece) : Rejecting reader (c.filled p) :=
  ⟨h.reader_eq, h.size, h.header, h.rejects⟩

/-- A size of -1 is what is there. -/
theorem withSize_self (h : c.size = -1) : c.withSize (-1) = c := by
  cases c
  cases h
  rfl

/-- The header a parser with no size pending reads. -/
theorem unpack_of_none (hsize : c.size = -1)
    (hhd : headerLength c.headerSize ≤ c.unread.length) (faults : TurnFaults) :
    c.unpack faults = (.ok [], c) ∧ faults.header = true ∨
      c.unpack faults = c.readHeader (c.unread.take (headerLength c.headerSize)) faults := by
  rw [unpack, if_pos hsize]
  by_cases hzero : c.headerSize = 0
  · rw [if_pos hzero, show headerLength c.headerSize = 0 by rw [hzero]; rfl, List.take_zero]
    exact .inr rfl
  · rw [if_neg hzero, buffer_size, sizeOfInt_headerSize c.headerSize_nonneg,
      if_neg (Nat.not_lt.mpr hhd), Buffer.copyTo_eq]
    cases hf : faults.header with
    | true => exact .inl ⟨rfl, rfl⟩
    | false => exact .inr rfl

/-- The parser rejects, or has no memory for the header, and stays. -/
theorem Rejecting.unpack (h : Rejecting reader c) (faults : TurnFaults) :
    c.unpack faults = (.ok [], c) ∧ faults.header = true ∨
      c.unpack faults = (.error (.code codeBadMsgHeader), c) := by
  refine (unpack_of_none h.size h.header faults).imp_right fun hheader => ?_
  rw [hheader, readHeader, h.reader_eq]
  dsimp only
  rw [h.rejects, if_pos ((badSize_iff c.headerSize_nonneg _).mpr (badSize_neg_one _)),
    withSize_self h.size]

/-- What a call leaves: the same bad header, and no message. -/
def StaysRejecting (reader : List Byte → Int32)
    (r : Pulled (EchoClient × List Arrival) Byte Failure) : Prop :=
  Rejecting reader r.state.1 ∧ ∀ m, r.answer ≠ .returned m

theorem Rejecting.returnOr (h : Rejecting reader c) (faults : TurnFaults)
    (arrivals : List Arrival) {goOn : Pulled (EchoClient × List Arrival) Byte Failure}
    (hgo : StaysRejecting reader goOn) :
    StaysRejecting reader (returnOr (c.unpack faults) arrivals goOn) := by
  rcases h.unpack faults with ⟨hunpack, -⟩ | hunpack
  · rw [hunpack, returnOr_empty rfl]
    exact hgo
  · rw [hunpack, returnOr_error rfl]
    exact ⟨h, fun m hm => by cases hm⟩

theorem Rejecting.readLoop (h : Rejecting reader c) (arrivals : List Arrival) :
    StaysRejecting reader (c.readLoop arrivals) := by
  induction arrivals generalizing c with
  | nil => exact ⟨h, fun m hm => by cases hm⟩
  | cons arrival arrivals ih =>
    cases arrival with
    | error ev => exact ⟨h, fun m hm => by cases hm⟩
    | piece p faults =>
      rw [EchoClient.readLoop, h.reader_eq]
      dsimp only
      -- the piece goes behind the bytes of the header
      have hw := (h.filled p).written ((c.filled p).data.take p.bytes.length) faults.write
      split
      · exact ⟨hw, fun m hm => by cases hm⟩
      · rw [readerMessage]
        have hgo : StaysRejecting reader ((((c.filled p).written
            ((c.filled p).data.take p.bytes.length) faults.write).unpack faults).2.readLoop
              arrivals) := by
          rcases hw.unpack faults with ⟨hunpack, -⟩ | hunpack <;> rw [hunpack] <;> exact ih hw
        exact hw.returnOr faults arrivals hgo

/-- The call left the bad header where it was, and returned no message. -/
def Stayed (reader : List Byte → Int32) (r : EchoClient × Answer Byte Failure) : Prop :=
  Rejecting reader r.1 ∧ ∀ m, r.2 = .returned m → m = []

theorem Rejecting.stayed_unpack (h : Rejecting reader c) (faults : TurnFaults) :
    Stayed reader ((c.unpack faults).2, answerOf (c.unpack faults).1) := by
  rcases h.unpack faults with ⟨hunpack, -⟩ | hunpack
  · rw [hunpack]
    refine ⟨h, fun m hm => ?_⟩
    cases hm
    rfl
  · rw [hunpack]
    exact ⟨h, fun m hm => by cases hm⟩

/-- One call of any kind. -/
theorem Rejecting.perform (h : Rejecting reader c) (call : ClientCall) :
    Stayed reader (c.perform call) := by
  cases call with
  | readerMessage b faults =>
    rw [EchoClient.perform]
    cases b with
    | none => exact h.stayed_unpack faults
    -- what is handed in is written first, and may not fit
    | some b =>
      have hw := h.written (c.data.take b.length) faults.write
      rw [readerMessage]
      split
      · exact ⟨h, fun m hm => by cases hm⟩
      · split
        · exact ⟨hw, fun m hm => by cases hm⟩
        · exact hw.stayed_unpack faults
  | read faults arrivals =>
    have hgo : StaysRejecting reader ((c.unpack faults).2.readLoop arrivals) := by
      rcases h.unpack faults with ⟨hunpack, -⟩ | hunpack <;> rw [hunpack] <;>
        exact h.readLoop arrivals
    obtain ⟨hstate, hanswer⟩ := h.returnOr faults arrivals hgo
    exact ⟨hstate, fun m hm => absurd hm (hanswer m)⟩

/-- Asking again on the same bytes throws again, and leaves the client as it is. -/
theorem Rejecting.asks (h : Rejecting reader c) {call : ClientCall} (hcall : call.Asks) :
    c.perform call = (c, .threw (.code codeBadMsgHeader)) := by
  have hunpack : c.unpack .none = (.error (.code codeBadMsgHeader), c) :=
    (h.unpack .none).resolve_left fun hfault => by cases hfault.2
  cases hcall with
  | readerMessage => rw [EchoClient.perform, readerMessage, hunpack, answerOf]
  | read arrivals =>
    rw [EchoClient.perform, read, readerMessage, hunpack, returnOr_error rfl]

theorem Rejecting.run (h : Rejecting reader c) (calls : List ClientCall) :
    ∀ m, .returned m ∈ (run EchoClient.perform c calls).2 → m = [] := by
  induction calls generalizing c with
  | nil => exact fun m hm => by cases hm
  | cons call calls ih =>
    obtain ⟨hstate, hanswer⟩ := h.perform call
    intro m hm
    rw [run_cons] at hm
    rcases List.mem_cons.mp hm with hm | hm
    · exact hanswer m hm.symm
    · exact ih hstate m hm

theorem Rejecting.run_asks (h : Rejecting reader c) (calls : List ClientCall)
    (hcalls : ∀ call ∈ calls, call.Asks) :
    ∀ a ∈ (Lib.run EchoClient.perform c calls).2, a = .threw (.code codeBadMsgHeader) := by
  induction calls with
  | nil => exact fun a ha => by cases ha
  | cons call calls ih =>
    have hcall := h.asks (hcalls call (List.mem_cons_self ..))
    rw [run_cons, hcall]
    intro a ha
    rcases List.mem_cons.mp ha with rfl | ha
    · rfl
    · exact ih (fun call hcall => hcalls call (List.mem_cons_of_mem _ hcall)) a ha

end Rejecting

section Rejected

variable {reader : List Byte → Int32} {c : EchoClient} {faults : TurnFaults}

theorem takeMessage_ne_error (c : EchoClient) (faults : TurnFaults) (e : Failure) :
    (c.takeMessage faults).1 ≠ .error e := by
  unfold takeMessage
  split
  · exact fun h => by cases h
  · split <;> exact fun h => by cases h

/-- What a parser that met a bad header has done. -/
theorem of_unpack_bad (hr : c.reader = some reader)
    (hbad : (c.unpack faults).1 = .error (.code codeBadMsgHeader)) :
    c.size = -1 ∧ headerLength c.headerSize ≤ c.unread.length ∧
      (c.unpack faults).2 =
        c.withSize (reader (c.unread.take (headerLength c.headerSize))) := by
  by_cases hsize : c.size = -1
  · by_cases hhd : headerLength c.headerSize ≤ c.unread.length
    · refine ⟨hsize, hhd, ?_⟩
      rcases unpack_of_none hsize hhd faults with ⟨hunpack, -⟩ | hunpack
      -- no memory for the header: an empty message, not an error
      · rw [hunpack] at hbad
        cases hbad
      · rw [hunpack, readHeader, hr] at hbad ⊢
        dsimp only at hbad ⊢
        split at hbad
        · rename_i hrejected
          rw [if_pos hrejected]
        · exact absurd hbad (takeMessage_ne_error _ _ _)
    · -- the parser waits for a header
      have hzero : c.headerSize ≠ 0 := by
        intro hzero
        rw [hzero] at hhd
        exact hhd (Nat.zero_le _)
      rw [unpack, if_pos hsize, if_neg hzero, buffer_size,
        sizeOfInt_headerSize c.headerSize_nonneg, if_pos (Nat.lt_of_not_le hhd)] at hbad
      cases hbad
  · rw [unpack, if_neg hsize] at hbad
    exact absurd hbad (takeMessage_ne_error _ _ _)

/-- A call that met a bad header has written all it was handed. -/
theorem write_of_bad {b : List Byte}
    (hbad : (c.readerMessage (some b) faults).1 = .error (.code codeBadMsgHeader)) :
    b.length ≤ dataSize ∧
      b.length = (c.buffer.write (c.data.take b.length) faults.write).1 := by
  rw [readerMessage] at hbad
  split at hbad
  · cases hbad
  · rename_i hfits
    split at hbad
    · exact absurd (Failure.code.inj (Except.error.inj hbad)) (by decide)
    · rename_i hwrite
      exact ⟨Nat.le_of_not_lt hfits, not_not.mp hwrite⟩

/-- And has parsed it. -/
theorem readerMessage_of_bad {b : Option (List Byte)}
    (hbad : (c.readerMessage b faults).1 = .error (.code codeBadMsgHeader)) :
    c.readerMessage b faults = (c.handed b faults).unpack faults := by
  cases b with
  | none => rfl
  | some b =>
    obtain ⟨hfits, hwrite⟩ := write_of_bad hbad
    rw [readerMessage, if_neg (Nat.not_lt_of_le hfits), if_neg (not_not.mpr hwrite)]
    rfl

/-- It finds the buffer it was called with only when it was handed nothing. -/
theorem handed_of_bad {b : Option (List Byte)}
    (hbad : (c.readerMessage b faults).1 = .error (.code codeBadMsgHeader)) :
    (c.handed b faults).buffer = c.buffer ↔ b.getD [] = [] := by
  cases b with
  | none => exact iff_of_true rfl rfl
  | some b =>
    obtain ⟨hfits, hwrite⟩ := write_of_bad hbad
    have hlen : (c.data.take b.length).length = b.length := by
      rw [List.length_take, c.length_data]
      exact Nat.min_eq_left hfits
    show (c.buffer.write (c.data.take b.length) faults.write).2 = c.buffer ↔ b = []
    constructor
    · intro hsame
      by_contra hne
      refine Buffer.write_ne_self c.wf (fun hnil => hne ?_) (hwrite.symm.trans hlen.symm) hsame
      rw [hnil] at hlen
      exact List.length_eq_zero_iff.mp hlen.symm
    · rintro rfl
      rw [List.length_nil, List.take_zero, Buffer.write_nil]

end Rejected

/-- **After a bad header**: a call that throws it leaves the parser where it was,
behind the bytes it was handed, if and only if the length the reader told is -1;
and as it was before the call if and only if moreover it was handed none. -/
theorem rejected_iff {reader : List Byte → Int32} {c : EchoClient} (hr : c.reader = some reader)
    (b : Option (List Byte)) (faults : TurnFaults)
    (hbad : (c.readerMessage b faults).1 = .error (.code codeBadMsgHeader)) :
    (Unmoved (c.handed b faults) (c.readerMessage b faults).2 ↔
      reader ((c.handed b faults).unread.take (headerLength c.headerSize)) = -1) ∧
    (Unmoved c (c.readerMessage b faults).2 ↔
      reader ((c.handed b faults).unread.take (headerLength c.headerSize)) = -1 ∧
        b.getD [] = []) := by
  have hreader : (c.handed b faults).reader = some reader := by
    cases b <;> exact hr
  have hheader : (c.handed b faults).headerSize = c.headerSize := by
    cases b <;> rfl
  have hhanded := handed_of_bad hbad
  have hcall := readerMessage_of_bad hbad
  rw [hcall] at hbad ⊢
  rw [← hheader, ← hhanded]
  obtain ⟨hsize, hhd, hstate⟩ := of_unpack_bad hreader hbad
  rw [hstate]
  have hunmoved : reader ((c.handed b faults).unread.take
        (headerLength (c.handed b faults).headerSize)) = -1 →
      Unmoved (c.handed b faults) ((c.handed b faults).withSize
        (reader ((c.handed b faults).unread.take
          (headerLength (c.handed b faults).headerSize)))) := by
    intro hneg
    -- -1 is what `_size` holds while no size is pending
    rw [hneg, withSize_self hsize]
    have hrejecting : Rejecting reader (c.handed b faults) := ⟨hreader, hsize, hhd, hneg⟩
    exact ⟨hsize, rfl, hrejecting.run_asks, hrejecting.run⟩
  refine ⟨⟨fun h => h.size, hunmoved⟩, fun h => ⟨h.size, h.buffer⟩, fun ⟨hneg, hsame⟩ => ?_⟩
  have h := hunmoved hneg
  exact ⟨h.size, h.buffer.trans hsame, h.again, h.never⟩

theorem length_zeros : (List.replicate dataSize (0 : Byte)).length = dataSize :=
  List.length_replicate

/-- A client whose header has `headerSize` bytes, with `bytes` received. -/
def received (headerSize : Int32) (reader : List Byte → Int32) (bytes : List Byte) : EchoClient :=
  (create headerSize (some reader) ⟨List.replicate dataSize 0, length_zeros⟩
    fun _ _ => 0).written bytes .none

/-- A reader that tells -1. -/
theorem rejected_iff_neg_one : Unmoved (received 1 (fun _ => -1) [7])
    ((received 1 (fun _ => -1) [7]).readerMessage none .none).2 :=
  (rejected_iff (c := received 1 (fun _ => -1) [7]) rfl none .none (by decide +kernel)).2.mpr
    ⟨by decide +kernel, rfl⟩

/-- A header of four bytes, whose reader tells that the message has two: the call
throws, and the next one returns the first half of the header. -/
theorem header_cut : ¬ ∀ (reader : List Byte → Int32) (c : EchoClient),
    c.reader = some reader → ∀ faults : TurnFaults,
      (c.readerMessage none faults).1 = .error (.code codeBadMsgHeader) →
        Unmoved c (c.readerMessage none faults).2 := by
  intro h
  have hstays := h (fun _ => 2) (received 4 (fun _ => 2) [1, 2, 3, 4]) rfl .none
    (by decide +kernel)
  have hcut : .returned [1, 2] ∈ (Lib.run perform
      ((received 4 (fun _ => 2) [1, 2, 3, 4]).readerMessage none .none).2
      [.readerMessage none .none]).2 := by
    decide +kernel
  exact absurd (hstays.never _ _ hcut) (by decide)

end KgCpp.Net.EchoClient
