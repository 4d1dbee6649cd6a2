import KgCpp.Net.EchoServerRuns
import KgCpp.Net.EchoClient

/-!
# Server and client on one stream

A `forward_readed` call takes at most one message off the buffer, also when its
chunk completes several: the ones behind the first wait for later chunks. The
client loops (`EchoClient.read_reference`).

`delivers_iff` says exactly when this shows: the calls deliver every message
with its last byte, and so the ones the client reads from the same stream, if
and only if no chunk brings the last bytes of more than one message.
-/

namespace KgCpp.Net.EchoServer

open Lib Bytes

universe u

variable {σ : Type u}

/-- The server with a reader that looks at the header only, and a `readed` that
always answers true (and does `f` to the session). -/
def pureServing (headerSize : Int32) (reader : List Byte → Int32) (f : σ → List Byte → σ) :
    EchoServer σ :=
  serving headerSize (fun x header => (.ok (reader header), x))
    fun x msg => (.ok true, f x msg)

/-- The messages given to `readed` when the chunks come to a fresh session. -/
def deliveredBy (headerSize : Int32) (reader : List Byte → Int32) (f : σ → List Byte → σ)
    (session : σ) (fresh : Nat → Nat → Byte) (chunks : List (List Byte)) :
    List (List Byte) :=
  delivered (allCalls (run (pureServing headerSize reader f).step
    (.create session fresh) chunks).2)

section Pure

variable {headerSize : Int32} {reader : List Byte → Int32} {f : σ → List Byte → σ}

/-- A session in the middle of a stream. -/
def InStream (headerSize : Int32) (reader : List Byte → Int32) (b : BasicSession σ) : Prop :=
  SizeOf (clampHeaderSize headerSize) reader b.size b.unread

/-- The size the parser knows is the one `reader` tells of the header at the
front of the unread bytes. -/
theorem KnowsSize.of_pure {b : BasicSession σ} (hb : InStream headerSize reader b) {n : Int32}
    {x : σ} {calls : List Called}
    (hk : KnowsSize (pureServing headerSize reader f)
      (fun x header => (.ok (reader header), x)) b n x calls) :
    ¬ BadSize (clampHeaderSize headerSize) n ∧
      headerLength (clampHeaderSize headerSize) ≤ b.unread.length ∧
      reader (b.unread.take (headerLength (clampHeaderSize headerSize))) = n ∧
      delivered calls = [] := by
  cases hk with
  | before hsize =>
    rcases hb with hnone | ⟨hgood, hhd, hr⟩
    · exact absurd hnone hsize
    · exact ⟨hgood, hhd, hr, rfl⟩
  | now hsize hlen hr hgood =>
    cases hr
    exact ⟨hgood, hlen, rfl, rfl⟩

/-- What the parser does with a pure reader: what the format has at the front of
the unread bytes. -/
theorem pure_cases {b : BasicSession σ} (hb : InStream headerSize reader b)
    {r : Forwarded σ}
    (hr : Unpacked (pureServing headerSize reader f)
      (fun x header => (.ok (reader header), x)) (fun x msg => (.ok true, f x msg)) b r) :
    ((echoCodec (clampHeaderSize headerSize) reader).next b.unread = .more ∧
        delivered r.calls = [] ∧ r.basic.unread = b.unread ∧
        InStream headerSize reader r.basic) ∨
      ((echoCodec (clampHeaderSize headerSize) reader).next b.unread = .bad ∧
        delivered r.calls = []) ∨
      ∃ m, (echoCodec (clampHeaderSize headerSize) reader).next b.unread =
          .message m r.basic.unread ∧ delivered r.calls = [m] ∧
        InStream headerSize reader r.basic := by
  cases hr with
  | waitHeader hsize hlt => exact .inl ⟨next_of_short hlt, rfl, rfl, hb⟩
  | readerThrew hsize hlen hr => cases hr
  | badHeader hsize hlen hr hbad =>
    cases hr
    exact .inr (.inl ⟨next_of_bad hlen hbad, rfl⟩)
  | @waitBody n x calls b' hk hlt hx hsize hu =>
    obtain ⟨hgood, hhd, hn, hnone⟩ := hk.of_pure hb
    rw [(toNat_of_good hgood).2.2.1] at hlt
    refine .inl ⟨(next_of_good hhd hn hgood).trans (if_pos hlt), hnone, hu, ?_⟩
    rw [InStream, hsize, hu]
    exact .inr ⟨hgood, hhd, hn⟩
  | @message n x x' calls b' hk hlen hr hx hsize hu =>
    obtain ⟨hgood, hhd, hn, hnone⟩ := hk.of_pure hb
    rw [(toNat_of_good hgood).2.2.1] at hlen hu ⊢
    refine .inr (.inr ⟨b.unread.take n.toInt.toNat, ?_, ?_, .inl hsize⟩)
    · rw [next_of_good hhd hn hgood, if_neg (by omega)]
      exact congrArg _ hu.symm
    · rw [delivered_append, hnone]
      rfl
  | refused hk hlen hr hne =>
    cases hr
    exact absurd rfl hne

/-- A call on a session in the middle of a stream delivers the first message
there is, and no other. -/
theorem step_pure {b : BasicSession σ} (hb : InStream headerSize reader b)
    (chunk : List Byte) {received : List Byte} {out : List (List Byte)}
    (hprog : (echoCodec (clampHeaderSize headerSize) reader).Progress received out b.unread)
    (hmore : (echoCodec (clampHeaderSize headerSize) reader).next
      ((echoCodec (clampHeaderSize headerSize) reader).leftover (received ++ chunk)) = .more) :
    delivered ((pureServing headerSize reader f).step b chunk).2.2 =
        ((echoCodec (clampHeaderSize headerSize) reader).messages (b.unread ++ chunk)).take 1 ∧
      InStream headerSize reader ((pureServing headerSize reader f).step b chunk).1 ∧
      (echoCodec (clampHeaderSize headerSize) reader).Progress (received ++ chunk)
        (out ++ delivered ((pureServing headerSize reader f).step b chunk).2.2)
        ((pureServing headerSize reader f).step b chunk).1.unread := by
  have hgrown := hprog.append chunk
  have hb' : InStream headerSize reader (b.written chunk .none) := by
    rw [InStream, BasicSession.unread_written]
    exact SizeOf.append hb chunk
  have hcases := pure_cases (f := f) hb' unpack_cases
  rw [step, pureServing, forwardReaded_serving]
  dsimp only
  rw [calls_catchBadAlloc, basic_catchBadAlloc]
  rw [BasicSession.unread_written] at hcases
  rcases hcases with ⟨hnext, hnone, hu, hin⟩ | ⟨hnext, -⟩ | ⟨m, hnext, hdel, hin⟩
  · -- the front asks for more: nothing is delivered
    have hstop := Codec.messages_stop (Codec.ne_message_of_more hnext)
    refine ⟨?_, hin, ?_⟩
    · rw [hstop]
      exact hnone
    · exact hnone ▸ hu ▸ (List.append_nil out).symm ▸ hgrown
  · exact absurd hnext (hgrown.next_ne_bad hmore)
  · refine ⟨?_, hin, ?_⟩
    · rw [Codec.messages_cons hnext, List.take_succ_cons, List.take_zero]
      exact hdel
    · exact hdel ▸ hgrown.message hnext

theorem deliveredBy_concat (session : σ) (fresh : Nat → Nat → Byte)
    (chunks : List (List Byte)) (chunk : List Byte) :
    deliveredBy headerSize reader f session fresh (chunks ++ [chunk]) =
      deliveredBy headerSize reader f session fresh chunks ++
        delivered ((pureServing headerSize reader f).step
          (run (pureServing headerSize reader f).step (.create session fresh) chunks).1
          chunk).2.2 := by
  rw [deliveredBy, run_append, allCalls_append, delivered_append, run_cons, run_nil,
    allCalls_singleton]
  rfl

/-- The session after a part of a well-formed stream. -/
theorem progress_run (f : σ → List Byte → σ) (session : σ) (fresh : Nat → Nat → Byte)
    {stream : List Byte} {ms : List (List Byte)}
    (hms : (echoCodec (clampHeaderSize headerSize) reader).Carries stream ms)
    {chunks : List (List Byte)} (hpre : chunks.flatten <+: stream)
    (hne : ∀ chunk ∈ chunks, chunk ≠ []) :
    let b := (run (pureServing headerSize reader f).step (.create session fresh) chunks).1
    InStream headerSize reader b ∧
      (echoCodec (clampHeaderSize headerSize) reader).Progress chunks.flatten
        (deliveredBy headerSize reader f session fresh chunks) b.unread := by
  induction chunks using List.reverseRecOn with
  | nil => exact ⟨.inl rfl, Codec.progress_nil⟩
  | append_singleton chunks chunk ih =>
    rw [List.flatten_append, List.flatten_singleton] at hpre ⊢
    obtain ⟨hin, hprog⟩ := ih ((List.prefix_append _ chunk).trans hpre)
      fun c hc => hne c (List.mem_append_left _ hc)
    have hq : chunks.flatten ++ chunk ≠ [] := fun hnil =>
      hne chunk (List.mem_append_right _ (List.mem_singleton_self chunk))
        (List.append_eq_nil_iff.mp hnil).2
    rw [deliveredBy_concat, run_append]
    exact (step_pure hin chunk hprog (hms.of_prefix hpre hq).2).2

/-- What one more chunk of a well-formed stream delivers: of the messages that
have ended and are not delivered, the first. -/
theorem deliveredBy_append {session : σ} {fresh : Nat → Nat → Byte} {stream : List Byte}
    {ms : List (List Byte)}
    (hms : (echoCodec (clampHeaderSize headerSize) reader).Carries stream ms)
    {chunks : List (List Byte)} {chunk : List Byte} (hpre : chunks.flatten ++ chunk <+: stream)
    (hne : ∀ c ∈ chunks ++ [chunk], c ≠ []) :
    ∃ new, deliveredBy headerSize reader f session fresh (chunks ++ [chunk]) =
        deliveredBy headerSize reader f session fresh chunks ++ new.take 1 ∧
      deliveredBy headerSize reader f session fresh chunks ++ new =
        Codec.contained ms (chunks.flatten ++ chunk).length := by
  obtain ⟨hin, hprog⟩ := progress_run f session fresh hms
    ((List.prefix_append _ chunk).trans hpre) fun c hc => hne c (List.mem_append_left _ hc)
  have hq : chunks.flatten ++ chunk ≠ [] := fun hnil =>
    hne chunk (List.mem_append_right _ (List.mem_singleton_self chunk))
      (List.append_eq_nil_iff.mp hnil).2
  obtain ⟨hmsgs, hmore⟩ := hms.of_prefix hpre hq
  refine ⟨_, ?_, (hprog.append chunk).messages.trans hmsgs⟩
  rw [deliveredBy_concat, (step_pure hin chunk hprog hmore).1]

end Pure

/-! ## When every message is delivered with its last byte -/

/-- The messages that have ended when the first `k` chunks have come. -/
def ended (ms chunks : List (List Byte)) (k : Nat) : List (List Byte) :=
  Codec.contained ms (chunks.take k).flatten.length

/-- After every call the delivered messages are those that have ended. -/
def DeliversAll (headerSize : Int32) (reader : List Byte → Int32) (f : σ → List Byte → σ)
    (session : σ) (fresh : Nat → Nat → Byte) (ms chunks : List (List Byte)) : Prop :=
  ∀ k ≤ chunks.length,
    deliveredBy headerSize reader f session fresh (chunks.take k) = ended ms chunks k

/-- The delivered messages are those that a client reads from the same stream,
in whatever pieces it gets it. -/
def AgreesWithClient (headerSize : Int32) (reader : List Byte → Int32)
    (f : σ → List Byte → σ) (session : σ) (fresh : Nat → Nat → Byte)
    (ms chunks : List (List Byte)) : Prop :=
  ∀ (data : { data : List Byte // data.length = dataSize }) (fresh' : Nat → Nat → Byte)
    (pieces : List Piece) (n : Nat),
    (pieces.map Piece.bytes).flatten = chunks.flatten → ms.length ≤ n →
    returnedOf (EchoClient.reads headerSize reader data fresh' pieces n).1 =
      deliveredBy headerSize reader f session fresh chunks

/-- No chunk brings the last bytes of more than one message. -/
def OneEndEach (ms chunks : List (List Byte)) : Prop :=
  ∀ k < chunks.length, (ended ms chunks (k + 1)).length ≤ (ended ms chunks k).length + 1

section Delivers

variable {headerSize : Int32} {reader : List Byte → Int32} {f : σ → List Byte → σ}
  {session : σ} {fresh : Nat → Nat → Byte} {ms chunks : List (List Byte)}

/-- One more chunk, by its number. -/
theorem deliveredBy_take_succ (f : σ → List Byte → σ) (session : σ)
    (fresh : Nat → Nat → Byte)
    (hms : (echoCodec (clampHeaderSize headerSize) reader).Carries chunks.flatten ms)
    (hne : ∀ chunk ∈ chunks, chunk ≠ []) {k : Nat} (hk : k < chunks.length) :
    ∃ new, deliveredBy headerSize reader f session fresh (chunks.take (k + 1)) =
        deliveredBy headerSize reader f session fresh (chunks.take k) ++ new.take 1 ∧
      deliveredBy headerSize reader f session fresh (chunks.take k) ++ new =
        ended ms chunks (k + 1) := by
  have hsplit := List.take_succ_eq_append_getElem hk
  have hflat : (chunks.take (k + 1)).flatten = (chunks.take k).flatten ++ chunks[k] := by
    rw [hsplit, List.flatten_append, List.flatten_singleton]
  have hpre : (chunks.take (k + 1)).flatten <+: chunks.flatten :=
    ⟨(chunks.drop (k + 1)).flatten, by rw [← List.flatten_append, List.take_append_drop]⟩
  rw [ended, hflat]
  rw [hflat] at hpre
  rw [hsplit]
  refine deliveredBy_append hms hpre fun c hc => hne c ?_
  rw [← hsplit] at hc
  exact List.mem_of_mem_take hc

theorem deliversAll_iff
    (hms : (echoCodec (clampHeaderSize headerSize) reader).Carries chunks.flatten ms)
    (hne : ∀ chunk ∈ chunks, chunk ≠ []) :
    DeliversAll headerSize reader f session fresh ms chunks ↔ OneEndEach ms chunks := by
  constructor
  · intro hall k hk
    obtain ⟨new, hdel, -⟩ := deliveredBy_take_succ f session fresh hms hne hk
    rw [hall (k + 1) hk, hall k (Nat.le_of_lt hk)] at hdel
    rw [hdel, List.length_append, List.length_take]
    omega
  · intro hone k hk
    induction k with
    | zero => exact (Codec.contained_zero hms.1).symm
    | succ k ih =>
      obtain ⟨new, hdel, hall⟩ := deliveredBy_take_succ f session fresh hms hne hk
      have hcount := hone k hk
      rw [ih (Nat.le_of_lt hk)] at hdel hall
      rw [← hall, List.length_append] at hcount
      rw [hdel, List.take_of_length_le (by omega), hall]

theorem DeliversAll.agrees
    (hms : (echoCodec (clampHeaderSize headerSize) reader).Carries chunks.flatten ms)
    (h : DeliversAll headerSize reader f session fresh ms chunks) :
    AgreesWithClient headerSize reader f session fresh ms chunks := by
  intro data fresh' pieces n hpieces hn
  have hlast := h chunks.length (Nat.le_refl _)
  rw [ended, List.take_length, Codec.contained_all hms.length_le] at hlast
  rw [hlast, (EchoClient.read_reference headerSize reader data fresh' pieces n).1,
    Codec.returnedOf_answers, hpieces, hms.messages_eq, List.take_of_length_le hn]

end Delivers

/-- **When the server's framing does not depend on the chunks**: for every
well-formed stream in non-empty chunks, every message is delivered by the call
that brings its last byte, and so the ones the client reads, if and only if no
chunk brings the last bytes of more than one message. -/
theorem delivers_iff (headerSize : Int32) (reader : List Byte → Int32)
    (f : σ → List Byte → σ) (session : σ) (fresh : Nat → Nat → Byte)
    (ms chunks : List (List Byte))
    (hms : (echoCodec (clampHeaderSize headerSize) reader).Carries chunks.flatten ms)
    (hne : ∀ chunk ∈ chunks, chunk ≠ []) :
    (DeliversAll headerSize reader f session fresh ms chunks ∧
        AgreesWithClient headerSize reader f session fresh ms chunks) ↔
      OneEndEach ms chunks := by
  constructor
  · rintro ⟨hall, -⟩
    exact (deliversAll_iff hms hne).mp hall
  · intro hone
    have hall : DeliversAll headerSize reader f session fresh ms chunks :=
      (deliversAll_iff hms hne).mpr hone
    exact ⟨hall, hall.agrees hms⟩

/-- A one-byte header that is the length of the message. -/
def lengthByte (header : List Byte) : Int32 := .ofNat (header.getD 0 0).toNat

theorem carries_lengthByte {ms : List (List Byte)}
    (h : ∀ m ∈ ms, (echoCodec 1 lengthByte).IsMessage m) :
    (echoCodec (clampHeaderSize 1) lengthByte).Carries ms.flatten ms :=
  ⟨h, [], (List.append_nil _).symm, .inl rfl⟩

/-- Two messages in three chunks, the second of which ends one and starts the
other. -/
theorem delivers_iff_three_chunks :
    DeliversAll 1 lengthByte (fun x _ => x) () (fun _ _ => 0) [[2, 7], [3, 1, 2]]
        [[2], [7, 3], [1, 2]] ∧
      AgreesWithClient 1 lengthByte (fun x _ => x) () (fun _ _ => 0) [[2, 7], [3, 1, 2]]
        [[2], [7, 3], [1, 2]] :=
  (delivers_iff 1 lengthByte (fun x _ => x) () (fun _ _ => 0) [[2, 7], [3, 1, 2]]
    [[2], [7, 3], [1, 2]] (carries_lengthByte (by decide)) (by decide)).mpr
    (by unfold OneEndEach; decide)

/-- Two messages of one byte in one chunk: the second is not delivered. -/
theorem delivers_one_of_two :
    (echoCodec (clampHeaderSize 1) lengthByte).Carries [1, 1] [[1], [1]] ∧
      ¬ DeliversAll 1 lengthByte (fun x _ => x) () (fun _ _ => 0) [[1], [1]] [[1, 1]] := by
  refine ⟨carries_lengthByte (by decide), ?_⟩
  unfold DeliversAll
  decide

end KgCpp.Net.EchoServer
