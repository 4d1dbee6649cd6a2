import KgCpp.Bytes.BufferMemory
import KgCpp.Net.EchoServerRuns
import KgCpp.Net.EchoClientRuns

/-!
# What the echo classes keep in memory

Both keep what they have received and not yet handed out, and the arrays of the
buffer that holds it.

- `EchoServer.session_memory_le`: a session has, after every run, at most the bytes that
  came in and did not go out, and three times the largest chunk. The bytes that wait
  have no bound, for a call takes at most one message off.
- `EchoClient.client_memory_lt`: a client has a bound. It asks the socket only when no
  message is there, so it never has more than its longest message and four times `_data`.
-/

namespace KgCpp

open Lib

namespace Bytes.Buffer

/-- What a write adds is the beginning of what is written. -/
theorem exists_take_write {b : Buffer} (h : b.WF) (bytes : List Byte) (faults : WriteFaults) :
    ∃ k, (b.write bytes faults).2.content = b.content ++ bytes.take k := by
  by_cases hnil : bytes = []
  · subst hnil
    exact ⟨0, by rw [write_nil, List.take_nil, List.append_nil]⟩
  · have hw := write_spec h hnil faults
    generalize b.write bytes faults = r at hw
    cases hw with
    | all _ _ hcont => exact ⟨bytes.length, by rw [hcont, List.take_length]⟩
    | nothing _ _ _ hcont => exact ⟨0, by rw [hcont, List.take_zero, List.append_nil]⟩
    | part _ _ hcont => exact ⟨_, hcont⟩

/-- A buffer of an echo class, to which at most `m` bytes are written at once. -/
def Frugal (m : Nat) (b : Buffer) : Prop := Compact Unread defaultCapacity m b

variable {m : Nat} {b : Buffer}

theorem frugal_create (fresh : Nat → Nat → Byte) : Frugal m (create defaultCapacity fresh) :=
  compact_create fresh

theorem Frugal.write (h : Frugal m b) (hm : sizeOfInt defaultCapacity ≤ m) {bytes : List Byte}
    (hbytes : bytes.length ≤ m) (faults : WriteFaults) : Frugal m (b.write bytes faults).2 :=
  compact_write h hm hbytes faults (fun _ _ hx => hx) fun _ hx _ => hx

theorem Frugal.read (h : Frugal m b) (n : Nat) : Frugal m (b.read n).2.2 := compact_read h n

theorem Frugal.memory_le (h : Frugal m b) : b.memory ≤ b.content.length + 3 * m := by
  rw [← size_eq]
  exact h.memory_le_size

end Bytes.Buffer

namespace Net

open Bytes

universe u

/-! ## The server -/

namespace EchoServer

variable {σ : Type u}

/-- One call, with the allocations that fail in it, as a machine step: its output are the
callback calls. -/
def forward (s : EchoServer σ) (b : BasicSession σ) (chunk : List Byte × ForwardFaults) :
    BasicSession σ × List Called :=
  ((s.forwardReaded b chunk.1 chunk.2).basic, (s.forwardReaded b chunk.1 chunk.2).calls)

/-- How many bytes came in. -/
def bytesIn (chunks : List (List Byte × ForwardFaults)) : Nat :=
  (chunks.map fun chunk => chunk.1.length).sum

/-- How many bytes `readed` was given. -/
def bytesOut (calls : List Called) : Nat := (delivered calls).flatten.length

theorem bytesOut_append (calls calls' : List Called) :
    bytesOut (calls ++ calls') = bytesOut calls + bytesOut calls' := by
  rw [bytesOut, delivered_append, List.flatten_append, List.length_append]
  rfl

theorem bytesOut_readed (msg : List Byte) (answer : Except Thrown Bool) :
    bytesOut [.readed msg answer] = msg.length :=
  congrArg List.length (List.flatten_singleton : [msg].flatten = msg)

/-- The session has no more than came in and did not go out. -/
structure Owes (m received out : Nat) (b : BasicSession σ) : Prop where
  frugal : b.buffer.Frugal m
  bytes : b.unread.length + out ≤ received

section Owes

variable {m received out : Nat} {b : BasicSession σ}

theorem owes_create (session : σ) (fresh : Nat → Nat → Byte) :
    Owes m 0 0 (BasicSession.create session fresh) where
  frugal := Buffer.frugal_create fresh
  bytes := Nat.le_refl 0

theorem Owes.written (h : Owes m received out b) (hm : sizeOfInt Buffer.defaultCapacity ≤ m)
    {bytes : List Byte} (hbytes : bytes.length ≤ m) (faults : WriteFaults) :
    Owes m (received + bytes.length) out (b.written bytes faults) where
  frugal := h.frugal.write hm hbytes faults
  bytes := by
    obtain ⟨k, hk⟩ := Buffer.exists_take_write b.wf bytes faults
    have hunread : (b.written bytes faults).unread = b.unread ++ bytes.take k := hk
    have htake := List.length_take_le' k bytes
    have hle := h.bytes
    rw [hunread, List.length_append]
    omega

theorem Owes.drained (h : Owes m received out b) (n : Nat) :
    Owes m received (out + (b.buffer.read n).2.1.length) (b.drained n) where
  frugal := h.frugal.read n
  bytes := by
    have hle := h.bytes
    rw [(Buffer.read_spec b.wf n).2.1, show b.buffer.content = b.unread from rfl,
      BasicSession.unread_drained, List.length_drop, List.length_take]
    omega

theorem Owes.takeMessage (h : Owes m received out b)
    (readed : σ → List Byte → Except Thrown Bool × σ) (faults : ForwardFaults) :
    Owes m received (out + bytesOut (takeMessage readed b faults).calls)
      (takeMessage readed b faults).basic := by
  unfold EchoServer.takeMessage
  split
  · exact h
  · split
    · exact h
    · have hd := h.drained (sizeOfInt b.size)
      dsimp only
      generalize (b.buffer.read (sizeOfInt b.size)).2.1 = msg at hd
      split
      · rw [bytesOut_readed]
        exact ⟨hd.frugal, hd.bytes⟩
      · rw [bytesOut_readed]
        exact ⟨hd.frugal, hd.bytes⟩

variable (s : EchoServer σ) (reader : σ → List Byte → Except Thrown Int32 × σ)
  (readed : σ → List Byte → Except Thrown Bool × σ)

theorem Owes.readHeader (h : Owes m received out b) (header : List Byte)
    (faults : ForwardFaults) :
    Owes m received (out + bytesOut (s.readHeader reader readed b header faults).calls)
      (s.readHeader reader readed b header faults).basic := by
  unfold EchoServer.readHeader
  split
  · exact ⟨h.frugal, h.bytes⟩
  · split
    · exact ⟨h.frugal, h.bytes⟩
    · rename_i size session _ _
      have h' : Owes m received out { b with session := session, size := size } :=
        ⟨h.frugal, h.bytes⟩
      exact h'.takeMessage readed faults

theorem Owes.unpack (h : Owes m received out b) (faults : ForwardFaults) :
    Owes m received (out + bytesOut (s.unpack reader readed b faults).calls)
      (s.unpack reader readed b faults).basic := by
  unfold EchoServer.unpack
  split
  · split
    · exact h.readHeader s reader readed _ faults
    · split
      · exact h
      · split
        · exact h
        · exact h.readHeader s reader readed _ faults
  · exact h.takeMessage readed faults

/-- One call. -/
theorem Owes.forwardReaded (h : Owes m received out b)
    (hm : sizeOfInt Buffer.defaultCapacity ≤ m) {bytes : List Byte} (hbytes : bytes.length ≤ m)
    (faults : ForwardFaults) :
    Owes m (received + bytes.length) (out + bytesOut (s.forwardReaded b bytes faults).calls)
      (s.forwardReaded b bytes faults).basic := by
  have hle := h.bytes
  unfold EchoServer.forwardReaded
  split
  · exact ⟨h.frugal, hle.trans (Nat.le_add_right ..)⟩
  · split
    · refine ⟨h.frugal, ?_⟩
      rw [bytesOut_readed, ← Nat.add_assoc]
      exact Nat.add_le_add_right hle _
    · have hw := h.written hm hbytes faults.write
      rw [calls_catchBadAlloc, basic_catchBadAlloc]
      split
      · exact hw
      · exact hw.unpack s _ _ faults

end Owes

/-- **The memory of a session**: whatever the callbacks do, if they are set at all, and
whatever allocation fails, a session has no more than the bytes that came in and did not go
out, and three times `m`, when no chunk and no fragment is larger than `m`. -/
theorem session_memory_le (s : EchoServer σ) (session : σ) (fresh : Nat → Nat → Byte) {m : Nat}
    (hm : sizeOfInt Buffer.defaultCapacity ≤ m) (chunks : List (List Byte × ForwardFaults))
    (hchunks : ∀ chunk ∈ chunks, chunk.1.length ≤ m) :
    (run s.forward (.create session fresh) chunks).1.buffer.memory +
        bytesOut (run s.forward (.create session fresh) chunks).2.flatten ≤
      bytesIn chunks + 3 * m := by
  have hrun := run_history s.forward (fun _ => True)
    (fun chunks outs b => (∀ chunk ∈ chunks, chunk.1.length ≤ m) →
      Owes m (bytesIn chunks) (bytesOut outs.flatten) b)
    (fun chunks outs b chunk ih _ hchunks => ?_) (fun _ => owes_create session fresh) chunks
    (fun _ _ => trivial) hchunks
  · have hmemory := hrun.frugal.memory_le
    have hbytes := hrun.bytes
    rw [BasicSession.unread] at hbytes
    omega
  · have h := ih fun chunk' h => hchunks chunk' (List.mem_append_left _ h)
    have hin : bytesIn (chunks ++ [chunk]) = bytesIn chunks + chunk.1.length := by
      simp [bytesIn]
    rw [hin, List.flatten_append, List.flatten_singleton, bytesOut_append]
    exact h.forwardReaded s hm
      (hchunks chunk (List.mem_append_right _ (List.mem_singleton_self _))) chunk.2

/-- Three messages in one chunk, a chunk that does not get into the buffer, and one whose
message is not allocated. -/
def pipelined : List (List Byte × ForwardFaults) :=
  [([2, 7, 2, 8, 2, 9], .none), ([3], ⟨⟨false, true, false⟩, false, false⟩),
    ([1], ⟨.none, false, true⟩)]

theorem session_memory_le_pipelined :
    (run lengthByteServer.forward (.create 0 fun _ _ => 0) pipelined).1.buffer.memory +
        bytesOut (run lengthByteServer.forward (.create 0 fun _ _ => 0) pipelined).2.flatten ≤
      bytesIn pipelined + 3 * 1024 :=
  session_memory_le lengthByteServer 0 (fun _ _ => 0) (by decide) pipelined (by decide)

end EchoServer

/-! ## The client -/

namespace EchoClient

/-- The allocations of a turn, but those of the write, succeed. -/
def ParsesTurn (faults : TurnFaults) : Prop := faults.header = false ∧ faults.slice = false

instance (faults : TurnFaults) : Decidable (ParsesTurn faults) := by
  unfold ParsesTurn
  infer_instance

/-- Those of the turn that an arrival begins do. -/
def ParsesArrival : Arrival → Prop
  | .piece _ faults => ParsesTurn faults
  | .error _ => True

instance : ∀ a : Arrival, Decidable (ParsesArrival a)
  | .piece _ faults => inferInstanceAs (Decidable (ParsesTurn faults))
  | .error _ => inferInstanceAs (Decidable True)

/-- Those of every turn of what a program does do. -/
def Use.Parses : Use → Prop
  | .read faults => ParsesTurn faults
  | .connect arrivals => ∀ a ∈ arrivals, ParsesArrival a

instance : ∀ u : Use, Decidable u.Parses
  | .read faults => inferInstanceAs (Decidable (ParsesTurn faults))
  | .connect arrivals => inferInstanceAs (Decidable (∀ a ∈ arrivals, ParsesArrival a))

theorem unpack_of_parses {faults : TurnFaults} (h : ParsesTurn faults) (c : EchoClient) :
    c.unpack faults = c.unpack .none := by
  obtain ⟨hheader, hslice⟩ := h
  have htake : ∀ c : EchoClient, c.takeMessage faults = c.takeMessage .none := by
    intro c
    rw [takeMessage, hslice]
    rfl
  have hread : ∀ header, c.readHeader header faults = c.readHeader header .none := by
    intro header
    simp only [readHeader, htake]
  rw [unpack, unpack, hread, hread, htake, hheader]
  rfl

theorem frugal_unpack {m : Nat} {c : EchoClient} (h : c.buffer.Frugal m) (faults : TurnFaults) :
    (c.unpack faults).2.buffer.Frugal m := by
  have htake : ∀ n, ((c.withSize n).takeMessage faults).2.buffer.Frugal m := by
    intro n
    unfold takeMessage
    split
    · exact h
    · split
      · exact h
      · exact h.read _
  have hheader : ∀ header, (c.readHeader header faults).2.buffer.Frugal m := by
    intro header
    unfold readHeader
    split
    · exact h
    · split
      · exact h
      · exact htake _
  unfold unpack
  split
  · split
    · exact hheader _
    · split
      · exact h
      · split
        · exact h
        · exact hheader _
  · exact htake c.size

section Brief

variable (headerSize : Int32) (reader : List Byte → Int32) (limit room : Nat)

/-- A client in the middle of a stream has less than `limit` and `room` bytes waiting. -/
structure Brief (c : EchoClient) : Prop where
  holds : Holds headerSize reader c c.unread
  frugal : c.buffer.Frugal dataSize
  short : c.unread.length < limit + room

variable {headerSize reader limit room} {c : EchoClient}

/-- No message is there: what is there is less than a header or a message. -/
theorem short_of_more {s : List Byte} (hheader : headerLength headerSize ≤ limit)
    (hlimit : ∀ hd, (reader hd).toInt ≤ limit)
    (hmore : (echoCodec headerSize reader).next s = .more) : s.length < limit := by
  by_cases hhd : headerLength headerSize ≤ s.length
  · have hle := hlimit (s.take (headerLength headerSize))
    by_cases hbad : BadSize headerSize (reader (s.take (headerLength headerSize)))
    · cases hmore.symm.trans (next_of_bad hhd hbad)
    · have hnext := hmore.symm.trans (next_of_good hhd rfl hbad)
      split at hnext
      · omega
      · cases hnext
  · omega

theorem Brief.mono (h : Brief headerSize reader limit 0 c) :
    Brief headerSize reader limit room c :=
  ⟨h.holds, h.frugal, Nat.lt_add_right room h.short⟩

/-- A piece arrives, and the write gets some of it into the buffer. -/
theorem Brief.written (h : Brief headerSize reader limit 0 c) (p : Piece) (faults : WriteFaults) :
    Brief headerSize reader limit dataSize ((c.filled p).written p.bytes faults) := by
  obtain ⟨k, hk⟩ := Buffer.exists_take_write c.wf p.bytes faults
  have hunread : ((c.filled p).written p.bytes faults).unread = c.unread ++ p.bytes.take k := hk
  refine ⟨⟨h.holds.reader_eq, h.holds.headerSize_eq, ?_, rfl⟩,
    h.frugal.write (by decide) p.fits faults, ?_⟩
  · rw [hunread]
    exact h.holds.size.append _
  · have hshort := h.short
    have htake := List.length_take_le' k p.bytes
    have hfits := p.fits
    rw [hunread, List.length_append]
    omega

variable (hheader : headerLength headerSize ≤ limit) (hlimit : ∀ hd, (reader hd).toInt ≤ limit)

include hheader hlimit

/-- A turn of `read`: the parser takes a message off, or leaves less than one there. -/
theorem Brief.returnOr (h : Brief headerSize reader limit dataSize c) {faults : TurnFaults}
    (hparses : ParsesTurn faults) {arrivals : List Arrival}
    {goOn : Pulled (EchoClient × List Arrival) Byte Failure}
    (hclean : Clean (EchoClient.returnOr (c.unpack faults) arrivals goOn).trace)
    (hgoOn : Clean goOn.trace → Brief headerSize reader limit 0 (c.unpack faults).2 →
      Brief headerSize reader limit dataSize goOn.state.1) :
    Brief headerSize reader limit dataSize
      (EchoClient.returnOr (c.unpack faults) arrivals goOn).state.1 := by
  have hfrugal := frugal_unpack h.frugal faults
  rw [unpack_of_parses hparses] at hclean hgoOn hfrugal ⊢
  rcases h.holds.unpacked rfl with ⟨hok, hmore, hc⟩ | ⟨hbad, -, -⟩ | ⟨m, rest, hok, hne, hnext, hc⟩
  · rw [returnOr_empty hok] at hclean ⊢
    refine hgoOn hclean ⟨⟨hc.reader_eq, hc.headerSize_eq, hc.size, rfl⟩, hfrugal, ?_⟩
    rw [hc.unread]
    exact short_of_more hheader hlimit hmore
  · rw [returnOr_error hbad] at hclean
    exact absurd (List.mem_singleton_self _) hclean
  · rw [returnOr_message hok hne]
    refine ⟨⟨hc.reader_eq, hc.headerSize_eq, hc.size, rfl⟩, hfrugal, ?_⟩
    have hlength := congrArg List.length (Codec.append_of_next hnext)
    have hshort := h.short
    rw [List.length_append] at hlength
    rw [hc.unread]
    omega

/-- The loop of `read` begins with less than a message. -/
theorem Brief.readLoop (arrivals : List Arrival) (hparses : ∀ a ∈ arrivals, ParsesArrival a)
    (h : Brief headerSize reader limit 0 c) (hclean : Clean (c.readLoop arrivals).trace) :
    Brief headerSize reader limit dataSize (c.readLoop arrivals).state.1 := by
  induction arrivals generalizing c with
  | nil => exact h.mono
  | cons a arrivals ih =>
    cases a with
    | error ev => exact h.mono
    | piece p faults =>
      have hw := h.written p faults.write
      have hp : ParsesTurn faults := hparses _ (List.mem_cons_self ..)
      rw [EchoClient.readLoop, h.holds.reader_eq, take_data_filled] at hclean ⊢
      dsimp only at hclean ⊢
      split
      · exact hw
      · rename_i hcount
        rw [if_neg hcount] at hclean
        exact hw.returnOr hheader hlimit hp (fun hbad => hclean (.tail _ (.tail _ hbad)))
          fun hclean' h' => ih (fun a ha => hparses a (List.mem_cons_of_mem _ ha)) h' hclean'

theorem Brief.read (h : Brief headerSize reader limit dataSize c) {faults : TurnFaults}
    (hp : ParsesTurn faults) {arrivals : List Arrival}
    (hparses : ∀ a ∈ arrivals, ParsesArrival a) (hclean : Clean (c.read faults arrivals).trace) :
    Brief headerSize reader limit dataSize (c.read faults arrivals).state.1 :=
  h.returnOr hheader hlimit hp hclean fun hclean' h' =>
    h'.readLoop hheader hlimit arrivals hparses hclean'

end Brief

/-- **The memory of a client**: whatever the program does with a client that was just made,
however the sockets cut the stream and whatever write fails, the client has less than its
header or its longest message, whichever is longer, and four times `_data`, as long as the
parser gets its memory and no bad header was met. -/
theorem client_memory_lt (headerSize : Int32) (reader : List Byte → Int32) {limit : Nat}
    (hlimit : ∀ hd, (reader hd).toInt ≤ limit)
    (data : { data : List Byte // data.length = dataSize }) (fresh : Nat → Nat → Byte)
    (uses : List Use) (hparses : ∀ u ∈ uses, u.Parses)
    (hclean : ∀ es ∈ (run use (create headerSize (some reader) data fresh, []) uses).2,
      Clean es) :
    (run use (create headerSize (some reader) data fresh, []) uses).1.1.buffer.memory <
      max (headerLength (clampHeaderSize headerSize)) limit + 4 * dataSize := by
  have hlimit' : ∀ hd, (reader hd).toInt ≤
      (max (headerLength (clampHeaderSize headerSize)) limit : Nat) := by
    intro hd
    have hle := hlimit hd
    omega
  have hrun := run_history use Clean
    (fun uses _ s => (∀ u ∈ uses, u.Parses) →
      Brief (clampHeaderSize headerSize) reader
        (max (headerLength (clampHeaderSize headerSize)) limit) dataSize s.1 ∧
        ∀ a ∈ s.2, ParsesArrival a)
    (fun uses _ s u ih hclean hparses => ?_)
    (fun _ => ⟨⟨holds_create headerSize reader data fresh, Buffer.frugal_create fresh,
      Nat.lt_of_lt_of_le (by decide : 0 < dataSize) (Nat.le_add_left ..)⟩,
      fun a ha => (List.not_mem_nil ha).elim⟩) uses hclean hparses
  · have hmemory := hrun.1.frugal.memory_le
    have hshort := hrun.1.short
    rw [unread] at hshort
    omega
  · obtain ⟨hs, harrivals⟩ := ih fun u h => hparses u (List.mem_append_left _ h)
    have hu := hparses u (List.mem_append_right _ (List.mem_singleton_self u))
    cases u with
    | read faults =>
      exact ⟨hs.read (Nat.le_max_left ..) hlimit' hu harrivals hclean,
        fun a ha => harrivals a (read_arrivals s.1 faults s.2 ha)⟩
    | connect arrivals => exact ⟨hs, hu⟩

/-- A byte tells a length of at most 255. -/
theorem toInt_byte_le (b : Byte) : (Int32.ofNat b.toNat).toInt ≤ 255 := by
  have hlt := b.toNat_lt
  rw [Int32.toInt_ofNat_of_lt (by omega)]
  omega

theorem client_memory_lt_two :
    (run use (lengthClient, []) twoConnections).1.1.buffer.memory <
      max (headerLength (clampHeaderSize 1)) 255 + 4 * dataSize :=
  client_memory_lt 1 (fun hd => Int32.ofNat (hd.headD 0).toNat)
    (fun hd => toInt_byte_le (hd.headD 0)) ⟨List.replicate dataSize 0, length_zeros⟩
    (fun _ _ => 0) twoConnections (by decide) (by decide +kernel)

end EchoClient

end Net

end KgCpp
