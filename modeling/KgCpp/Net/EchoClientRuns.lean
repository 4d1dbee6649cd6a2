import KgCpp.Net.EchoClientRetry

/-!
# A client and its connections

A program calls `read` again and again; the socket fails, allocations fail, and the
program closes the socket and connects again. `close` and `connect` leave the buffer and
the pending size as they are, and so does a `read` that throws.

`run_keeps` says what comes of it: what `read` returns are the messages of one stream,
made of all the pieces of all the connections but those for which it threw `BAD_ALLOC`.
So nothing is lost or handed out twice; and a connection that breaks within a message
shifts what the next one brings.
-/

namespace KgCpp.Net.EchoClient

open Lib Bytes

/-- What a program does with a client: it calls `read`, with the allocations that fail in its
first turn; or it closes the socket and connects again, where `read_some` comes back with
`arrivals`. -/
inductive Use where
  | read (faults : TurnFaults)
  | connect (arrivals : List Arrival)

/-- One such step, with what happens. -/
def use (s : EchoClient × List Arrival) :
    Use → (EchoClient × List Arrival) × List (Event Byte Failure)
  | .read faults => ((s.1.read faults s.2).state, (s.1.read faults s.2).trace)
  | .connect arrivals => ((s.1, arrivals), [])

/-- The bytes received, but for the pieces that did not get into the buffer. -/
def kept : List (Event Byte Failure) → List Byte
  | [] => []
  | .received p :: es =>
    (if es.head? = some (.threw (.code codeBadAlloc)) then [] else p) ++ kept es
  | _ :: es => kept es

/-- The messages returned. -/
def handedOut (es : List (Event Byte Failure)) : List (List Byte) :=
  es.filterMap fun
    | .returned m => some m
    | _ => none

/-- A write that gets its fragment gets the byte array, too: without it the fragment takes
nothing, and `write` says nothing of it. -/
def WholeWrite (faults : WriteFaults) : Prop :=
  faults.array = true → faults.object = true ∨ faults.node = true

instance (faults : WriteFaults) : Decidable (WholeWrite faults) := by
  unfold WholeWrite
  infer_instance

/-- The writes of what arrives are such. -/
def WholeArrival : Arrival → Prop
  | .piece _ faults => WholeWrite faults.write
  | .error _ => True

instance (a : Arrival) : Decidable (WholeArrival a) := by
  cases a <;> unfold WholeArrival <;> infer_instance

/-- What a program connects to brings such. -/
def Use.Whole : Use → Prop
  | .read _ => True
  | .connect arrivals => ∀ a ∈ arrivals, WholeArrival a

instance (u : Use) : Decidable u.Whole := by
  cases u <;> unfold Use.Whole <;> infer_instance

/-- No bad header was met. -/
def Clean (es : List (Event Byte Failure)) : Prop := .threw (.code codeBadMsgHeader) ∉ es

instance (es : List (Event Byte Failure)) : Decidable (Clean es) := by
  unfold Clean
  infer_instance

/-! ## What happened -/

section Events

variable {es es' : List (Event Byte Failure)}

/-- What happened does not end with a piece of which nothing more is known. -/
def Settled (es : List (Event Byte Failure)) : Prop := ∀ p, es.getLast? ≠ some (.received p)

theorem kept_append (h : Settled es) (es' : List (Event Byte Failure)) :
    kept (es ++ es') = kept es ++ kept es' := by
  induction es with
  | nil => rfl
  | cons e es ih =>
    cases es with
    | nil =>
      cases e with
      | received p => exact absurd rfl (h p)
      | _ => rfl
    | cons e' es =>
      have hrest := ih fun p => h p
      cases e with
      | received p =>
        show (if _ then _ else _) ++ kept (e' :: es ++ es') = ((if _ then _ else _) ++ _) ++ _
        rw [hrest, List.append_assoc]
        rfl
      | _ => exact hrest

/-- What happened begins, and not with a piece thrown away. -/
def Begins (es : List (Event Byte Failure)) : Prop :=
  ∃ e es', es = e :: es' ∧ e ≠ .threw (.code codeBadAlloc)

theorem handedOut_append (es es' : List (Event Byte Failure)) :
    handedOut (es ++ es') = handedOut es ++ handedOut es' := List.filterMap_append

theorem Settled.append (h : Settled es) (h' : Settled es') : Settled (es ++ es') := by
  intro p hlast
  rw [List.getLast?_append] at hlast
  cases hes' : es'.getLast? with
  | none =>
    rw [hes', Option.none_or] at hlast
    exact h p hlast
  | some e =>
    rw [hes', Option.some_or] at hlast
    exact h' p (hes'.trans hlast)

end Events

/-! ## One turn -/

section Turn

variable (headerSize : Int32) (reader : List Byte → Int32)

/-- What a client goes through that had `s` unread, until it is `c`: it is in the middle of
the stream that is longer by what was kept, and has handed out what it took off. -/
structure Advances (s : List Byte) (es : List (Event Byte Failure)) (c : EchoClient) : Prop where
  holds : Holds headerSize reader c c.unread
  progress : ∀ received out, (echoCodec headerSize reader).Progress received out s →
    (echoCodec headerSize reader).Progress (received ++ kept es) (out ++ handedOut es) c.unread
  position : s ++ kept es = (handedOut es).flatten ++ c.unread
  settled : Settled es

variable {headerSize reader} {c c' : EchoClient} {s : List Byte}
  {es es' : List (Event Byte Failure)}

/-- Nothing was kept or handed out. -/
theorem advances_quiet (hc : Holds headerSize reader c s) (hkept : kept es = [])
    (hout : handedOut es = []) (hsettled : Settled es) : Advances headerSize reader s es c := by
  obtain rfl := hc.unread
  refine ⟨hc, fun received out h => ?_, ?_, hsettled⟩
  · rw [hkept, hout, List.append_nil, List.append_nil]
    exact h
  · rw [hkept, hout, List.append_nil]
    rfl

/-- The message at the front is handed out. -/
theorem advances_returned {m rest : List Byte}
    (hnext : (echoCodec headerSize reader).next s = .message m rest)
    (hc : Holds headerSize reader c rest) : Advances headerSize reader s [.returned m] c := by
  obtain rfl := hc.unread
  have hout : handedOut [.returned m] = [m] := rfl
  refine ⟨hc, fun received out h => ?_, ?_, fun p hp => by cases hp⟩
  · rw [show kept [.returned m] = [] from rfl, List.append_nil]
    exact h.message hnext
  · rw [show kept [.returned m] = [] from rfl, List.append_nil, hout, List.flatten_singleton,
      Codec.append_of_next hnext]

theorem Advances.trans (h : Advances headerSize reader s es c)
    (h' : Advances headerSize reader c.unread es' c') :
    Advances headerSize reader s (es ++ es') c' where
  holds := h'.holds
  progress := by
    intro received out hprogress
    rw [kept_append h.settled, handedOut_append, ← List.append_assoc, ← List.append_assoc]
    exact h'.progress _ _ (h.progress received out hprogress)
  position := by
    rw [kept_append h.settled, handedOut_append, List.flatten_append, ← List.append_assoc,
      h.position, List.append_assoc, h'.position, List.append_assoc]
  settled := h.settled.append h'.settled

/-- A piece gets into the buffer, and the client goes on from there. -/
theorem Advances.received {p : List Byte} (h : Advances headerSize reader (s ++ p) es c)
    (hbegins : Begins es) : Advances headerSize reader s (.asked :: .received p :: es) c := by
  obtain ⟨e, es, rfl, he⟩ := hbegins
  have hkept : kept (.asked :: .received p :: e :: es) = p ++ kept (e :: es) := by
    show kept (.received p :: e :: es) = _
    rw [kept, List.head?_cons, if_neg fun heq => he (Option.some.inj heq)]
  refine ⟨h.holds, fun received out hprogress => ?_, ?_, ?_⟩
  · rw [hkept, ← List.append_assoc]
    exact h.progress _ _ (hprogress.append p)
  · rw [hkept, ← List.append_assoc]
    exact h.position
  · exact h.settled

/-- What the parser can do, whatever fails. -/
theorem unpack_any (hc : Holds headerSize reader c c.unread) (faults : TurnFaults) :
    (∃ c', c.unpack faults = (.ok [], c') ∧ Holds headerSize reader c' c.unread) ∨
      (∃ m rest c', c.unpack faults = (.ok m, c') ∧
        (echoCodec headerSize reader).next c.unread = .message m rest ∧
        Holds headerSize reader c' rest) ∨
      (c.unpack faults).1 = .error (.code codeBadMsgHeader) := by
  obtain ⟨hr, rfl, hsize, -⟩ := hc
  have hstays : ∀ n, SizeOf c.headerSize reader n c.unread →
      Holds c.headerSize reader (c.withSize n) c.unread := fun n hn => ⟨hr, rfl, hn, rfl⟩
  by_cases hbad : (echoCodec c.headerSize reader).next c.unread = .bad
  · -- the header is not read when its array is not allocated
    obtain ⟨hhd, hlength⟩ := Codec.next_eq_bad.mp hbad
    have hrejects : BadSize c.headerSize (reader (c.unread.take (headerLength c.headerSize))) := by
      by_contra hgood
      have hsome := next_of_good hhd rfl hgood
      rw [hbad] at hsome
      split at hsome <;> cases hsome
    have hnone : c.size = -1 := by
      refine hsize.resolve_right fun ⟨hgood, _, hn⟩ => hgood ?_
      rw [← hn]
      exact hrejects
    rcases unpack_of_none hnone hhd faults with ⟨hunpack, -⟩ | hunpack
    · exact .inl ⟨c, hunpack, hstays c.size (.inl hnone)⟩
    · rw [hunpack, readHeader, hr]
      dsimp only
      rw [if_pos ((badSize_iff c.headerSize_nonneg _).mpr hrejects)]
      exact .inr (.inr rfl)
  · have hcases := unpackAsking_cases hr hsize hbad faults
    have hfst : (c.unpackAsking faults).1 = c.unpack faults := c.unpackAsking_fst faults
    rw [← hfst]
    generalize c.unpackAsking faults = r at hcases
    cases hcases with
    | stays hn _ _ => exact .inl ⟨_, rfl, hstays _ hn⟩
    | @takes m k _ hnext _ _ =>
      exact .inr (.inl ⟨m, _, _, rfl, hnext, hr, rfl, .inl rfl, c.unread_drained k⟩)

/-- A write that is all or nothing. -/
theorem written_whole (c : EchoClient) {bytes : List Byte} (hne : bytes ≠ []) {faults : WriteFaults}
    (hwhole : WholeWrite faults) :
    ((c.buffer.write bytes faults).1 = bytes.length ∧
        (c.written bytes faults).unread = c.unread ++ bytes) ∨
      (bytes.length ≠ (c.buffer.write bytes faults).1 ∧
        (c.written bytes faults).unread = c.unread) := by
  have hpos : 0 < bytes.length := List.length_pos_of_ne_nil hne
  have hw := Buffer.write_spec c.wf hne faults
  show (_ ∧ (c.buffer.write bytes faults).2.content = c.buffer.content ++ bytes) ∨
    _ ∧ (c.buffer.write bytes faults).2.content = c.buffer.content
  generalize c.buffer.write bytes faults = r at hw
  cases hw with
  | all _ _ hcont => exact .inl ⟨rfl, hcont⟩
  | nothing _ _ _ hcont => exact .inr ⟨hpos.ne', hcont⟩
  | part _ hlose _ =>
    obtain ⟨-, -, hobject, harray, hnode⟩ := hlose
    rcases hwhole harray with h | h
    · rw [hobject] at h
      cases h
    · rw [hnode] at h
      cases h

/-- A turn of `read`: the parser first, and then, unless it returns or throws, `goOn`. -/
theorem advances_returnOr (hc : Holds headerSize reader c c.unread) (faults : TurnFaults)
    {arrivals : List Arrival} {goOn : Pulled (EchoClient × List Arrival) Byte Failure}
    (hclean : Clean (returnOr (c.unpack faults) arrivals goOn).trace)
    (hgoOn : Clean goOn.trace → Holds headerSize reader (c.unpack faults).2 c.unread →
      Advances headerSize reader c.unread goOn.trace goOn.state.1 ∧ Begins goOn.trace) :
    Advances headerSize reader c.unread (returnOr (c.unpack faults) arrivals goOn).trace
        (returnOr (c.unpack faults) arrivals goOn).state.1 ∧
      Begins (returnOr (c.unpack faults) arrivals goOn).trace := by
  rcases unpack_any hc faults with ⟨c', hunpack, hc'⟩ | ⟨m, rest, c', hunpack, hnext, hc'⟩ | hbad
  · rw [hunpack] at hgoOn hclean ⊢
    rw [returnOr_empty rfl] at hclean ⊢
    exact hgoOn hclean hc'
  · have hne : m.length ≠ 0 := Nat.ne_of_gt (Codec.isMessage_of_next hnext).length_pos
    rw [hunpack, returnOr_message rfl hne]
    exact ⟨advances_returned hnext hc', _, [], rfl, fun h => by cases h⟩
  · rw [returnOr_error hbad] at hclean
    exact absurd (List.mem_singleton_self _) hclean

/-- The loop of `read`. -/
theorem advances_readLoop (arrivals : List Arrival) (hwhole : ∀ a ∈ arrivals, WholeArrival a)
    (hc : Holds headerSize reader c s) (hclean : Clean (c.readLoop arrivals).trace) :
    Advances headerSize reader s (c.readLoop arrivals).trace (c.readLoop arrivals).state.1 ∧
      Begins (c.readLoop arrivals).trace := by
  induction arrivals generalizing c s with
  | nil =>
    exact ⟨advances_quiet hc rfl rfl (fun p hp => by cases hp), _, _, rfl, fun h => by cases h⟩
  | cons a arrivals ih =>
    have hrest : ∀ a ∈ arrivals, WholeArrival a := fun a' h => hwhole a' (List.mem_cons_of_mem a h)
    cases a with
    | error ev =>
      exact ⟨advances_quiet hc rfl rfl (fun p hp => by cases hp), _, _, rfl, fun h => by cases h⟩
    | piece p faults =>
      obtain rfl := hc.unread
      have hp : p.bytes ≠ [] := List.ne_nil_of_length_pos p.pos
      have hw := written_whole (c.filled p) hp (hwhole _ (List.mem_cons_self ..))
      rw [readLoop, hc.reader_eq, take_data_filled] at hclean ⊢
      dsimp only at hclean ⊢
      refine ⟨?_, _, _, rfl, fun h => by cases h⟩
      rcases hw with ⟨hcount, hunread⟩ | ⟨hcount, hunread⟩
      · have hcount' : ¬ p.bytes.length ≠ (c.buffer.write p.bytes faults.write).1 :=
          not_not.mpr hcount.symm
        rw [if_neg hcount'] at hclean ⊢
        have hc' : Holds headerSize reader ((c.filled p).written p.bytes faults.write)
            ((c.filled p).written p.bytes faults.write).unread := by
          refine ⟨hc.reader_eq, hc.headerSize_eq, ?_, rfl⟩
          rw [hunread]
          exact hc.size.append p.bytes
        have hturn := advances_returnOr hc' faults (fun h => hclean (.tail _ (.tail _ h)))
          fun hclean' hc'' => ih hrest hc'' hclean'
        rw [hunread] at hturn
        exact hturn.1.received hturn.2
      · have hcount' : p.bytes.length ≠ (c.buffer.write p.bytes faults.write).1 := hcount
        rw [if_pos hcount']
        refine advances_quiet ⟨hc.reader_eq, hc.headerSize_eq, ?_, hunread⟩ rfl rfl fun p hp => by
          cases hp
        rw [hunread]
        exact hc.size

theorem advances_read (hc : Holds headerSize reader c c.unread) {arrivals : List Arrival}
    (hwhole : ∀ a ∈ arrivals, WholeArrival a) (faults : TurnFaults)
    (hclean : Clean (c.read faults arrivals).trace) :
    Advances headerSize reader c.unread (c.read faults arrivals).trace
      (c.read faults arrivals).state.1 :=
  (advances_returnOr hc faults hclean fun hclean' hc' =>
    advances_readLoop arrivals hwhole hc' hclean').1

end Turn

/-! ## Runs -/

section Runs

theorem returnOr_arrivals {r : Except Failure (List Byte) × EchoClient} {arrivals : List Arrival}
    {goOn : Pulled (EchoClient × List Arrival) Byte Failure} (h : goOn.state.2 <:+ arrivals) :
    (returnOr r arrivals goOn).state.2 <:+ arrivals := by
  unfold returnOr
  split
  · exact List.suffix_refl _
  · split
    · exact List.suffix_refl _
    · exact h

theorem readLoop_arrivals (c : EchoClient) (arrivals : List Arrival) :
    (c.readLoop arrivals).state.2 <:+ arrivals := by
  induction arrivals generalizing c with
  | nil => exact List.suffix_refl _
  | cons a arrivals ih =>
    cases a with
    | error ev => exact List.suffix_cons ..
    | piece p faults =>
      rw [readLoop]
      dsimp only
      split
      · split <;> exact List.suffix_cons ..
      · split
        · exact List.suffix_cons ..
        · exact (returnOr_arrivals (ih _)).trans (List.suffix_cons ..)

/-- A call leaves arrivals that were there. -/
theorem read_arrivals (c : EchoClient) (faults : TurnFaults) (arrivals : List Arrival) :
    (c.read faults arrivals).state.2 ⊆ arrivals :=
  (returnOr_arrivals (readLoop_arrivals _ arrivals)).subset

variable (headerSize : Int32) (reader : List Byte → Int32)

/-- What has happened to a client that is now `c`. -/
structure Keeps (es : List (Event Byte Failure)) (c : EchoClient) : Prop where
  /-- The messages returned are the first ones of the bytes kept. -/
  messages : handedOut es ++ (echoCodec headerSize reader).messages c.unread =
    (echoCodec headerSize reader).messages (kept es)
  /-- What was not returned is still there. -/
  position : (handedOut es).flatten ++ c.unread = kept es
  /-- A message that is there is returned by the next call that nothing fails in, and the
  socket is not asked. -/
  next : ∀ m rest, (echoCodec headerSize reader).next c.unread = .message m rest →
    ∀ arrivals, (c.read .none arrivals).answer = .returned m ∧
      (c.read .none arrivals).trace = [.returned m]

variable {headerSize reader}

theorem keeps_of_advances {es : List (Event Byte Failure)} {c : EchoClient}
    (h : Advances headerSize reader [] es c) : Keeps headerSize reader es c where
  messages := (h.progress [] [] Codec.progress_nil).messages
  position := h.position.symm
  next := by
    intro m rest hnext arrivals
    rw [read, readerMessage]
    rcases h.holds.unpacked rfl with ⟨-, hmore, -⟩ | ⟨-, hbad, -⟩ | ⟨m', rest', hok, hne, hmsg, -⟩
    · cases hmore.symm.trans hnext
    · cases hbad.symm.trans hnext
    · cases hmsg.symm.trans hnext
      rw [returnOr_message hok hne]
      exact ⟨rfl, rfl⟩

end Runs

/-- **One stream over all connections**: whatever the program does with a client that was
just made, whatever the sockets bring and whatever fails, as long as no bad header was met. -/
theorem run_keeps (headerSize : Int32) (reader : List Byte → Int32)
    (data : { data : List Byte // data.length = dataSize }) (fresh : Nat → Nat → Byte)
    (uses : List Use) (hwhole : ∀ u ∈ uses, u.Whole)
    (hclean : ∀ es ∈ (run use (create headerSize (some reader) data fresh, []) uses).2,
      Clean es) :
    Keeps (clampHeaderSize headerSize) reader
      (run use (create headerSize (some reader) data fresh, []) uses).2.flatten
      (run use (create headerSize (some reader) data fresh, []) uses).1.1 := by
  have hrun := run_history use Clean
    (fun uses outs s => (∀ u ∈ uses, u.Whole) →
      Advances (clampHeaderSize headerSize) reader [] outs.flatten s.1 ∧ ∀ a ∈ s.2, WholeArrival a)
    (fun uses outs s u ih hclean hwhole => ?_)
    (fun _ => ⟨advances_quiet (holds_create headerSize reader data fresh) rfl rfl
      (fun p hp => by cases hp), fun a ha => (List.not_mem_nil ha).elim⟩) uses hclean
  · exact keeps_of_advances (hrun hwhole).1
  · obtain ⟨hs, harrivals⟩ := ih fun u h => hwhole u (List.mem_append_left _ h)
    have hu := hwhole u (List.mem_append_right _ (List.mem_singleton_self u))
    rw [List.flatten_append, List.flatten_singleton]
    cases u with
    | read faults =>
      exact ⟨hs.trans (advances_read hs.holds harrivals faults hclean),
        fun a ha => harrivals a (read_arrivals s.1 faults s.2 ha)⟩
    | connect arrivals =>
      refine ⟨?_, hu⟩
      show Advances _ _ _ (outs.flatten ++ []) s.1
      rw [List.append_nil]
      exact hs

/-- The first piece does not get into the buffer, and the connection breaks within the
second message: the message of the next connection is returned as `[3, 8, 2]`. -/
def twoConnections : List Use :=
  [.connect [.piece ⟨[5, 5], by decide, by decide⟩ ⟨⟨true, false, false⟩, false, false⟩,
      .piece ⟨[2, 7, 3, 8], by decide, by decide⟩ .none, .error 2],
    .read .none, .read .none, .read .none,
    .connect [.piece ⟨[2, 9], by decide, by decide⟩ .none], .read .none]

/-- A client for messages that begin with their length. -/
def lengthClient : EchoClient :=
  create 1 (some fun hd => Int32.ofNat (hd.headD 0).toNat)
    ⟨List.replicate dataSize 0, length_zeros⟩ fun _ _ => 0

theorem run_keeps_two : Keeps (clampHeaderSize 1) (fun hd => Int32.ofNat (hd.headD 0).toNat)
    (run use (lengthClient, []) twoConnections).2.flatten
    (run use (lengthClient, []) twoConnections).1.1 :=
  run_keeps 1 _ _ _ twoConnections (by decide) (by decide +kernel)

end KgCpp.Net.EchoClient
