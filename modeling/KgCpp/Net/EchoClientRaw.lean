import KgCpp.Net.EchoClient

/-!
# The client without a reader

Without a `reader`, `read` is meant to hand out what `read_some` brings, piece by
piece. It runs the parser first: with a header size of 0 that calls the reader
there is not. With another header size it makes a slice of the size of the piece
and returns it without copying the piece into it.

`raw_iff`: the pieces come through exactly when none is asked for, or the header
size is positive and the memory of every new slice happens to hold its piece.
-/

namespace KgCpp.Net.EchoClient

open Lib Bytes

/-- Reading as many pieces as come, on a fresh client without a reader: what the
calls of `read` answer. -/
def rawReads (headerSize : Int32) (data : { data : List Byte // data.length = dataSize })
    (fresh : Nat → Nat → Byte) (pieces : List Piece) : List (Answer Byte Failure) :=
  (calls (fun s : EchoClient × List Arrival => s.1.read .none s.2) pieces.length
    (create headerSize none data fresh, pieces.map (Arrival.piece · .none))).1

/-- Every call returns its piece, and so the calls return the stream. -/
structure PassesThrough (headerSize : Int32)
    (data : { data : List Byte // data.length = dataSize }) (fresh : Nat → Nat → Byte)
    (pieces : List Piece) : Prop where
  answers : rawReads headerSize data fresh pieces = pieces.map fun p => .returned p.bytes
  stream : (returnedOf (rawReads headerSize data fresh pieces)).flatten =
    (pieces.map Piece.bytes).flatten

/-- The memory of the slice made for each piece holds the piece. -/
def HoldsAlready (fresh : Nat → Nat → Byte) (pieces : List Piece) : Prop :=
  ∀ k p, pieces[k]? = some p → createArray fresh k p.bytes.length = p.bytes

section Raw

variable {c : EchoClient}

/-- A client without a reader, before and between its reads. -/
structure Raw (c : EchoClient) : Prop where
  reader : c.reader = none
  size : c.size = -1
  empty : c.buffer.size = 0

/-- With a header size of 0 the parser calls the reader. -/
theorem read_of_zero (h : c.Raw) (hzero : c.headerSize = 0) (arrivals : List Arrival) :
    (c.read .none arrivals).answer = .threw .badFunctionCall := by
  have hcall : c.readerMessage none .none = (.error .badFunctionCall, c) := by
    rw [readerMessage, unpack, if_pos h.size, if_pos hzero, readHeader, h.reader]
  rw [read, hcall, returnOr_error rfl]

/-- With another one it waits for a header, and `read` makes a slice. -/
theorem read_of_pos (h : c.Raw) (hne : c.headerSize ≠ 0) (p : Piece)
    (arrivals : List Arrival) :
    (c.read .none (.piece p .none :: arrivals)).answer =
        .returned (createArray c.fresh c.slices p.bytes.length) ∧
      (c.read .none (.piece p .none :: arrivals)).state =
        ({ c.filled p with slices := c.slices + 1 }, arrivals) := by
  have hpos : 0 < headerLength c.headerSize := by
    have hnonneg := c.headerSize_nonneg
    have htoInt : c.headerSize.toInt ≠ 0 := fun h0 => hne (Int32.toInt_inj.mp h0)
    rw [headerLength]
    omega
  have hcall : c.readerMessage none .none = (.ok [], c) := by
    rw [readerMessage, unpack, if_pos h.size, if_neg hne, if_pos]
    rw [h.empty, sizeOfInt_headerSize c.headerSize_nonneg]
    exact hpos
  rw [read, hcall, returnOr_empty rfl, readLoop, h.reader]
  exact ⟨rfl, rfl⟩

theorem calls_raw (h : c.Raw) (hne : c.headerSize ≠ 0) (pieces : List Piece) :
    (calls (fun s : EchoClient × List Arrival => s.1.read .none s.2) pieces.length
        (c, pieces.map (Arrival.piece · .none))).1 =
      pieces.mapIdx fun k p => .returned (createArray c.fresh (c.slices + k) p.bytes.length) := by
  induction pieces generalizing c with
  | nil => rfl
  | cons p pieces ih =>
    -- the first call takes the first piece, and leaves a client of the same kind
    obtain ⟨hanswer, hstate⟩ := read_of_pos h hne p (pieces.map (Arrival.piece · .none))
    have hraw : Raw { c.filled p with slices := c.slices + 1 } := ⟨h.reader, h.size, h.empty⟩
    rw [List.length_cons, List.map_cons, calls_returned _ hanswer, hstate, ih hraw hne,
      List.mapIdx_cons]
    refine congrArg _ (List.mapIdx_eq_mapIdx_iff.mpr fun k hk => ?_)
    rw [show c.slices + 1 + k = c.slices + (k + 1) by omega]
    rfl

end Raw

theorem raw_create (headerSize : Int32) (data : { data : List Byte // data.length = dataSize })
    (fresh : Nat → Nat → Byte) : (create headerSize none data fresh).Raw := ⟨rfl, rfl, rfl⟩

theorem clampHeaderSize_eq_zero {headerSize : Int32} :
    clampHeaderSize headerSize = 0 ↔ headerSize.toInt ≤ 0 := by
  have hneg : (-1 : Int32).toInt = -1 := rfl
  have hzero : headerSize = 0 ↔ headerSize.toInt = 0 := Int32.toInt_inj.symm
  unfold clampHeaderSize
  split
  · rename_i h
    have hlt : (-1 : Int32).toInt < headerSize.toInt := Int32.lt_iff_toInt_lt.mp h
    rw [hzero]
    omega
  · rename_i h
    have hle : ¬ (-1 : Int32).toInt < headerSize.toInt :=
      fun hlt => h (Int32.lt_iff_toInt_lt.mpr hlt)
    exact iff_of_true rfl (by omega)

/-- A header size of 0, and something to read: the first call throws. -/
theorem rawReads_of_zero {headerSize : Int32}
    {data : { data : List Byte // data.length = dataSize }} {fresh : Nat → Nat → Byte}
    {p : Piece} {pieces : List Piece} (h : headerSize.toInt ≤ 0) :
    rawReads headerSize data fresh (p :: pieces) = [.threw .badFunctionCall] := by
  have hthrew := read_of_zero (raw_create headerSize data fresh) (clampHeaderSize_eq_zero.mpr h)
    ((p :: pieces).map (Arrival.piece · .none))
  rw [rawReads, List.length_cons, calls_stop _ (fun m hm => by cases hthrew.symm.trans hm), hthrew]

/-- A positive header size: the calls return what the slices happen to hold. -/
theorem rawReads_of_pos {headerSize : Int32}
    {data : { data : List Byte // data.length = dataSize }} {fresh : Nat → Nat → Byte}
    {pieces : List Piece} (h : 0 < headerSize.toInt) :
    rawReads headerSize data fresh pieces =
      pieces.mapIdx fun k p => .returned (createArray fresh k p.bytes.length) := by
  have hne : clampHeaderSize headerSize ≠ 0 := fun h0 => by
    have := clampHeaderSize_eq_zero.mp h0
    omega
  rw [rawReads, calls_raw (raw_create headerSize data fresh) hne]
  refine List.mapIdx_eq_mapIdx_iff.mpr fun k hk => ?_
  rw [show (create headerSize none data fresh).slices + k = k from Nat.zero_add k]
  rfl

/-- **When raw data passes through**: every call of `read` on a client without a
reader returns its piece, for every header size and every sequence of pieces, if
and only if there are no pieces, or the header size is positive and the memory of
the new slices holds the pieces already. -/
theorem raw_iff (headerSize : Int32) (data : { data : List Byte // data.length = dataSize })
    (fresh : Nat → Nat → Byte) (pieces : List Piece) :
    PassesThrough headerSize data fresh pieces ↔
      pieces = [] ∨ (0 < headerSize.toInt ∧ HoldsAlready fresh pieces) := by
  have hraw := raw_create headerSize data fresh
  have hiff : PassesThrough headerSize data fresh pieces ↔
      rawReads headerSize data fresh pieces = pieces.map fun p => .returned p.bytes := by
    refine ⟨PassesThrough.answers, fun h => ⟨h, ?_⟩⟩
    have hmap : (pieces.map fun p => (.returned p.bytes : Answer Byte Failure)) =
        (pieces.map Piece.bytes).map .returned := List.map_map.symm
    rw [h, hmap, returnedOf_map]
  rw [hiff]
  rcases pieces with _ | ⟨p, pieces⟩
  · exact iff_of_true rfl (.inl rfl)
  rcases lt_or_ge 0 headerSize.toInt with hpos | hle
  · rw [rawReads_of_pos hpos, List.mapIdx_eq_iff, HoldsAlready]
    simp only [List.getElem?_map]
    constructor
    · refine fun h => .inr ⟨hpos, fun k q hq => ?_⟩
      have hk := h k
      rw [hq] at hk
      exact (Answer.returned.inj (Option.some.inj hk)).symm
    · rintro (h | ⟨-, hholds⟩) k
      · cases h
      · cases hq : (p :: pieces)[k]? with
        | none => rfl
        | some q =>
          rw [Option.map_some, Option.map_some, hholds k q hq]
  · rw [rawReads_of_zero hle]
    refine iff_of_false (fun h => by cases h) ?_
    rintro (h | ⟨hpos, -⟩)
    · cases h
    · omega

/-- A header size of 4 and one piece: the slice has its size, and holds what the
memory held. -/
theorem raw_not_copied : ¬ ∀ (headerSize : Int32)
    (data : { data : List Byte // data.length = dataSize }) (fresh : Nat → Nat → Byte)
    (pieces : List Piece), 0 ≤ headerSize.toInt →
      PassesThrough headerSize data fresh pieces := by
  intro hall
  have h := hall 4 ⟨List.replicate dataSize 0, List.length_replicate⟩ (fun _ _ => 0)
    [⟨[7], by decide, by decide⟩] (by decide)
  have hfirst := congrArg List.head? h.answers
  rw [rawReads_of_pos (by decide)] at hfirst
  exact absurd hfirst (by decide)

end KgCpp.Net.EchoClient
