import KgCpp.Lib.Framing
import KgCpp.Types

/-!
# The message format of the echo classes

`echo_server_t` and `echo_client_t` read the same streams: a message starts with
a header of `headerSize` bytes, the user's `reader` tells the length of the
whole message from it, and a length below one or below `headerSize` is an error.
A server or client that refines this format is one that parses the same
messages as any other that does.
-/

namespace KgCpp.Net

open Lib

/-- The constructors' treatment of `headerSize`. -/
def clampHeaderSize (headerSize : Int32) : Int32 := if headerSize > -1 then headerSize else 0

theorem clampHeaderSize_nonneg (headerSize : Int32) :
    0 ≤ (clampHeaderSize headerSize).toInt := by
  unfold clampHeaderSize
  split
  · rename_i h
    have hlt : (-1 : Int32).toInt < headerSize.toInt := Int32.lt_iff_toInt_lt.mp h
    have hneg : (-1 : Int32).toInt = -1 := rfl
    omega
  · exact Int.le_refl _

/-- The length of a header, as a length. -/
def headerLength (headerSize : Int32) : Nat := headerSize.toInt.toNat

theorem sizeOfInt_headerSize {headerSize : Int32} (h : 0 ≤ headerSize.toInt) :
    sizeOfInt headerSize = headerLength headerSize :=
  sizeOfInt_of_nonneg h

/-- A message length that the echo classes reject. -/
def BadSize (headerSize n : Int32) : Prop :=
  n.toInt < headerLength headerSize ∨ n.toInt < 1

instance (headerSize n : Int32) : Decidable (BadSize headerSize n) := by
  unfold BadSize
  infer_instance

/-- The comparison the source makes. -/
theorem badSize_iff {headerSize : Int32} (h : 0 ≤ headerSize.toInt) (n : Int32) :
    (n < headerSize ∨ n < 1) ↔ BadSize headerSize n := by
  have hone : n < 1 ↔ n.toInt < 1 := Int32.lt_iff_toInt_lt
  rw [BadSize, hone, Int32.lt_iff_toInt_lt, headerLength]
  omega

/-- A good size is a length. -/
theorem toNat_of_good {headerSize n : Int32} (h : ¬ BadSize headerSize n) :
    0 < n.toInt.toNat ∧ headerLength headerSize ≤ n.toInt.toNat ∧
      sizeOfInt n = n.toInt.toNat ∧ n ≠ -1 := by
  rw [BadSize] at h
  refine ⟨by omega, by omega, sizeOfInt_of_nonneg (by omega), ?_⟩
  rintro rfl
  have hneg : (-1 : Int32).toInt = -1 := rfl
  omega

/-- The message format. -/
def echoCodec (headerSize : Int32) (reader : List Byte → Int32) : Codec Byte where
  header := headerLength headerSize
  length hd :=
    if BadSize headerSize (reader hd) then none else some (reader hd).toInt.toNat
  header_le := fun {hd n} h => by
    split at h
    · cases h
    · rename_i hgood
      cases h
      exact (toNat_of_good hgood).2.1
  pos := fun {hd n} h => by
    split at h
    · cases h
    · rename_i hgood
      cases h
      exact (toNat_of_good hgood).1

section Next

variable {headerSize : Int32} {reader : List Byte → Int32} {s : List Byte}

theorem next_of_short (h : s.length < headerLength headerSize) :
    (echoCodec headerSize reader).next s = .more :=
  if_pos h

theorem next_of_bad (hhd : headerLength headerSize ≤ s.length)
    (hbad : BadSize headerSize (reader (s.take (headerLength headerSize)))) :
    (echoCodec headerSize reader).next s = .bad :=
  Codec.next_eq_bad.mpr ⟨hhd, if_pos hbad⟩

theorem next_of_good {n : Int32} (hhd : headerLength headerSize ≤ s.length)
    (hn : reader (s.take (headerLength headerSize)) = n) (hgood : ¬ BadSize headerSize n) :
    (echoCodec headerSize reader).next s =
      if s.length < n.toInt.toNat then .more
      else .message (s.take n.toInt.toNat) (s.drop n.toInt.toNat) := by
  refine Codec.next_of_length (c := echoCodec headerSize reader) hhd ?_
  show (if BadSize headerSize (reader (s.take (headerLength headerSize))) then none
    else some (reader (s.take (headerLength headerSize))).toInt.toNat) = _
  rw [hn, if_neg hgood]

end Next

/-- The size field of a parser that may hold the size of the message at the
front of `unread`: nothing, or the size `reader` told. -/
def SizeOf (headerSize : Int32) (reader : List Byte → Int32) (size : Int32)
    (unread : List Byte) : Prop :=
  size = -1 ∨
    (¬ BadSize headerSize size ∧ headerLength headerSize ≤ unread.length ∧
      reader (unread.take (headerLength headerSize)) = size)

/-- Such a size field stays right when bytes arrive. -/
theorem SizeOf.append {headerSize : Int32} {reader : List Byte → Int32} {size : Int32}
    {unread : List Byte} (h : SizeOf headerSize reader size unread) (bytes : List Byte) :
    SizeOf headerSize reader size (unread ++ bytes) := by
  rcases h with h | ⟨hgood, hhd, hr⟩
  · exact .inl h
  · refine .inr ⟨hgood, by rw [List.length_append]; omega, ?_⟩
    rw [List.take_append_of_le_length hhd]
    exact hr

end KgCpp.Net
