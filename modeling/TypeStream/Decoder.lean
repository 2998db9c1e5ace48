import TypeStream.OrderedMap
import TypeStream.Record

/-! # Decoders

A decoder reads the body of a record.  Which one is used depends on the leaf kind, by a table that
can be extended and changed; a leaf kind without a decoder is kept as an unknown record. -/

namespace TypeStream

/-- Reads the body of a record. -/
abbrev Decoder : Type := Context → Reader Record

namespace Decoder

/-- The decoder of virtual function tables. -/
def virtualTable : Decoder := fun ctx => return .virtualTable (← VirtualTable.decode ctx)

/-- The decoder of shapes. -/
def tableShape : Decoder := fun ctx => return .tableShape (← TableShape.decode ctx)

/-- The decoder of bodies made of a 16-bit leaf kind and two bytes.  The number read as leaf kind
    is also reported as a reference. -/
def pair : Decoder := fun ctx => do
  let kind ← Cursor.u16
  Reader.report ⟨ctx.index, ⟨kind.toUInt32⟩⟩
  let bytes ← Cursor.bytes "pair" 2
  return .unknown kind bytes

/-- The decoder of leaves that must not occur: it reports that the record refers to itself, and
    fails. -/
def refuse : Decoder := fun ctx => do
  Reader.report ⟨ctx.index, ctx.index⟩
  throw (.invalidArgument "decoder refused")

/-- Keeps the rest of a body as an unknown record. -/
def keep (kind : UInt16) : Decoder := fun _ s =>
  Reader.ofRead (return .unknown kind (← Cursor.bytes "record body" s.cursor.remaining)) s

/-- Keeping a body takes all of it and never fails. -/
theorem keep_apply (kind : UInt16) (ctx : Context) (s : Reader.State) :
    keep kind ctx s = .ok (.unknown kind s.cursor.unread)
      { s with cursor := s.cursor.advance s.cursor.remaining } := by
  have hbytes : Cursor.bytes "record body" s.cursor.remaining s.cursor =
      .ok s.cursor.unread (s.cursor.advance s.cursor.remaining) := by
    rw [Cursor.bytes_of_le (Nat.le_refl _), Cursor.remaining, List.take_length]
  show Reader.ofRead (Cursor.bytes "record body" s.cursor.remaining >>= fun bytes =>
    pure (Record.unknown kind bytes)) s = _
  simp only [Reader.ofRead, bind, EStateM.bind, hbytes, pure, EStateM.pure]

end Decoder

/-- Which decoder reads which leaf kind. -/
structure DecoderTable where
  decoders : OrderedMap UInt16 Decoder

namespace DecoderTable

/-- The table without decoders. -/
def empty : DecoderTable := ⟨.empty⟩

/-- Makes a decoder that of a leaf kind, instead of any other. -/
def insert (t : DecoderTable) (kind : UInt16) (decoder : Decoder) : DecoderTable :=
  ⟨t.decoders.insert kind decoder⟩

/-- The table of the leaf kinds that this library knows. -/
def standard : DecoderTable :=
  (empty.insert LeafKind.virtualTable .virtualTable).insert LeafKind.tableShape .tableShape

/-- Whether a leaf kind has a decoder. -/
def supports (t : DecoderTable) (kind : UInt16) : Bool := t.decoders.contains kind

/-- The leaf kinds that have a decoder, in ascending order. -/
def kinds (t : DecoderTable) : List UInt16 := t.decoders.keys

/-- The decoder of a leaf kind. -/
def decoder (t : DecoderTable) (kind : UInt16) : Decoder :=
  (t.decoders.find? kind).getD (.keep kind)

theorem decoder_insert (t : DecoderTable) (kind k : UInt16) (d : Decoder) :
    (t.insert kind d).decoder k = if k = kind then d else t.decoder k := by
  simp only [decoder, insert, OrderedMap.find?_insert]
  by_cases h : k = kind
  · simp [h]
  · have : rank k ≠ rank kind := fun hr => h (Ranked.rank_injective hr)
    simp [h, this]

end DecoderTable

end TypeStream
