import TypeStream.Proofs.CoupledReaders
import TypeStream.Proofs.PlainDecoders
import TypeStream.Proofs.RecordFronts

/-!
# Frames that hold a table

Which options a run has matters to a frame in two places: where padding is passed over, and where
the names of a table are read.  So frames that do not hold a table, or one whose names are read
alike, decode to the same under options with the same alignment.

## Key results

- `DecoderTable.outcome_of_kind`: a frame is read by the decoder of its leaf kind
- `DecoderTable.outcome_of_table`, `DecoderTable.outcome_of_shape`: frames of tables and shapes
- `DecoderTable.Registered.outcome_congr`: options that read the names of a frame alike
-/

namespace TypeStream

open Cursor.Coupling (finish)

/-- The cursor at the body of a frame. -/
def Frame.Placed.body (o : Options) (f : Placed) : Cursor :=
  (Cursor.ofBytes f.payload (f.offset + 2) o.alignment).advance 2

/-- The leaf kind at the front of a payload, which has at least two bytes. -/
def Frame.kindOf (payload : List UInt8) : UInt16 :=
  UInt16.ofNat (LittleEndian.decode (payload.take 2))

/-- A payload is its kind and what stands behind that. -/
theorem Frame.encode_kindOf {payload : List UInt8} (h : 2 ≤ payload.length) :
    LittleEndian.encode 2 (kindOf payload).toNat ++ payload.drop 2 = payload := by
  have htake : (payload.take 2).length = 2 := List.length_take_of_le h
  have hencode := LittleEndian.encode_decode (payload.take 2)
  rw [htake] at hencode
  rw [kindOf, LittleEndian.toNat_ofNat_decode htake, hencode, List.take_append_drop]

/-- Two bytes are a leaf kind. -/
theorem Frame.exists_kind {payload : List UInt8} (h : 2 ≤ payload.length) :
    ∃ kind : UInt16, payload = LittleEndian.encode 2 kind.toNat ++ payload.drop 2 :=
  ⟨kindOf payload, (encode_kindOf h).symm⟩

/-- A body whose names are read alike is decoded alike, whatever else the options are. -/
theorem VirtualTable.decode_congr (index : TypeIndex) {o o' : Options} {s : Reader.State}
    (h : ∀ front padding, s.cursor.unread = front ++ padding → IsFront front →
      ∀ c : Cursor, c.unread = front.drop 16 →
        NameBlock.decode o.charset o.naming c = NameBlock.decode o'.charset o'.naming c) :
    decode ⟨index, o⟩ s = decode ⟨index, o'⟩ s := by
  obtain ⟨front, padding, hs, hfront⟩ | ⟨e, s', _, hdecode⟩ := front_or_cutOff index s
  · obtain ⟨owner, base, pointerOffset, hdecode⟩ := decode_of_front hfront
    rw [hdecode ⟨index, o⟩ s padding hs, hdecode ⟨index, o'⟩ s padding hs]
    dsimp only
    rw [h front padding hs hfront _ rfl]
  · rw [hdecode, hdecode]

namespace DecoderTable

variable (t : DecoderTable) (o : Options) {f : Frame.Placed} {kind : UInt16} {body : List UInt8}

/-- The decoder of tables reads frames with the payload given, and all of the front of a table is
    there: its fields and the name block that they announce. -/
def HoldsTable (payload front : List UInt8) : Prop :=
  ∃ kind padding, payload = LittleEndian.encode 2 kind.toNat ++ (front ++ padding) ∧
    t.decoder kind = .virtualTable ∧ VirtualTable.IsFront front

/-- A frame without two bytes has no leaf kind. -/
theorem outcome_of_short (h : f.payload.length < 2) :
    t.outcome o f =
      ⟨none, [], .error (.truncated "u16" (f.offset + 2) 2 f.payload.length)⟩ := by
  have hbytes : Cursor.bytes "u16" 2 (.ofBytes f.payload (f.offset + 2) o.alignment) = _ :=
    Cursor.bytes_of_lt h
  unfold outcome readFrame
  simp only [Cursor.u16, bind, EStateM.bind, hbytes]
  rfl

/-- The body of a frame stands behind its kind. -/
theorem unread_body (h : f.payload = LittleEndian.encode 2 kind.toNat ++ body) :
    (f.body o).unread = body := by
  show f.payload.drop 2 = body
  rw [h]
  exact List.drop_left' (LittleEndian.length_encode 2 kind.toNat)

/-- A frame is read by the decoder of its leaf kind. -/
theorem outcome_of_kind (h : f.payload = LittleEndian.encode 2 kind.toNat ++ body) :
    t.outcome o f =
      match t.decoder kind ⟨f.index, o⟩ (.ofCursor (f.body o)) with
      | .error e s => ⟨some kind, s.references, .error e⟩
      | .ok record s => ⟨some kind, s.references, finish f.index record s.cursor⟩ := by
  have hkind : Cursor.u16 (.ofBytes f.payload (f.offset + 2) o.alignment) =
      .ok kind (f.body o) := by
    rw [Cursor.Reads.u16 kind _ body h, LittleEndian.length_encode]
    rfl
  unfold outcome readFrame
  rw [hkind]
  rfl

variable {t o} {o' : Options}

/-- Past its leaf kind, a frame that holds a table is told by the front of the table, its own place
    and length, and the options. -/
theorem outcome_of_table {front : List UInt8} (hkind : t.decoder kind = .virtualTable)
    (hfront : VirtualTable.IsFront front) :
    ∃ owner base pointerOffset, ∀ (o : Options) (f : Frame.Placed) (padding : List UInt8),
      f.payload = LittleEndian.encode 2 kind.toNat ++ (front ++ padding) →
        t.outcome o f = ⟨some kind, [⟨f.index, owner⟩, ⟨f.index, base⟩],
          match NameBlock.decode o.charset o.naming
            (.ofBytes (front.drop 16) ((f.body o).offset + 16) (f.body o).alignment) with
          | .error e _ => .error e
          | .ok names _ => finish f.index (.virtualTable ⟨owner, base, pointerOffset, names⟩)
              ((f.body o).advance front.length).padded⟩ := by
  obtain ⟨owner, base, pointerOffset, hdecode⟩ := VirtualTable.decode_of_front hfront
  refine ⟨owner, base, pointerOffset, fun o f padding h => ?_⟩
  have hbody := hdecode ⟨f.index, o⟩ (.ofCursor (f.body o)) padding (unread_body o h)
  rw [outcome_of_kind t o h, hkind]
  simp only [Decoder.virtualTable, bind, EStateM.bind, hbody]
  dsimp only [Reader.State.ofCursor]
  cases NameBlock.decode o.charset o.naming
    (.ofBytes (front.drop 16) ((f.body o).offset + 16) (f.body o).alignment) <;> rfl

/-- Past its leaf kind, a frame that holds a shape is told by the front of the shape and its own
    place and length. -/
theorem outcome_of_shape {front : List UInt8} (hkind : t.decoder kind = .tableShape)
    (hfront : TableShape.IsFront front) :
    ∃ shape, ∀ (o : Options) (f : Frame.Placed) (padding : List UInt8),
      f.payload = LittleEndian.encode 2 kind.toNat ++ (front ++ padding) →
        t.outcome o f = ⟨some kind, [], finish f.index (.tableShape shape)
          ((f.body o).advance front.length).padded⟩ := by
  obtain ⟨shape, hdecode⟩ := TableShape.decode_of_front hfront
  refine ⟨shape, fun o f padding h => ?_⟩
  have hbody := hdecode ⟨f.index, o⟩ (.ofCursor (f.body o)) padding (unread_body o h)
  rw [outcome_of_kind t o h, hkind]
  simp only [Decoder.tableShape, bind, EStateM.bind, hbody]
  rfl

/-- Under options with the same alignment, a frame decodes to the same if the names of the table
    that it may hold are read alike. -/
theorem Registered.outcome_congr (ht : t.Registered) (halign : o.alignment = o'.alignment)
    (hnames : ∀ front, t.HoldsTable f.payload front → ∀ c : Cursor, c.unread = front.drop 16 →
      NameBlock.decode o.charset o.naming c = NameBlock.decode o'.charset o'.naming c) :
    t.outcome o f = t.outcome o' f := by
  by_cases hshort : f.payload.length < 2
  · rw [outcome_of_short t o hshort, outcome_of_short t o' hshort]
  obtain ⟨kind, hpayload⟩ := Frame.exists_kind (Nat.le_of_not_lt hshort)
  -- The alignment is the same, so the body starts at the same cursor.
  have hbody : f.body o = f.body o' := by
    unfold Frame.Placed.body
    rw [halign]
  have hdecoder : t.decoder kind ⟨f.index, o⟩ (.ofCursor (f.body o')) =
      t.decoder kind ⟨f.index, o'⟩ (.ofCursor (f.body o')) := by
    -- The options matter to the decoder of tables only.
    rcases ht.decoder_cases kind with htable | hplain
    · have hdecode : VirtualTable.decode ⟨f.index, o⟩ (.ofCursor (f.body o')) =
          VirtualTable.decode ⟨f.index, o'⟩ (.ofCursor (f.body o')) := by
        apply VirtualTable.decode_congr
        intro front padding hs hfront
        refine hnames front ⟨kind, padding, ?_, htable, hfront⟩
        rw [← hs]
        exact hpayload
      rw [htable]
      show EStateM.bind _ _ _ = EStateM.bind _ _ _
      unfold EStateM.bind
      rw [hdecode]
    · rw [hplain.options_eq f.index o o']
  rw [outcome_of_kind t o hpayload, outcome_of_kind t o' hpayload, hbody, hdecoder]

end DecoderTable

end TypeStream
