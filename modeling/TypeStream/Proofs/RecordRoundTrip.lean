import TypeStream.Proofs.CharsetRoundTrip
import TypeStream.Proofs.Padding
import TypeStream.Proofs.Runs

/-!
# Reading back what is written

The body of a record, written as `Record.encode?` says and padded to a boundary, is decoded to the
record again.  `Frame.Fits` collects what this asks for: names that the character set can write,
slots with codes of four bits, a leaf kind without a decoder for an unknown record, and padding that
ends at the next boundary.

## Key results

- `NameBlock.decode_block`: a block of names is read as these names
- `DecoderTable.outcome_of_fits`: a frame is decoded to the record that it was written for
-/

namespace TypeStream

/-! ### Padding -/

namespace Cursor

/-- Padding up to a boundary at the end is passed over. -/
theorem align_of_boundary {c : Cursor} (hlt : c.remaining < c.alignment)
    (hboundary : c.alignment ∣ c.offset + c.remaining) :
    align c = .ok c.remaining (c.advance c.remaining) := by
  simp only [align, padding_eq hlt hboundary, Nat.min_self]

/-- Behind `n` bytes, the padding up to the end is passed over. -/
theorem align_advance_of_boundary {c : Cursor} {n padding : Nat}
    (hsize : c.remaining = n + padding) (hlt : padding < c.alignment)
    (hboundary : c.alignment ∣ c.offset + c.remaining) :
    align (c.advance n) = .ok padding (c.advance c.remaining) := by
  have hleft : (c.advance n).remaining = padding := by
    rw [remaining_advance, hsize, Nat.add_sub_cancel_left]
  have halign : align (c.advance n) =
      .ok (c.advance n).remaining ((c.advance n).advance (c.advance n).remaining) := by
    -- What is left is the padding, and it ends at the boundary.
    apply align_of_boundary
    · rw [hleft]
      exact hlt
    · rw [hleft, offset_advance, Nat.add_assoc, ← hsize]
      exact hboundary
  rw [halign, hleft, advance_advance, ← hsize]

theorem atEnd_advance_remaining (c : Cursor) : (c.advance c.remaining).atEnd = true := by
  rw [atEnd_iff, remaining_advance, Nat.sub_self]

/-! ### Name blocks -/

/-- Strings without zero bytes, each ended by one, are read one by one. -/
theorem terminatedStrings_of_pieces (charset : Charset) {pieces : List (List UInt8)}
    (hpieces : ∀ piece ∈ pieces, 0 ∉ piece) {c : Cursor}
    (hc : c.unread = pieces.flatMap (· ++ [0])) :
    terminatedStrings charset c = .ok (pieces.map charset.decode) (c.advance c.remaining) := by
  induction pieces generalizing c with
  | nil =>
    have hend : c.atEnd = true := by simp [atEnd, hc]
    have hremaining : c.remaining = 0 := atEnd_iff.1 hend
    rw [terminatedStrings_of_atEnd hend, hremaining]
    rfl
  | cons piece pieces ih =>
    -- The first piece is read up to its zero byte, the others by induction.
    have hunread : c.unread = piece ++ 0 :: pieces.flatMap (· ++ [0]) := by simp [hc]
    have hend : ¬ c.atEnd = true := by simp [atEnd, hunread]
    have hfirst : terminatedString charset c =
        .ok (charset.decode piece) (c.advance (piece.length + 1)) :=
      terminatedString_of_append hunread (hpieces piece List.mem_cons_self)
    have hrest : (c.advance (piece.length + 1)).unread = pieces.flatMap (· ++ [0]) := by
      simp [hunread]
    have hothers := ih (fun q hq => hpieces q (List.mem_cons_of_mem _ hq)) hrest
    have hle : piece.length + 1 ≤ c.remaining := by
      rw [remaining, hunread]
      simp
    rw [terminatedStrings_of_ok hend hfirst, hothers]
    simp only [remaining_advance, advance_advance, Nat.add_sub_cancel' hle, List.map_cons]

end Cursor

namespace NameBlock

/-- All names of a block, in order. -/
def names (b : NameBlock) : List String := b.tableName.toList ++ b.methods

/-- The names can stand in a block: without a table's name there are none, if that is allowed. -/
def Writable (o : Options) (b : NameBlock) : Prop :=
  (b.tableName = none → b.methods = [] ∧ o.naming = .optional) ∧
    ∀ name ∈ b.names, o.charset.Writes name

/-- The bytes of names that the character set can write. -/
def encode (charset : Charset) (b : NameBlock) : List UInt8 :=
  (b.names.map charset.encode).flatMap (· ++ [0])

variable {o : Options} {b : NameBlock}

/-- A block that can be written has bytes. -/
theorem encode?_of_writable (h : b.Writable o) :
    b.encode? o.charset = some (b.encode o.charset) := by
  have hnames : (b.tableName.toList ++ b.methods).mapM o.charset.encode? =
      some (b.names.map o.charset.encode) :=
    mapM_eq_some_map fun name hname => Charset.encode?_of_writes (h.2 name hname)
  simp only [encode?, hnames, Option.map_some]
  rfl

/-- A block is read as the names that it was written for. -/
theorem decode_block (h : b.Writable o) {c : Cursor} (hc : c.unread = b.encode o.charset) :
    decode o.charset o.naming c = .ok b (c.advance c.remaining) := by
  have hpieces : ∀ piece ∈ b.names.map o.charset.encode, 0 ∉ piece := by
    intro piece hpiece
    obtain ⟨name, hname, rfl⟩ := List.mem_map.1 hpiece
    exact Charset.zero_notMem_encode (h.2 name hname)
  -- Each piece is decoded to the name that it was made of.
  have hnames : (b.names.map o.charset.encode).map o.charset.decode = b.names := by
    rw [List.map_map]
    refine (List.map_congr_left fun name hname => ?_).trans (List.map_id _)
    exact Charset.decode_encode (h.2 name hname)
  have hstrings := Cursor.terminatedStrings_of_pieces o.charset hpieces hc
  rw [hnames] at hstrings
  simp only [decode, bind, EStateM.bind, hstrings]
  obtain ⟨tableName, methods⟩ := b
  -- Without a table name there are no names at all.
  cases tableName with
  | none =>
    obtain ⟨rfl, hnaming⟩ := h.1 rfl
    simp [names, ofStrings?, hnaming, pure, EStateM.pure]
  | some tableName => simp [names, ofStrings?, pure, EStateM.pure]

end NameBlock

/-! ### Bodies -/

namespace Reader

variable {α β : Type}

/-- What goes on behind a read starts from the bytes behind it. -/
theorem Reads.bind_apply {read : Reader α} {a : α} {taken : List UInt8} {reported : List Reference}
    (h : Reads read a taken reported) (next : α → Reader β) {s : State} {rest : List UInt8}
    (hs : s.cursor.unread = taken ++ rest) :
    (read >>= next) s =
      next a ⟨s.cursor.advance taken.length, s.references ++ reported⟩ := by
  show EStateM.bind read next s = _
  simp only [EStateM.bind, h s rest hs]

end Reader

namespace VirtualTable

/-- The part of a body behind the length of the name block. -/
def decodeNames (ctx : Context) (owner base : TypeIndex) (pointerOffset : Int32) (length : Nat) :
    Reader VirtualTable := do
  let block ← Cursor.block length
  let names ← Reader.within block (NameBlock.decode ctx.options.charset ctx.options.naming)
  let _ ← Cursor.align
  return { owner, base, pointerOffset, names }

/-- The fields in front of the name block. -/
def header (owner base : TypeIndex) (pointerOffset : Int32) (length : UInt32) : List UInt8 :=
  LittleEndian.encode 4 owner.toNat ++ (LittleEndian.encode 4 base.toNat ++
    (LittleEndian.encode 4 pointerOffset.toUInt32.toNat ++ LittleEndian.encode 4 length.toNat))

/-- Behind the fields in front of the name block, the owner and the base are reported. -/
theorem decode_header (ctx : Context) {owner base : TypeIndex} {pointerOffset : Int32}
    {length : UInt32} {s : Reader.State} {rest : List UInt8}
    (hs : s.cursor.unread = header owner base pointerOffset length ++ rest) :
    decode ctx s = decodeNames ctx owner base pointerOffset length.toNat
      ⟨s.cursor.advance 16, s.references ++ [⟨ctx.index, owner⟩, ⟨ctx.index, base⟩]⟩ := by
  have howner := Reader.Reads.reference ctx owner
  have hbase := Reader.Reads.reference ctx base
  have hpointer := Reader.Reads.ofRead (.i32 pointerOffset)
  have hlength := Reader.Reads.ofRead (.u32 length)
  simp only [header, List.append_assoc] at hs
  show (Reader.reference ctx >>= fun owner => Reader.reference ctx >>= fun base =>
    Reader.ofRead Cursor.i32 >>= fun pointerOffset => Reader.ofRead Cursor.u32 >>= fun length =>
      decodeNames ctx owner base pointerOffset length.toNat) s = _
  rw [howner.bind_apply _ hs, hbase.bind_apply _ (by simp [hs]; rfl),
    hpointer.bind_apply _ (by simp [hs]; rfl), hlength.bind_apply _ (by simp [hs]; rfl)]
  simp

/-- Behind the names stands padding up to the next boundary. -/
theorem decodeNames_of_boundary (ctx : Context) (owner base : TypeIndex) (pointerOffset : Int32)
    {names : NameBlock} (hnames : names.Writable ctx.options) {s : Reader.State}
    {padding : List UInt8}
    (hs : s.cursor.unread = names.encode ctx.options.charset ++ padding)
    (hpadding : padding.length < s.cursor.alignment)
    (hboundary : s.cursor.alignment ∣ s.cursor.offset + s.cursor.remaining) :
    decodeNames ctx owner base pointerOffset (names.encode ctx.options.charset).length s =
      .ok ⟨owner, base, pointerOffset, names⟩
        { s with cursor := s.cursor.advance s.cursor.remaining } := by
  have hsize : s.cursor.remaining =
      (names.encode ctx.options.charset).length + padding.length := by
    simp [Cursor.remaining, hs]
  have hblock := Cursor.block_of_le (c := s.cursor)
    (n := (names.encode ctx.options.charset).length) (by omega)
  -- The window that the length carves out holds the names and nothing else.
  have hwindow : (s.cursor.window (names.encode ctx.options.charset).length).unread =
      names.encode ctx.options.charset := by simp [Cursor.window, hs]
  have hread := NameBlock.decode_block hnames hwindow
  have halign := Cursor.align_advance_of_boundary hsize hpadding hboundary
  show (Reader.ofRead (Cursor.block _) >>= fun block =>
    Reader.within block (NameBlock.decode ctx.options.charset ctx.options.naming) >>= fun names =>
      Reader.ofRead Cursor.align >>= fun _ =>
        pure (VirtualTable.mk owner base pointerOffset names)) s = _
  simp only [bind, EStateM.bind, Reader.ofRead, hblock, Reader.within, hread, halign, pure,
    EStateM.pure]

end VirtualTable

namespace TableShape

/-- The slots have codes of four bits, and their number fits into two bytes. -/
def Writable (s : TableShape) : Prop :=
  s.slots.length ≤ 0xffff ∧ ∀ slot ∈ s.slots, ∃ code : UInt8, code.toNat < 16 ∧
    slot = SlotKind.ofCode code

/-- Two codes share a byte. -/
theorem length_pack (codes : List UInt8) : (pack codes).length = (codes.length + 1) / 2 := by
  induction codes using pack.induct with
  | case1 => rfl
  | case2 => simp [pack]
  | case3 a b rest ih =>
    simp only [pack, List.length_cons, ih]
    omega

/-- Slots with codes of four bits are packed and unpacked again. -/
theorem map_ofCode_unpack_pack {slots : List SlotKind}
    (hcodes : ∀ slot ∈ slots, ∃ code : UInt8, code.toNat < 16 ∧ slot = SlotKind.ofCode code) :
    ((unpack (pack (slots.map SlotKind.code))).take slots.length).map SlotKind.ofCode = slots := by
  have hsmall : ∀ code ∈ slots.map SlotKind.code, code.toNat < 16 := by
    intro code hcode
    -- The kinds of the shape come from codes of four bits, so packing them loses nothing.
    obtain ⟨slot, hslot, rfl⟩ := List.mem_map.1 hcode
    obtain ⟨code, hlt, rfl⟩ := hcodes slot hslot
    rwa [SlotKind.code_ofCode]
  have htake := take_unpack_pack hsmall
  rw [List.length_map] at htake
  rw [htake, List.map_map]
  refine (List.map_congr_left fun slot hslot => ?_).trans (List.map_id _)
  obtain ⟨code, _, rfl⟩ := hcodes slot hslot
  show SlotKind.ofCode (SlotKind.ofCode code).code = SlotKind.ofCode code
  rw [SlotKind.code_ofCode]

/-- The part of a body behind the number of its slots. -/
def decodeCodes (count : Nat) : Reader TableShape := do
  let packed ← Cursor.bytes "vtshape descriptors" ((count + 1) / 2)
  let _ ← Cursor.align
  return ⟨((unpack packed).take count).map SlotKind.ofCode⟩

/-- The first two bytes of a body are the number of its slots. -/
theorem decode_count (ctx : Context) {number rest : List UInt8} (hnumber : number.length = 2)
    {s : Reader.State} (hs : s.cursor.unread = number ++ rest) :
    decode ctx s = decodeCodes (LittleEndian.decode number)
      ⟨s.cursor.advance 2, s.references⟩ := by
  have hread := Reader.Reads.ofRead (Cursor.Reads.u16_of_length hnumber)
  show (Reader.ofRead Cursor.u16 >>= fun count => decodeCodes count.toNat) s = _
  rw [hread.bind_apply _ hs, hnumber, LittleEndian.toNat_ofNat_decode hnumber, List.append_nil]

/-- A shape is read back, with padding up to the next boundary. -/
theorem decode_of_boundary (ctx : Context) {shape : TableShape} (hshape : shape.Writable)
    {s : Reader.State} {padding : List UInt8} (hs : s.cursor.unread = shape.encode ++ padding)
    (hpadding : padding.length < s.cursor.alignment)
    (hboundary : s.cursor.alignment ∣ s.cursor.offset + s.cursor.remaining) :
    decode ctx s = .ok shape { s with cursor := s.cursor.advance s.cursor.remaining } := by
  obtain ⟨hcount, hcodes⟩ := hshape
  -- The number of slots fits into its two bytes.
  have hnumber : LittleEndian.decode (LittleEndian.encode 2 shape.slots.length) =
      shape.slots.length := by
    apply LittleEndian.decode_encode
    simp only [LittleEndian.capacity]
    omega
  have hunpack := map_ofCode_unpack_pack hcodes
  have hpacked := Reader.Reads.ofRead (Cursor.Reads.bytes "vtshape descriptors"
    (length_pack (shape.slots.map SlotKind.code)))
  rw [List.length_map] at hpacked
  simp only [encode, List.append_assoc] at hs
  have hsize : s.cursor.remaining =
      2 + (pack (shape.slots.map SlotKind.code)).length + padding.length := by
    simp only [Cursor.remaining, hs, List.length_append, LittleEndian.length_encode]
    omega
  have halign := Cursor.align_advance_of_boundary hsize hpadding hboundary
  rw [decode_count ctx (LittleEndian.length_encode 2 _) hs, hnumber]
  show (Reader.ofRead (Cursor.bytes "vtshape descriptors" _) >>= fun packed =>
    Reader.ofRead Cursor.align >>= fun _ => pure (TableShape.mk
      (((unpack packed).take shape.slots.length).map SlotKind.ofCode))) _ = _
  rw [hpacked.bind_apply _ (by simp [hs]; rfl)]
  simp only [Cursor.advance_advance, List.append_nil, bind, EStateM.bind, Reader.ofRead, halign,
    hunpack, pure, EStateM.pure]

end TableShape

/-! ### Records -/

namespace Record

/-- The record can be written under the options given, and is decoded again by the decoders that
    this library knows. -/
def Writable (o : Options) : Record → Prop
  | virtualTable table => table.names.Writable o
  | tableShape shape => shape.Writable
  | unknown kind _ => kind ≠ LeafKind.virtualTable ∧ kind ≠ LeafKind.tableShape

/-- The bytes of a record that can be written, in front of its padding. -/
def encode (charset : Charset) (r : Record) : List UInt8 := (r.encode? charset).getD []

/-- The references that the record with an index reports while it is decoded. -/
def reported (i : TypeIndex) : Record → List Reference
  | virtualTable table => [⟨i, table.owner⟩, ⟨i, table.base⟩]
  | _ => []

/-- A record that can be written has bytes. -/
theorem encode?_of_writable {o : Options} {r : Record} (h : r.Writable o) :
    r.encode? o.charset = some (r.encode o.charset) := by
  cases r with
  | virtualTable table =>
    have hnames := NameBlock.encode?_of_writable h
    simp [encode, encode?, VirtualTable.encode?, hnames]
  | tableShape shape => rfl
  | unknown kind bytes => rfl

/-- A table whose length fits into two bytes is written as the fields in front of its names, the
    number of bytes of the names, and the names. -/
theorem encode_virtualTable {o : Options} {table : VirtualTable} (h : table.names.Writable o)
    (hlength : (encode o.charset (.virtualTable table)).length ≤ Frame.maxLength) :
    ∃ length : UInt32, length.toNat = (table.names.encode o.charset).length ∧
      encode o.charset (.virtualTable table) =
        VirtualTable.header table.owner table.base table.pointerOffset length ++
          table.names.encode o.charset := by
  have hnames := NameBlock.encode?_of_writable h
  simp only [encode, encode?, VirtualTable.encode?, hnames, Option.map_some, Option.getD_some,
    List.length_append, LittleEndian.length_encode, Frame.maxLength] at hlength
  -- The block of a record that fits into a frame is short enough for its length field.
  refine ⟨UInt32.ofNat (table.names.encode o.charset).length, ?_, ?_⟩
  · rw [UInt32.toNat_ofNat']
    omega
  · have htoNat : (UInt32.ofNat (table.names.encode o.charset).length).toNat =
        (table.names.encode o.charset).length := by
      rw [UInt32.toNat_ofNat']
      omega
    simp [encode, encode?, VirtualTable.encode?, hnames, VirtualTable.header, htoNat]

end Record

/-- A record and the padding behind it make up a frame that can stand in a stream: its length fits
    into two bytes, and it ends at the first boundary behind the record.  The bytes of an unknown
    record hold its padding. -/
structure Frame.Fits (o : Options) (r : Record) (padding : List UInt8) : Prop where
  writable : r.Writable o
  padding_lt : padding.length < o.alignment
  padding_nil : r.isUnknown = true → padding = []
  length_le : 2 + (r.encode o.charset).length + padding.length ≤ Frame.maxLength
  boundary : o.alignment ∣ 4 + (r.encode o.charset).length + padding.length

/-- The payload of the frame of a record that can be written. -/
def Frame.payload (charset : Charset) (r : Record) (padding : List UInt8) : List UInt8 :=
  LittleEndian.encode 2 r.kind.toNat ++ r.encode charset ++ padding

/-- A record that fits into a frame has a frame. -/
theorem Frame.ofRecord?_of_fits {o : Options} {r : Record} {padding : List UInt8}
    (h : Fits o r padding) :
    ofRecord? o.charset r padding = some (Frame.encode (payload o.charset r padding)) := by
  simp only [ofRecord?, Record.encode?_of_writable h.writable, Option.map_some]
  rfl

namespace DecoderTable

/-- What is neither a table nor a shape is kept as it is. -/
theorem standard_of_ne {kind : UInt16} (htable : kind ≠ LeafKind.virtualTable)
    (hshape : kind ≠ LeafKind.tableShape) : standard.decoder kind = .keep kind := by
  simp only [standard, decoder_insert, htable, hshape, ↓reduceIte]
  rfl

/-- The decoder of its leaf kind reads a record back, up to the boundary behind its padding. -/
theorem decoder_of_fits {o : Options} {r : Record} {padding : List UInt8}
    (h : Frame.Fits o r padding) (i : TypeIndex) {c : Cursor} (halign : c.alignment = o.alignment)
    (hc : c.unread = r.encode o.charset ++ padding)
    (hboundary : c.alignment ∣ c.offset + c.remaining) :
    standard.decoder r.kind ⟨i, o⟩ (.ofCursor c) =
      .ok r ⟨c.advance c.remaining, r.reported i⟩ := by
  have hpadding : padding.length < c.alignment := halign ▸ h.padding_lt
  have hlength := h.length_le
  cases r with
  | virtualTable table =>
    obtain ⟨length, htoNat, hencode⟩ := Record.encode_virtualTable h.writable (by omega)
    have hheader : (VirtualTable.header table.owner table.base table.pointerOffset
        length).length = 16 := by
      simp [VirtualTable.header]
    rw [hencode, List.append_assoc] at hc
    have hrest : (c.advance 16).unread = table.names.encode o.charset ++ padding := by
      rw [Cursor.unread_advance, hc, ← hheader, List.drop_left]
    have hsize : 16 ≤ c.remaining := by
      rw [Cursor.remaining, hc, List.length_append, hheader]
      omega
    have hnames := VirtualTable.decodeNames_of_boundary ⟨i, o⟩ table.owner table.base
      table.pointerOffset h.writable
      (s := ⟨c.advance 16, [⟨i, table.owner⟩, ⟨i, table.base⟩]⟩) hrest hpadding
      (by
        rw [Cursor.offset_advance, Cursor.remaining_advance, Nat.add_assoc,
          Nat.add_sub_cancel' hsize]
        exact hboundary)
    have hdecode := VirtualTable.decode_header ⟨i, o⟩ (s := .ofCursor c) hc
    simp only [Reader.State.ofCursor, List.nil_append, htoNat] at hdecode
    -- The fields take the first 16 bytes; names and padding take the rest.
    show (VirtualTable.decode ⟨i, o⟩ >>= fun table => pure (Record.virtualTable table)) _ = _
    simp only [bind, EStateM.bind, Reader.State.ofCursor, hdecode, hnames, pure, EStateM.pure,
      Cursor.remaining_advance, Cursor.advance_advance, Nat.add_sub_cancel' hsize]
    rfl
  | tableShape shape =>
    have hdecode := TableShape.decode_of_boundary ⟨i, o⟩ h.writable (s := .ofCursor c) hc
      hpadding hboundary
    show (TableShape.decode ⟨i, o⟩ >>= fun shape => pure (Record.tableShape shape)) _ = _
    simp only [bind, EStateM.bind, hdecode, pure, EStateM.pure]
    rfl
  | unknown kind bytes =>
    obtain ⟨htable, hshape⟩ := h.writable
    -- Without a decoder of its own the body is kept, and its padding is a part of it.
    have hunread : c.unread = bytes := by
      rw [hc, h.padding_nil rfl, List.append_nil]
      rfl
    show standard.decoder kind ⟨i, o⟩ (.ofCursor c) = _
    rw [standard_of_ne htable hshape, Decoder.keep_apply]
    simp only [Reader.State.ofCursor, hunread]
    rfl

/-- A frame that ends at a boundary is decoded to the record that it was written for. -/
theorem readFrame_of_fits {o : Options} {r : Record} {padding : List UInt8}
    (h : Frame.Fits o r padding) (i : TypeIndex) {c : Cursor} (halign : c.alignment = o.alignment)
    (hc : c.unread = Frame.payload o.charset r padding)
    (hboundary : c.alignment ∣ c.offset + c.remaining) :
    standard.readFrame ⟨i, o⟩ c = ⟨some r.kind, r.reported i, .ok r⟩ := by
  have hkind := Cursor.Reads.u16 r.kind c (r.encode o.charset ++ padding)
    (hc.trans (List.append_assoc _ _ _))
  rw [LittleEndian.length_encode] at hkind
  -- Behind the leaf kind stand the record and its padding, up to the end of the frame.
  have hrest : (c.advance 2).unread = r.encode o.charset ++ padding := by
    simp [hc, Frame.payload, LittleEndian.encode]
  have hsize : 2 ≤ c.remaining := by
    simp only [Cursor.remaining, hc, Frame.payload, List.length_append, LittleEndian.length_encode]
    omega
  have hdecoder := decoder_of_fits h i (c := c.advance 2) halign hrest
    (by
      rw [Cursor.offset_advance, Cursor.remaining_advance, Nat.add_assoc,
        Nat.add_sub_cancel' hsize]
      exact hboundary)
  simp only [readFrame, hkind, hdecoder, Cursor.atEnd_advance_remaining, ↓reduceIte]

/-- A frame that starts at a boundary is decoded to the record that it was written for. -/
theorem outcome_of_fits {o : Options} {r : Record} {padding : List UInt8}
    (h : Frame.Fits o r padding) (i : TypeIndex) {offset : Nat} (hoffset : o.alignment ∣ offset) :
    standard.outcome o ⟨i, offset, Frame.payload o.charset r padding⟩ =
      ⟨some r.kind, r.reported i, .ok r⟩ := by
  have hpadding := h.padding_lt
  have halign : max o.alignment 1 = o.alignment := by omega
  have hsize : (Frame.payload o.charset r padding).length =
      2 + (r.encode o.charset).length + padding.length := by
    simp [Frame.payload, Nat.add_assoc]
  -- The two bytes of the length and the two of the kind are counted in the offset.
  have hboundary : max o.alignment 1 ∣
      offset + 2 + 0 + (Frame.payload o.charset r padding).length := by
    have hsum : offset + 2 + 0 + (Frame.payload o.charset r padding).length =
        offset + (4 + (r.encode o.charset).length + padding.length) := by omega
    rw [hsum, halign]
    exact Nat.dvd_add hoffset h.boundary
  exact readFrame_of_fits h i halign rfl hboundary

end DecoderTable

end TypeStream
