import TypeStream.Proofs.LosslessTables
import TypeStream.Proofs.NameSplit
import TypeStream.Proofs.Utf8Pieces

/-!
# Names in UTF-8, written again

Reading UTF-8 loses what is ill-formed, but only once.  The names of a block are written as bytes
that are read as these names again, and the bytes are those of the block exactly if all of its names
were well-formed.  What is ill-formed in a name does not touch the text in front of it, and no name
touches another one.

## Key results

- `Utf8.decode_encode_append`: text in front of any bytes is read as it is
- `Utf8.encode_decode_eq_iff`: bytes that are well-formed are written again
- `NameBlock.writable_of_decode_utf8`: the names of a block can be written
- `NameBlock.decode_utf8_rewritten`: a block of names in UTF-8, written again
-/

namespace TypeStream

/-! ### Texts -/

namespace Utf8

/-- Text in front of any bytes is read as it is. -/
theorem decode_encode_append (cs : List Char) (bytes : List UInt8) :
    decode (encode cs ++ bytes) = cs ++ decode bytes := by
  induction cs with
  | nil => rfl
  | cons c cs ih =>
    show decode (String.utf8EncodeChar c ++ encode cs ++ bytes) = _
    rw [List.append_assoc, decode_encodeChar_append, ih, List.cons_append]

/-- Bytes are well-formed if they are those of some characters. -/
theorem isValidUTF8_iff {bytes : List UInt8} :
    bytes.toByteArray.IsValidUTF8 ↔ ∃ cs, encode cs = bytes := by
  constructor
  · rintro ⟨cs, hcs⟩
    exact ⟨cs, (List.toByteArray_inj.1 hcs).symm⟩
  · rintro ⟨cs, rfl⟩
    exact ⟨cs, rfl⟩

/-- What bytes are read as is written as these bytes again, if they are well-formed. -/
theorem encode_decode_eq_iff {bytes : List UInt8} :
    encode (decode bytes) = bytes ↔ bytes.toByteArray.IsValidUTF8 := by
  rw [isValidUTF8_iff]
  constructor
  · intro h
    exact ⟨_, h⟩
  · rintro ⟨cs, rfl⟩
    have hdecode := decode_encode_append cs []
    rw [List.append_nil, decode_nil, List.append_nil] at hdecode
    rw [hdecode]

end Utf8

/-- A name that starts with a text is read as the text, and what its other bytes are read as. -/
theorem Charset.decode_utf8_append (text : String) (bytes : List UInt8) :
    utf8.decode (Utf8.encode text.toList ++ bytes) = text ++ utf8.decode bytes := by
  show String.ofList (Utf8.decode _) = _
  rw [Utf8.decode_encode_append, String.ofList_append, String.ofList_toList]
  rfl

/-- Every text without NUL can be written in UTF-8. -/
theorem Charset.writes_utf8 {text : String} (h : '\x00' ∉ text.toList) : utf8.Writes text := by
  intro c hc
  have hbounds := Utf8.toNat_bounds c
  refine ⟨Nat.pos_of_ne_zero fun hzero => h ?_, by show c.toNat < 0x110000; omega⟩
  -- Of all characters only NUL has the number zero.
  rwa [← Char.ofNat_toNat c, hzero] at hc

/-! ### Blocks -/

namespace NameBlock

variable {naming : TableNaming} {c stop : Cursor} {b : NameBlock}

/-- The names of a block can be written, whatever they were read from. -/
theorem writable_of_decode_utf8 (h : decode .utf8 naming c = .ok b stop) :
    b.Writable { charset := .utf8, naming } := by
  have hpieces := (cut_pieces (of_decode_ok h).1).zero_notMem_pieces
  refine ⟨fun hnone => ?_, fun name hname => Charset.writes_utf8 ?_⟩
  · -- Only an empty block has no name, and it is refused where there must be one.
    have hnil := (tableName_eq_none_iff h).1 hnone
    obtain ⟨-, rfl⟩ := of_decode_ok h
    refine ⟨by simp [hnil, pieces], ?_⟩
    cases naming with
    | optional => rfl
    | required =>
      rw [(decode_of_atEnd (by simp [Cursor.atEnd, hnil]) .utf8).2] at h
      cases h
  -- A piece has no zero byte in it, so its text has no NUL.
  · rw [names_of_decode_ok h] at hname
    obtain ⟨piece, hpiece, rfl⟩ := List.mem_map.1 hname
    exact Charset.utf8.nul_notMem_decode (hpieces piece hpiece)

/-- Pieces that are ended by zero bytes can be told from the bytes. -/
theorem flatMap_terminated_inj {ps ps' : List (List UInt8)} (h : ∀ piece ∈ ps, 0 ∉ piece)
    (h' : ∀ piece ∈ ps', 0 ∉ piece) (heq : ps.flatMap (· ++ [0]) = ps'.flatMap (· ++ [0])) :
    ps = ps' := by
  have hcut : Cut (ps.flatMap (· ++ [0])) ps [] := ⟨by simp, h, List.not_mem_nil⟩
  have hcut' : Cut (ps.flatMap (· ++ [0])) ps' [] := ⟨by simp [heq], h', List.not_mem_nil⟩
  rw [← hcut.pieces_eq, hcut'.pieces_eq]

/-- A block is what its names are written as exactly if all of these were well-formed. -/
theorem encode_utf8_eq_iff (h : decode .utf8 naming c = .ok b stop) {ps : List (List UInt8)}
    (hcut : Cut c.unread ps []) :
    b.encode .utf8 = c.unread ↔ ∀ piece ∈ ps, piece.toByteArray.IsValidUTF8 := by
  have hnames : b.names.map Charset.utf8.encode =
      ps.map fun piece => Utf8.encode (Utf8.decode piece) := by
    rw [names_of_decode_ok h, hcut.pieces_eq, List.map_map]
    refine List.map_congr_left fun piece _ => ?_
    show Utf8.encode (Charset.utf8.decode piece).toList = _
    rw [Charset.toList_decode]
    rfl
  -- The names written back have no zero byte either, so the block splits in one way only.
  have hzero : ∀ piece ∈ b.names.map Charset.utf8.encode, 0 ∉ piece := by
    intro piece hpiece
    obtain ⟨name, hname, rfl⟩ := List.mem_map.1 hpiece
    exact Charset.zero_notMem_encode ((writable_of_decode_utf8 h).2 name hname)
  have hsame : b.encode .utf8 = c.unread ↔ b.names.map Charset.utf8.encode = ps.map id := by
    rw [hcut.bytes_eq, List.append_nil, List.map_id]
    exact ⟨flatMap_terminated_inj hzero hcut.zero_notMem_pieces, fun heq => by rw [encode, heq]⟩
  rw [hsame, hnames, List.map_inj_left]
  exact forall₂_congr fun piece _ => Utf8.encode_decode_eq_iff

/-- Names in UTF-8 are a fixed point of writing and reading.  The names of a block are written as
    bytes that are read as them again, and these are the bytes of the block exactly if all its names
    are well-formed.  A name that starts with a text is read as the text and what its other bytes
    are read as, whatever stands around the name.  Bytes are read as text by replacing each longest
    ill-formed piece. -/
theorem decode_utf8_rewritten :
    (∀ {naming : TableNaming} {c stop : Cursor} {b : NameBlock},
      decode .utf8 naming c = .ok b stop →
      let block := b.names.flatMap fun name => Utf8.encode name.toList ++ [0]
      b.encode? .utf8 = some block ∧
      (∀ c' : Cursor, c'.unread = block →
        decode .utf8 naming c' = .ok b (c'.advance c'.remaining)) ∧
      ∃ ps : List (List UInt8), c.unread = ps.flatMap (· ++ [0]) ∧ (∀ piece ∈ ps, 0 ∉ piece) ∧
        b.names = ps.map Charset.utf8.decode ∧
        (block = c.unread ↔ ∀ piece ∈ ps, piece.toByteArray.IsValidUTF8)) ∧
    (∀ (text : String) (bytes : List UInt8), '\x00' ∉ text.toList → 0 ∉ bytes →
      ∀ before after : List (List UInt8), (∀ piece ∈ before ++ after, 0 ∉ piece) →
      ∀ (naming : TableNaming) (c : Cursor),
        c.unread = (before ++ (Utf8.encode text.toList ++ bytes) :: after).flatMap (· ++ [0]) →
        ∃ b, decode .utf8 naming c = .ok b (c.advance c.remaining) ∧
          b.names = before.map Charset.utf8.decode ++
            (text ++ Charset.utf8.decode bytes) :: after.map Charset.utf8.decode) ∧
    ∀ (bytes : List UInt8) (text : String),
      Charset.utf8.decode bytes = text ↔ Utf8.ReadAs bytes text.toList := by
  refine ⟨fun {naming c stop b} h => ?_, fun text bytes htext hbytes before after hpieces naming c
    hc => ?_, fun bytes text => ?_⟩
  · have hwritable := writable_of_decode_utf8 h
    have hcut := cut_pieces (of_decode_ok h).1
    have hblock : b.encode .utf8 = b.names.flatMap fun name => Utf8.encode name.toList ++ [0] :=
      List.flatMap_map _ _ _
    rw [← hblock]
    refine ⟨encode?_of_writable hwritable, fun c' hc' => decode_block hwritable hc', _, ?_,
      hcut.zero_notMem_pieces, names_of_decode_ok h, encode_utf8_eq_iff h hcut⟩
    rw [← List.append_nil (List.flatMap _ _)]
    exact hcut.bytes_eq
  -- Neither the text nor the bytes behind it have a zero byte, so they are in one piece.
  · have htext := Charset.zero_notMem_encode (Charset.writes_utf8 htext)
    have hname : 0 ∉ Utf8.encode text.toList ++ bytes := by
      rw [List.mem_append]
      rintro (hzero | hzero)
      · exact htext hzero
      · exact hbytes hzero
    have hcut : Cut c.unread (before ++ (Utf8.encode text.toList ++ bytes) :: after) [] := by
      refine ⟨by rw [hc, List.append_nil], ?_, List.not_mem_nil⟩
      simp only [List.forall_mem_append, List.forall_mem_cons] at hpieces ⊢
      exact ⟨hpieces.1, hname, hpieces.2⟩
    obtain ⟨b, hok, hnames⟩ := hcut.exists_decode_ok (by simp) .utf8 naming
    refine ⟨b, hok, ?_⟩
    rw [hnames, List.map_append, List.map_cons, Charset.decode_utf8_append]
  · rw [← Utf8.decode_eq_iff, ← String.toList_inj, Charset.toList_decode]
    rfl

/-- The second name of this block is ill-formed, and so is the end of the second one of the other
    block. -/
theorem decode_utf8_rewritten_ill_formed :
    let c := Cursor.ofBytes [0xc3, 0xa9, 0, 0xe2, 0x82, 0x41, 0] 7 4
    let b : NameBlock := ⟨some "é", ["\ufffdA"]⟩
    let rewritten := Cursor.ofBytes [0xc3, 0xa9, 0, 0xef, 0xbf, 0xbd, 0x41, 0] 3 1
    let other := Cursor.ofBytes [0x41, 0, 0xc3, 0xa9, 0xf0, 0x9f, 0, 0] 0 1
    decode .utf8 .required c = .ok b (c.advance 7) ∧ b.encode? .utf8 = some rewritten.unread ∧
      decode .utf8 .required rewritten = .ok b (rewritten.advance 8) ∧
      '\x00' ∉ "é".toList ∧ 0 ∉ ([0xf0, 0x9f] : List UInt8) ∧
      (∃ b', decode .utf8 .optional other = .ok b' (other.advance 8) ∧
        b'.names = ["A", "é\ufffd", ""]) := by
  intro c b rewritten other
  have hc : decode .utf8 .required c = .ok b (c.advance 7) :=
    decode_of_not_breaksOff (by decide) (by decide)
  obtain ⟨hblocks, hnames, -⟩ := decode_utf8_rewritten
  obtain ⟨hencode, hdecode, -⟩ := hblocks hc
  have hrewritten : rewritten.unread =
      b.names.flatMap fun name => Utf8.encode name.toList ++ [0] := by
    decide +kernel
  have hnul : '\x00' ∉ "é".toList := by decide
  have hzero : 0 ∉ ([0xf0, 0x9f] : List UInt8) := by decide
  have hother := hnames "é" [0xf0, 0x9f] hnul hzero [[0x41]] [[]] (by decide) .optional other
    (by decide +kernel)
  refine ⟨hc, hrewritten ▸ hencode, hdecode rewritten hrewritten, hnul, hzero, ?_⟩
  exact hother

end NameBlock

end TypeStream
