import TypeStream.Proofs.AsciiBytes
import TypeStream.Proofs.TableLayout

/-!
# Latin-1 loses nothing

In Latin-1 every byte is a character, and that character is written as the byte again.  So the table
that a body is read as can be written, and the fields and the name block come out as they stood in
the body, whatever they hold.  Only the padding behind them is not kept.

## Key results

- `Charset.encode?_decode_latin1`: a text is written as the bytes that it was read from
- `NameBlock.encode?_of_decode_latin1`: so is a name block
- `VirtualTable.decode_latin1_lossless`: so is a table, which is read from no other bytes
-/

namespace TypeStream

/-! ### Names -/

/-- A text in Latin-1 is written as the bytes that it was read from. -/
theorem Charset.encode?_decode_latin1 (bytes : List UInt8) :
    latin1.encode? (latin1.decode bytes) = some bytes := by
  -- Every byte is the code point of a character, which is written as that byte.
  have hbyte : ∀ b : UInt8, latin1.encodeChar? (Char.ofNat b.toNat) = some [b] := by
    intro b
    have hlt := b.toNat_lt
    have hcode : (Char.ofNat b.toNat).toNat = b.toNat := toNat_charOfNat (.inl (by omega))
    simp only [encodeChar?, hcode, UInt8.ofNat_toNat]
    exact if_pos hlt
  have hchars : (latin1.chars bytes).mapM latin1.encodeChar? = some (bytes.map ([·])) := by
    show (bytes.map _).mapM latin1.encodeChar? = _
    rw [List.mapM_map]
    exact mapM_eq_some_map fun b _ => hbyte b
  rw [encode?, toList_decode, hchars, Option.map_some, ← List.flatMap_def, List.flatMap_singleton']

namespace NameBlock

variable {naming : TableNaming} {c stop : Cursor} {b : NameBlock}

/-- A name block in Latin-1 is written as the bytes that it was read from. -/
theorem encode?_of_decode_latin1 (h : decode .latin1 naming c = .ok b stop) :
    b.encode? .latin1 = some c.unread := by
  obtain ⟨hbytes, _, _⟩ := cut_pieces (of_decode_ok h).1
  have hlist : b.tableName.toList ++ b.methods = _ := names_of_decode_ok h
  generalize pieces c.unread = ps at hbytes hlist
  have hnames : (ps.map Charset.latin1.decode).mapM Charset.latin1.encode? = some ps := by
    rw [List.mapM_map]
    exact (mapM_eq_some_map fun p _ => Charset.encode?_decode_latin1 p).trans
      (congrArg some (List.map_id' ps))
  rw [encode?, hlist, hnames, hbytes, List.append_nil]
  rfl

/-- A block leaves the table unnamed exactly if it is empty. -/
theorem tableName_eq_none_iff {charset : Charset} (h : decode charset naming c = .ok b stop) :
    b.tableName = none ↔ c.unread = [] := by
  obtain ⟨hwhole, rfl⟩ := of_decode_ok h
  obtain ⟨hbytes, _, _⟩ := cut_pieces hwhole
  generalize pieces c.unread = ps at hbytes
  rw [hbytes]
  cases ps <;> simp

/-- A block names the table with the empty text exactly if a zero byte stands in front. -/
theorem tableName_eq_empty_iff (h : decode .latin1 naming c = .ok b stop) :
    b.tableName = some "" ↔ c.unread.head? = some 0 := by
  obtain ⟨hwhole, rfl⟩ := of_decode_ok h
  obtain ⟨hbytes, hpieces, _⟩ := cut_pieces hwhole
  generalize pieces c.unread = ps at hbytes hpieces
  rw [hbytes]
  cases ps with
  | nil => simp
  | cons piece ps =>
    obtain ⟨hpiece, _⟩ := List.forall_mem_cons.1 hpieces
    -- An empty name is a zero byte in front; any other name starts with another byte.
    cases piece with
    | nil => simp [Charset.decode, Charset.chars]
    | cons byte piece =>
      have hne : byte ≠ 0 := fun hzero => hpiece (hzero ▸ List.mem_cons_self)
      simp [hne, Charset.decode, Charset.chars]

end NameBlock

/-! ### Tables -/

namespace VirtualTable

variable {ctx : Context} {s s' : Reader.State} {table : VirtualTable}

/-- A field is written as the bytes that it was read from. -/
theorem encode_field {body : List UInt8} {k : Nat} (h : 4 * k + 4 ≤ body.length) :
    LittleEndian.encode 4 (field body k) = (body.drop (4 * k)).take 4 := by
  have hlength : ((body.drop (4 * k)).take 4).length = 4 := by
    rw [List.length_take, List.length_drop]
    omega
  have hencode := LittleEndian.encode_decode ((body.drop (4 * k)).take 4)
  rwa [hlength] at hencode

/-- A body starts with its four fields. -/
theorem take_fields_add (body : List UInt8) (size : Nat) :
    body.take (16 + size) = (body.drop (4 * 0)).take 4 ++ (body.drop (4 * 1)).take 4 ++
      (body.drop (4 * 2)).take 4 ++ (body.drop (4 * 3)).take 4 ++ (body.drop 16).take size := by
  rw [List.take_add, show 16 = 4 * 3 + 4 from rfl, List.take_add, show 4 * 3 = 4 * 2 + 4 from rfl,
    List.take_add, show 4 * 2 = 4 * 1 + 4 from rfl, List.take_add]
  rfl

/-- A table that is read in Latin-1 is written as the fields and the name block of its body. -/
theorem encode?_of_decode_latin1 (hcharset : ctx.options.charset = .latin1)
    (h : decode ctx s = .ok table s') :
    table.encode? .latin1 = some (s.cursor.unread.take (16 + field s.cursor.unread 3)) := by
  obtain ⟨hle, names, stop, hnames, rfl⟩ := exists_names_of_decode_ok h
  rw [hcharset] at hnames
  generalize hbody : s.cursor.unread = body at hle
  -- The names are written as the block, and the block has the length of its field.
  have hblock : names.encode? .latin1 = some ((body.drop 16).take (field body 3)) := by
    rw [NameBlock.encode?_of_decode_latin1 hnames, ← hbody]
    rfl
  have hsize : ((body.drop 16).take (field body 3)).length = field body 3 := by
    rw [List.length_take, List.length_drop]
    omega
  -- A field has four bytes, so the numbers read from it are not cut off.
  have howner : (indexField body 0).toNat = field body 0 := toNat_ofNat_field (by omega)
  have hbase : (indexField body 1).toNat = field body 1 := toNat_ofNat_field (by omega)
  have hoffset : (offsetField body).toUInt32.toNat = field body 2 := toNat_ofNat_field (by omega)
  simp only [encode?, hblock, Option.map_some, howner, hbase, hoffset, hsize]
  rw [encode_field (by omega), encode_field (by omega), encode_field (by omega),
    encode_field (by omega), take_fields_add]

/-- A table that is read in Latin-1 is written as the bytes that it was read from, which are the
    fields and the name block of its body.  So it is read from no body that differs there, whatever
    the other settings are and wherever the body stands.  In particular a table without a name,
    which has no name block, is not one with an empty name, whose name block starts with a zero
    byte. -/
theorem decode_latin1_lossless (hcharset : ctx.options.charset = .latin1)
    (h : decode ctx s = .ok table s') :
    let body := s.cursor.unread
    let size := field body 3
    16 + size ≤ body.length ∧ table.encode? .latin1 = some (body.take (16 + size)) ∧
      (∀ {ctx' : Context} {r r' : Reader.State}, ctx'.options.charset = .latin1 →
        decode ctx' r = .ok table r' →
          r.cursor.unread.take (16 + field r.cursor.unread 3) = body.take (16 + size)) ∧
      (table.names.tableName = none ↔ size = 0) ∧
      (table.names.tableName = some "" ↔ 0 < size ∧ body[16]? = some 0) := by
  intro body size
  have hencode := encode?_of_decode_latin1 hcharset h
  obtain ⟨hle, names, stop, hnames, rfl⟩ := exists_names_of_decode_ok h
  rw [hcharset] at hnames
  have hblock : ((s.cursor.advance 16).window size).unread = (body.drop 16).take size := rfl
  refine ⟨hle, hencode, fun hcharset' h' => ?_, ?_, ?_⟩
  · have hencode' := encode?_of_decode_latin1 hcharset' h'
    exact Option.some.inj (hencode'.symm.trans hencode)
  -- Without a name there is no byte in the block.
  · refine (NameBlock.tableName_eq_none_iff hnames).trans ?_
    rw [hblock, List.take_eq_nil_iff, List.drop_eq_nil_iff]
    show size = 0 ∨ body.length ≤ 16 ↔ size = 0
    have : 16 + size ≤ body.length := hle
    omega
  -- With an empty name the block starts with its zero byte.
  · refine (NameBlock.tableName_eq_empty_iff hnames).trans ?_
    rw [hblock, List.head?_take, List.head?_drop]
    by_cases hsize : size = 0
    · simp [hsize]
    · simp [hsize, Nat.pos_of_ne_zero hsize]

/-- The names of this table are empty but for one, and two bytes of padding stand behind them. -/
theorem decode_latin1_lossless_empty_names :
    let body : List UInt8 := [0, 0x10, 0, 0, 0xff, 0xff, 0xff, 0xff, 0xfc, 0xff, 0xff, 0xff,
      5, 0, 0, 0, 0, 0x41, 0xe9, 0, 0, 0xf3, 0xf2]
    let start := Cursor.ofBytes body 4 4
    let table : VirtualTable := ⟨⟨0x1000⟩, ⟨0xffffffff⟩, -4, ⟨some "", ["Aé", ""]⟩⟩
    ∃ s', decode ⟨⟨0x1001⟩, { charset := .latin1 }⟩ (.ofCursor start) = .ok table s' ∧
      table.encode? .latin1 = some (body.take 21) := by
  intro body start table
  have hdecode : ∃ s', decode ⟨⟨0x1001⟩, { charset := .latin1 }⟩ (.ofCursor start) =
      .ok table s' := by
    rw [decode_of_fields _ (by decide), decodeNames_of_le _ _ _ _ (by decide),
      NameBlock.decode_of_not_breaksOff (by decide) (by decide)]
    exact ⟨_, congrArg (EStateM.Result.ok · _) (by decide +kernel)⟩
  obtain ⟨s', h⟩ := hdecode
  obtain ⟨_, hencode, _⟩ := decode_latin1_lossless rfl h
  exact ⟨s', h, hencode⟩

end VirtualTable

end TypeStream
