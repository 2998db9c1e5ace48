import TypeStream.Proofs.StreamOutcome
import TypeStream.Proofs.TableFrames
import TypeStream.Proofs.TableLayout

/-!
# Where the names of a catalog come from

Every name of a table in a catalog was read from a run of bytes of the stream: one piece of the name
block of a frame.  So what no name can hold can be told from the bytes of the stream.

## Key results

- `VirtualTable.readIn_of_decode_ok`: the names of a table come from its body
- `DecoderTable.Registered.readIn_of_find?`: those of a catalog come from the stream
-/

namespace TypeStream

/-- The text is what the character set makes of some run of the bytes. -/
def Charset.ReadIn (charset : Charset) (bytes : List UInt8) (text : String) : Prop :=
  ∃ piece, piece <:+: bytes ∧ text = charset.decode piece

/-- What is read in a part of bytes is read in all of them. -/
theorem Charset.ReadIn.mono {charset : Charset} {bytes bytes' : List UInt8} {text : String}
    (h : charset.ReadIn bytes text) (hin : bytes <:+: bytes') : charset.ReadIn bytes' text := by
  obtain ⟨piece, hpiece, rfl⟩ := h
  exact ⟨piece, hpiece.trans hin, rfl⟩

/-! ### Tables -/

/-- A piece of a block is a part of its bytes. -/
theorem NameBlock.infix_of_mem_pieces {block piece : List UInt8} (h : piece ∈ pieces block) :
    piece <:+: block := by
  obtain ⟨ps, rest, hcut⟩ := exists_cut block
  rw [hcut.pieces_eq] at h
  have hmem : piece ++ [0] ∈ ps.map (· ++ [0]) := List.mem_map_of_mem h
  have hend : piece <:+: piece ++ [0] := (List.prefix_append _ _).isInfix
  -- The pieces with their zero bytes are the front of the block.
  have hflat : piece ++ [0] <:+: ps.flatMap (· ++ [0]) := by
    rw [List.flatMap_def]
    exact List.infix_of_mem_flatten hmem
  rw [hcut.bytes_eq]
  exact (hend.trans hflat).trans (List.prefix_append _ _).isInfix

/-- The names of a block are read in its bytes. -/
theorem NameBlock.readIn_of_decode_ok {charset : Charset} {naming : TableNaming} {c stop : Cursor}
    {block : NameBlock} (h : decode charset naming c = .ok block stop) :
    ∀ name ∈ block.names, charset.ReadIn c.unread name := by
  intro name hname
  rw [names_of_decode_ok h] at hname
  obtain ⟨piece, hpiece, rfl⟩ := List.mem_map.1 hname
  exact ⟨piece, infix_of_mem_pieces hpiece, rfl⟩

/-- The names of a table are read in its body. -/
theorem VirtualTable.readIn_of_decode_ok {ctx : Context} {s s' : Reader.State}
    {table : VirtualTable} (h : decode ctx s = .ok table s') :
    ∀ name ∈ table.names.names, ctx.options.charset.ReadIn s.cursor.unread name := by
  obtain ⟨_, names, stop, hnames, rfl⟩ := exists_names_of_decode_ok h
  -- The names are read in a window of the body, behind the fields.
  have hin : ((s.cursor.advance 16).window (field s.cursor.unread 3)).unread <:+:
      s.cursor.unread :=
    (List.take_prefix _ _).isInfix.trans (List.drop_suffix 16 _).isInfix
  exact fun name hname => (NameBlock.readIn_of_decode_ok hnames name hname).mono hin

/-! ### Catalogs -/

namespace DecoderTable.Registered

variable {t : DecoderTable} (ht : t.Registered) {o : Options} {table : VirtualTable}
include ht

/-- The names of a table that a frame decodes to are read in its payload. -/
theorem readIn_of_outcome {f : Frame.Placed}
    (h : (t.outcome o f).result = .ok (.virtualTable table)) :
    ∀ name ∈ table.names.names, o.charset.ReadIn f.payload name := by
  by_cases hshort : f.payload.length < 2
  · rw [outcome_of_short t o hshort] at h
    exact nomatch h
  -- A frame without a leaf kind stores nothing.
  obtain ⟨kind, hpayload⟩ := Frame.exists_kind (Nat.le_of_not_lt hshort)
  rw [outcome_of_kind t o hpayload] at h
  cases hdecoder : t.decoder kind ⟨f.index, o⟩ (.ofCursor (f.body o)) with
  | error e s =>
    rw [hdecoder] at h
    exact nomatch h
  | ok record s =>
    simp only [hdecoder, Cursor.Coupling.finish] at h
    split at h
    · rw [Except.ok.inj h] at hdecoder
      -- Only the decoder of tables gives a table.
      rcases ht.decoder_cases kind with htable | hplain
      · rw [htable] at hdecoder
        obtain ⟨table', s', hdecode, hpure⟩ := Reader.exists_ok_of_bind_ok hdecoder
        cases hpure
        exact fun name hname => (VirtualTable.readIn_of_decode_ok hdecode name hname).mono
          (List.drop_suffix 2 f.payload).isInfix
      · have hmeets := hplain.meets ⟨f.index, o⟩ (.ofCursor (f.body o)) (.nil f.index)
        rw [hdecoder] at hmeets
        exact absurd rfl (hmeets.1 table)
    · exact nomatch h

/-- The names of the tables in the catalog of a stream are read in the stream. -/
theorem readIn_of_find? {σ : Type} [Collector σ] {collector : σ} {stream : List UInt8}
    {d : Decoded} (h : (t.readStream o stream collector).1 = .ok d) {i : TypeIndex}
    (hfind : d.catalog.find? i = some (.virtualTable table)) :
    ∀ name ∈ table.names.names, o.charset.ReadIn stream name := by
  obtain ⟨_, payloads, hsplits, _, rfl⟩ := exists_of_readStream_ok collector h
  obtain ⟨f, hf, _, hresult⟩ := mem_records_iff.1 (Catalog.mem_of_find?_insertAll hfind)
  have hpayload : f.payload <:+: stream := by
    have hmem := Frame.payload_mem_of_mem_place hf
    have hframe : f.payload <:+: Frame.encode f.payload := (List.suffix_append _ _).isInfix
    rw [hsplits.bytes_eq, List.append_nil, List.flatMap_def]
    exact hframe.trans (List.infix_of_mem_flatten (List.mem_map_of_mem hmem))
  exact fun name hname => (ht.readIn_of_outcome hresult name hname).mono hpayload

end DecoderTable.Registered

end TypeStream
