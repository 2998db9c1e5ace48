import TypeStream.Proofs.RecordRoundTrip

/-!
# The strings of a name block

Every byte list falls into pieces that are ended by a zero byte, and a rest without one.  Reading a
name block gives the pieces as strings; a rest that holds any byte is a string without an end.  So
neither the charset nor the naming has a say in where a string ends, and the naming only matters
for a block without bytes.

## Key results

- `NameBlock.exists_cut`: every byte list falls into pieces
- `Cursor.terminatedStrings_of_rest`: a string without an end
- `NameBlock.decode_of_ascii`: the charset does not matter for bytes below `0x80`
- `NameBlock.decode_of_atEnd`, `NameBlock.decode_of_not_atEnd`: where the naming matters
-/

namespace TypeStream

/-- The bytes are the pieces given, each ended by a zero byte, and a rest; none of these holds a
    zero byte itself. -/
structure NameBlock.Cut (bytes : List UInt8) (pieces : List (List UInt8)) (rest : List UInt8) :
    Prop where
  bytes_eq : bytes = pieces.flatMap (· ++ [0]) ++ rest
  zero_notMem_pieces : ∀ piece ∈ pieces, 0 ∉ piece
  zero_notMem_rest : 0 ∉ rest

/-- Any bytes can be cut behind their zero bytes. -/
theorem NameBlock.exists_cut (bytes : List UInt8) : ∃ pieces rest, Cut bytes pieces rest := by
  induction bytes with
  | nil => exact ⟨[], [], rfl, nofun, nofun⟩
  | cons b bytes ih =>
    obtain ⟨pieces, rest, rfl, hpieces, hrest⟩ := ih
    by_cases hb : b = 0
    · -- The byte ends a piece without bytes.
      subst hb
      refine ⟨[] :: pieces, rest, rfl, ?_, hrest⟩
      exact List.forall_mem_cons.2 ⟨List.not_mem_nil, hpieces⟩
    · have hcons : ∀ bytes : List UInt8, 0 ∉ bytes → 0 ∉ b :: bytes := by
        intro bytes hbytes hmem
        rcases List.mem_cons.1 hmem with h | h
        · exact hb h.symm
        · exact hbytes h
      -- Otherwise it comes in front of the first piece, or of the rest if there is none.
      cases pieces with
      | nil => exact ⟨[], b :: rest, rfl, nofun, hcons rest hrest⟩
      | cons piece pieces =>
        obtain ⟨hpiece, hpieces⟩ := List.forall_mem_cons.1 hpieces
        exact ⟨(b :: piece) :: pieces, rest, rfl,
          List.forall_mem_cons.2 ⟨hcons piece hpiece, hpieces⟩, hrest⟩

namespace Cursor

variable {c : Cursor} {pieces : List (List UInt8)} {rest : List UInt8}

/-- The strings in front of one without an end are passed over. -/
theorem terminatedStrings_of_rest (charset : Charset) (h : NameBlock.Cut c.unread pieces rest)
    (hne : rest ≠ []) :
    terminatedStrings charset c =
      .error (.unterminated (c.offset + (pieces.flatMap (· ++ [0])).length))
        (c.advance (pieces.flatMap (· ++ [0])).length) := by
  obtain ⟨hc, hpieces, hrest⟩ := h
  -- In front of the rest there is always a string to read.
  have hend : ∀ {c : Cursor} {bytes : List UInt8}, c.unread = bytes ++ rest →
      ¬ c.atEnd = true := by
    intro c bytes hc
    simp [atEnd, hc, hne]
  induction pieces generalizing c with
  | nil =>
    have hzero : 0 ∉ c.unread := by rwa [hc]
    exact terminatedStrings_of_error (hend hc) (terminatedString_of_not_mem hzero)
  | cons piece pieces ih =>
    obtain ⟨hpiece, hpieces⟩ := List.forall_mem_cons.1 hpieces
    have hunread : c.unread = piece ++ 0 :: (pieces.flatMap (· ++ [0]) ++ rest) := by simp [hc]
    have hothers : (c.advance (piece.length + 1)).unread = pieces.flatMap (· ++ [0]) ++ rest := by
      simp [hunread]
    rw [terminatedStrings_of_ok (hend hc) (terminatedString_of_append hunread hpiece),
      ih hothers hpieces]
    simp only [offset_advance, advance_advance, List.flatMap_cons, List.length_append,
      List.length_singleton, Nat.add_assoc]

end Cursor

/-! ### Charsets -/

/-- All charsets agree on bytes below `0x80`. -/
theorem Charset.decode_of_ascii {bytes : List UInt8} (h : ∀ b ∈ bytes, b.toNat < 0x80)
    (charset : Charset) :
    charset.decode bytes = String.ofList (bytes.map (Char.ofNat ·.toNat)) := by
  -- Below `0x80` all charsets have the same character for a byte.
  have hchars : charset.chars bytes = bytes.map (Char.ofNat ·.toNat) := by
    cases charset with
    | latin1 => rfl
    | ascii =>
      apply List.map_congr_left
      intro b hb
      unfold asciiChar
      rw [if_pos (h b hb)]
    | utf8 =>
      show Utf8.decode bytes = _
      induction bytes with
      | nil => rfl
      | cons b bytes ih =>
        obtain ⟨hb, hbytes⟩ := List.forall_mem_cons.1 h
        have hfirst := Utf8.decode_ascii hb bytes
        rw [UInt8.ofNat_toNat] at hfirst
        rw [hfirst, ih hbytes]
        rfl
  rw [decode, hchars]

namespace NameBlock

variable {charset charset' : Charset} {naming : TableNaming} {c : Cursor}

/-- A block is made of the strings in it alone. -/
theorem decode_congr
    (h : Cursor.terminatedStrings charset c = Cursor.terminatedStrings charset' c) :
    decode charset naming c = decode charset' naming c := by
  simp only [decode, bind, EStateM.bind, h]

/-- A block of bytes below `0x80` is read alike with all charsets. -/
theorem decode_of_ascii (h : ∀ b ∈ c.unread, b.toNat < 0x80) (charset charset' : Charset)
    (naming : TableNaming) : decode charset naming c = decode charset' naming c := by
  apply decode_congr
  obtain ⟨pieces, rest, hcut⟩ := exists_cut c.unread
  -- The block is all pieces, or both charsets meet the same rest without an end.
  by_cases hne : rest = []
  · subst hne
    obtain ⟨hc, hpieces, _⟩ := hcut
    rw [List.append_nil] at hc
    rw [Cursor.terminatedStrings_of_pieces charset hpieces hc,
      Cursor.terminatedStrings_of_pieces charset' hpieces hc]
    congr 1
    apply List.map_congr_left
    intro piece hpiece
    have hascii : ∀ b ∈ piece, b.toNat < 0x80 := by
      intro b hb
      apply h
      rw [hc]
      exact List.mem_flatMap.2 ⟨piece, hpiece, List.mem_append_left _ hb⟩
    rw [Charset.decode_of_ascii hascii, Charset.decode_of_ascii hascii]
  · rw [Cursor.terminatedStrings_of_rest charset hcut hne,
      Cursor.terminatedStrings_of_rest charset' hcut hne]

/-! ### Naming -/

/-- A block without bytes leaves the table unnamed, if that is allowed. -/
theorem decode_of_atEnd (h : c.atEnd = true) (charset : Charset) :
    decode charset .optional c = .ok ⟨none, []⟩ c ∧
      decode charset .required c = .error .unnamedTable c := by
  simp only [decode, bind, EStateM.bind, Cursor.terminatedStrings_of_atEnd h, ofStrings?]
  exact ⟨rfl, rfl⟩

/-- For a block that holds any byte it does not matter whether the table must be named: it is, or
    a string of the block has no end. -/
theorem decode_of_not_atEnd (h : ¬ c.atEnd = true) (charset : Charset) :
    (∃ pieces rest, Cut c.unread pieces rest ∧ rest ≠ [] ∧ ∀ naming, decode charset naming c =
      .error (.unterminated (c.offset + (pieces.flatMap (· ++ [0])).length))
        (c.advance (pieces.flatMap (· ++ [0])).length)) ∨
      ∃ tableName methods stop, ∀ naming,
        decode charset naming c = .ok ⟨some tableName, methods⟩ stop := by
  obtain ⟨pieces, rest, hcut⟩ := exists_cut c.unread
  -- Bytes behind the last zero byte are an error, otherwise there is a first piece.
  by_cases hne : rest = []
  · subst hne
    obtain ⟨hc, hpieces, _⟩ := hcut
    rw [List.append_nil] at hc
    have hstrings := Cursor.terminatedStrings_of_pieces charset hpieces hc
    cases pieces with
    | nil => exact absurd (by simp [Cursor.atEnd, hc]) h
    | cons piece pieces =>
      refine .inr ⟨charset.decode piece, pieces.map charset.decode, c.advance c.remaining,
        fun naming => ?_⟩
      simp only [decode, bind, EStateM.bind, hstrings]
      rfl
  · refine .inl ⟨pieces, rest, hcut, hne, fun naming => ?_⟩
    simp only [decode, bind, EStateM.bind, Cursor.terminatedStrings_of_rest charset hcut hne]

/-- Reading a block fails at a string without an end, or because the block is empty and the table
    must be named. -/
theorem decode_error_cases {e : Error} {stop : Cursor}
    (h : decode charset naming c = .error e stop) :
    (∃ pieces rest, Cut c.unread pieces rest ∧ rest ≠ [] ∧
      e = .unterminated (c.offset + (pieces.flatMap (· ++ [0])).length)) ∨
      c.atEnd = true ∧ naming = .required ∧ e = .unnamedTable := by
  by_cases hend : c.atEnd = true
  · obtain ⟨hoptional, hrequired⟩ := decode_of_atEnd hend charset
    cases naming with
    -- An empty block is an error only where a name is required.
    | optional =>
      rw [hoptional] at h
      exact nomatch h
    | required =>
      rw [hrequired] at h
      exact .inr ⟨hend, rfl, (EStateM.Result.error.inj h).1.symm⟩
  · obtain ⟨pieces, rest, hcut, hne, herror⟩ | ⟨tableName, methods, stop', hok⟩ :=
      decode_of_not_atEnd hend charset
    · rw [herror] at h
      exact .inl ⟨pieces, rest, hcut, hne, (EStateM.Result.error.inj h).1.symm⟩
    · rw [hok] at h
      exact nomatch h

end NameBlock

end TypeStream
