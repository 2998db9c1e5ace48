import Mathlib.Data.List.DropRight
import TypeStream.Proofs.NamePieces
import TypeStream.Proofs.RecordFronts

/-!
# The layout of tables

What reading the body of a table comes to, as one equation over all bodies: by the length of the
body, the number in the last of its four fields, and where the zero bytes of the name block stand.
The equation also tells how many bytes have been passed over in each case, and which references
have been reported.

## Key results

- `NameBlock.decode_of_breaksOff`, `NameBlock.decode_of_not_breaksOff`: a name block, by its zero
  bytes
- `NameBlock.of_decode_ok`, `VirtualTable.exists_names_of_decode_ok`: what has been read
- `VirtualTable.decode_layout`: the body of a table
-/

namespace TypeStream

/-! ### Name blocks -/

namespace NameBlock

/-- The bytes in front of each zero byte of a block, back to the one before. -/
def pieces (block : List UInt8) : List (List UInt8) := (block.splitOn 0).dropLast

/-- A block up to its last zero byte. -/
def terminated (block : List UInt8) : List UInt8 := block.rdropWhile (· != 0)

/-- A block breaks off if its last byte is no zero byte. -/
def BreaksOff (block : List UInt8) : Prop := block ≠ [] ∧ block.getLast? ≠ some 0

instance (block : List UInt8) : Decidable (BreaksOff block) :=
  inferInstanceAs (Decidable (_ ∧ _))

/-- Pieces that are ended by zero bytes end in one, if there are any. -/
theorem eq_nil_or_exists_concat (ps : List (List UInt8)) :
    ps = [] ∨ ∃ front, ps.flatMap (· ++ [0]) = front ++ [0] := by
  rcases List.eq_nil_or_concat ps with rfl | ⟨ps, piece, rfl⟩
  · exact .inl rfl
  · refine .inr ⟨ps.flatMap (· ++ [0]) ++ piece, ?_⟩
    rw [List.concat_eq_append, List.flatMap_append, List.flatMap_singleton, List.append_assoc]

namespace Cut

variable {block rest : List UInt8} {ps : List (List UInt8)} (h : Cut block ps rest)
include h

/-- The pieces of a block are those of any cut. -/
theorem pieces_eq : pieces block = ps := by
  obtain ⟨rfl, hpieces, hrest⟩ := h
  -- Splitting at the zero bytes gives the pieces and the rest behind the last of them.
  have hsplit : (ps.flatMap (· ++ [0]) ++ rest).splitOn 0 = ps ++ [rest] := by
    induction ps with
    | nil => exact List.splitOn_eq_singleton hrest
    | cons piece ps ih =>
      obtain ⟨hpiece, hpieces⟩ := List.forall_mem_cons.1 hpieces
      simp only [List.flatMap_cons, List.append_assoc, List.cons_append, List.nil_append]
      rw [List.splitOn_append_cons_self_of_not_mem hpiece, ih hpieces]
  rw [pieces, hsplit, List.dropLast_concat]

/-- What is left without the rest is the pieces, each ended by a zero byte. -/
theorem terminated_eq : terminated block = ps.flatMap (· ++ [0]) := by
  obtain ⟨rfl, _, hrest⟩ := h
  -- From the end, the rest is dropped byte by byte up to a zero byte.
  have hskip : ∀ b ∈ rest.reverse, (b != 0) = true := by
    intro b hb
    simpa using fun hzero : b = 0 => hrest (hzero ▸ List.mem_reverse.1 hb)
  unfold terminated List.rdropWhile
  rw [List.reverse_append, List.dropWhile_append_of_pos hskip]
  rcases eq_nil_or_exists_concat ps with rfl | ⟨front, hfront⟩
  · rfl
  · rw [hfront]
    exact List.rdropWhile_concat_neg _ front 0 (by decide)

/-- A block breaks off where the cut leaves a rest. -/
theorem breaksOff_iff : BreaksOff block ↔ rest ≠ [] := by
  obtain ⟨rfl, _, hrest⟩ := h
  unfold BreaksOff
  constructor
  -- Without a rest the block ends with the zero byte of its last piece.
  · rintro ⟨hne, hlast⟩ rfl
    rw [List.append_nil] at hne hlast
    rcases eq_nil_or_exists_concat ps with rfl | ⟨front, hfront⟩
    · exact hne rfl
    · rw [hfront, List.getLast?_concat] at hlast
      exact hlast rfl
  -- A rest has no zero byte, so the last byte is none.
  · intro hne
    refine ⟨List.append_ne_nil_of_right_ne_nil _ hne, ?_⟩
    rw [List.getLast?_append_of_ne_nil _ hne]
    exact fun hlast => hrest (List.mem_of_getLast? hlast)

end Cut

/-- A block that does not break off is made of its pieces. -/
theorem cut_pieces {block : List UInt8} (h : ¬ BreaksOff block) : Cut block (pieces block) [] := by
  obtain ⟨ps, rest, hcut⟩ := exists_cut block
  have hrest : rest = [] := by
    rw [hcut.breaksOff_iff, not_not] at h
    exact h
  subst hrest
  rwa [hcut.pieces_eq]

variable {c : Cursor}

/-- A block that breaks off is refused behind its last zero byte. -/
theorem decode_of_breaksOff (h : BreaksOff c.unread) (charset : Charset) (naming : TableNaming) :
    decode charset naming c =
      .error (.unterminated (c.offset + (terminated c.unread).length))
        (c.advance (terminated c.unread).length) := by
  obtain ⟨ps, rest, hcut⟩ := exists_cut c.unread
  rw [hcut.terminated_eq]
  simp only [decode, bind, EStateM.bind,
    Cursor.terminatedStrings_of_rest charset hcut (hcut.breaksOff_iff.1 h)]

/-- The pieces of any other block are its names; one without names is refused if there must be
    one. -/
theorem decode_of_not_breaksOff (h : ¬ BreaksOff c.unread) {charset : Charset}
    {naming : TableNaming} (hnamed : ¬ (c.unread = [] ∧ naming = .required)) :
    decode charset naming c =
      .ok ⟨((pieces c.unread).map charset.decode).head?,
        ((pieces c.unread).map charset.decode).tail⟩ (c.advance c.remaining) := by
  obtain ⟨hc, hpieces, _⟩ := cut_pieces h
  rw [List.append_nil] at hc
  simp only [decode, bind, EStateM.bind, Cursor.terminatedStrings_of_pieces charset hpieces hc]
  -- An empty block is only read where no name is required.
  cases hps : pieces c.unread with
  | nil =>
    cases naming with
    | optional => rfl
    | required =>
      rw [hps] at hc
      exact absurd ⟨hc, rfl⟩ hnamed
  | cons piece ps => rfl

/-- A block that is read does not break off, and the names stand for its pieces. -/
theorem of_decode_ok {charset : Charset} {naming : TableNaming} {b : NameBlock} {stop : Cursor}
    (h : decode charset naming c = .ok b stop) :
    ¬ BreaksOff c.unread ∧
      b = ⟨((pieces c.unread).map charset.decode).head?,
        ((pieces c.unread).map charset.decode).tail⟩ := by
  -- In the other two cases of the block there is an error.
  by_cases hbreaks : BreaksOff c.unread
  · rw [decode_of_breaksOff hbreaks] at h
    cases h
  refine ⟨hbreaks, ?_⟩
  by_cases hunnamed : c.unread = [] ∧ naming = .required
  · obtain ⟨hnil, rfl⟩ := hunnamed
    have hend : c.atEnd = true := by
      rw [Cursor.atEnd, hnil]
      rfl
    rw [(decode_of_atEnd hend charset).2] at h
    cases h
  · rw [decode_of_not_breaksOff hbreaks hunnamed] at h
    exact (EStateM.Result.ok.inj h).1.symm

/-- The names of a block that is read stand for its pieces. -/
theorem names_of_decode_ok {charset : Charset} {naming : TableNaming} {b : NameBlock}
    {stop : Cursor} (h : decode charset naming c = .ok b stop) :
    b.names = (pieces c.unread).map charset.decode := by
  obtain ⟨-, rfl⟩ := of_decode_ok h
  unfold names
  cases (pieces c.unread).map charset.decode <;> rfl

/-- Pieces that are ended by zero bytes are read as the names that they stand for. -/
theorem Cut.exists_decode_ok {ps : List (List UInt8)} (h : Cut c.unread ps []) (hne : ps ≠ [])
    (charset : Charset) (naming : TableNaming) :
    ∃ b, decode charset naming c = .ok b (c.advance c.remaining) ∧
      b.names = ps.map charset.decode := by
  have hwhole : ¬ BreaksOff c.unread := fun hbreaks => h.breaksOff_iff.1 hbreaks rfl
  have hnonempty : c.unread ≠ [] := by
    intro hnil
    obtain ⟨piece, ps, rfl⟩ := List.exists_cons_of_ne_nil hne
    have hbytes := h.bytes_eq
    simp [hnil] at hbytes
  have hok : decode charset naming c = .ok _ (c.advance c.remaining) :=
    decode_of_not_breaksOff hwhole fun hunnamed => hnonempty hunnamed.1
  refine ⟨_, hok, ?_⟩
  rw [names_of_decode_ok hok, h.pieces_eq]

end NameBlock

/-! ### Bodies -/

namespace VirtualTable

/-- A table that is read has all of its fields and of its name block. -/
theorem exists_names_of_decode_ok {ctx : Context} {s s' : Reader.State} {table : VirtualTable}
    (h : decode ctx s = .ok table s') :
    16 + field s.cursor.unread 3 ≤ s.cursor.unread.length ∧ ∃ names stop,
      NameBlock.decode ctx.options.charset ctx.options.naming
        ((s.cursor.advance 16).window (field s.cursor.unread 3)) = .ok names stop ∧
      table = ⟨indexField s.cursor.unread 0, indexField s.cursor.unread 1,
        offsetField s.cursor.unread, names⟩ := by
  -- The fields and the block must be complete, or there would be an error.
  by_cases hshort : s.cursor.remaining < 16
  · rw [decode_of_short ctx (k := s.cursor.remaining / 4) (by omega) (by omega) (by omega)] at h
    cases h
  rw [decode_of_fields ctx (Nat.le_of_not_lt hshort)] at h
  by_cases hover : (s.cursor.advance 16).remaining < field s.cursor.unread 3
  · rw [decodeNames_of_lt ctx _ _ _ hover] at h
    cases h
  have hle := Nat.le_of_not_lt hover
  refine ⟨?_, ?_⟩
  · rw [Cursor.remaining_advance] at hle
    unfold Cursor.remaining at hle hshort
    omega
  · rw [decodeNames_of_le ctx _ _ _ hle] at h
    split at h
    · cases h
    · rename_i names stop hnames
      exact ⟨names, stop, hnames, (EStateM.Result.ok.inj h).1.symm⟩

/-- What reading the body of a table comes to, where it stops, and what it has reported there.  A
    field that does not fit, a name block that is too long, a string without an end and an empty
    block where a name is required are told in this order.  Otherwise the fields and the strings of
    the block make the table, and the padding behind the block is passed over as far as there is
    any. -/
theorem decode_layout (ctx : Context) (body : List UInt8) (origin alignment : Nat) :
    let start := Cursor.ofBytes body origin alignment
    let reported := fieldReferences ctx.index body
    let size := field body 3
    let block := (body.drop 16).take size
    let names := (NameBlock.pieces block).map ctx.options.charset.decode
    let boundary := max alignment 1
    let wanted := (boundary - (origin + 16 + size) % boundary) % boundary
    decode ctx (.ofCursor start) =
      if body.length < 16 then
        let k := body.length / 4
        .error (.truncated (if k = 2 then "i32" else "u32") (origin + 4 * k) 4
          (body.length - 4 * k)) ⟨start.advance (4 * k), reported.take k⟩
      else if body.length - 16 < size then
        .error (.blockOverrun size (body.length - 16)) ⟨start.advance 16, reported⟩
      else if NameBlock.BreaksOff block then
        .error (.unterminated (origin + 16 + (NameBlock.terminated block).length))
          ⟨start.advance (16 + size), reported⟩
      else if size = 0 ∧ ctx.options.naming = .required then
        .error .unnamedTable ⟨start.advance 16, reported⟩
      else
        .ok ⟨indexField body 0, indexField body 1, offsetField body, ⟨names.head?, names.tail⟩⟩
          ⟨start.advance (16 + size + min wanted (body.length - 16 - size)), reported⟩ := by
  intro start reported size block names boundary wanted
  -- One of the four fields is cut off.
  by_cases hshort : body.length < 16
  · rw [if_pos hshort]
    exact decode_of_short ctx (s := .ofCursor start) (k := body.length / 4) (by omega)
      (by show _ ≤ body.length; omega) (by show body.length < _; omega)
  rw [if_neg hshort, decode_of_fields ctx (s := .ofCursor start) (Nat.le_of_not_lt hshort)]
  have hleft : (start.advance 16).remaining = body.length - 16 := Cursor.remaining_advance start 16
  -- The block is longer than what is left.
  by_cases hover : body.length - 16 < size
  · rw [if_pos hover, ← hleft]
    exact decodeNames_of_lt ctx _ _ _ (s := ⟨start.advance 16, reported⟩) (by rwa [hleft])
  have hle : size ≤ (start.advance 16).remaining := by
    rw [hleft]
    exact Nat.le_of_not_lt hover
  -- From here on the block is complete, so its bytes alone decide about the names.
  have hunread : ((start.advance 16).window size).unread = block := rfl
  have hempty : block = [] ↔ size = 0 := by
    rw [← List.length_eq_zero_iff, List.length_take, List.length_drop]
    omega
  rw [if_neg hover]
  refine (decodeNames_of_le ctx _ _ _ (s := ⟨start.advance 16, reported⟩) hle).trans ?_
  by_cases hbreaks : NameBlock.BreaksOff block
  · rw [if_pos hbreaks, NameBlock.decode_of_breaksOff hbreaks, Cursor.advance_advance]
    rfl
  rw [if_neg hbreaks]
  by_cases hunnamed : size = 0 ∧ ctx.options.naming = .required
  · obtain ⟨hzero, hrequired⟩ := hunnamed
    have hend : ((start.advance 16).window size).atEnd = true := by
      rw [Cursor.atEnd, hunread, hempty.2 hzero]
      rfl
    rw [if_pos ⟨hzero, hrequired⟩, hrequired, (NameBlock.decode_of_atEnd hend _).2,
      Cursor.advance_advance, hzero]
  · have hpadded : ((start.advance 16).advance size).padded =
        start.advance (16 + size + min wanted (body.length - 16 - size)) := by
      have hpadding : ((start.advance 16).advance size).padding = wanted := by
        simp only [Cursor.padding, Cursor.offset_advance]
        rfl
      rw [Cursor.padded, hpadding, Cursor.remaining_advance, hleft, Cursor.advance_advance,
        Cursor.advance_advance, Nat.add_assoc]
    rw [if_neg hunnamed, NameBlock.decode_of_not_breaksOff hbreaks (by rwa [hunread, hempty]),
      hpadded]
    rfl

/-- The second string of this block has no end; it starts 18 bytes into the body. -/
example :
    let body : List UInt8 := [0x74, 0, 0, 0, 0, 0, 0, 0, 0, 0, 0, 0, 3, 0, 0, 0, 0x41, 0, 0x42, 0]
    let start := Cursor.ofBytes body 4 4
    decode ⟨⟨0x1000⟩, {}⟩ (.ofCursor start) = .error (.unterminated 22)
      ⟨start.advance 19, [⟨⟨0x1000⟩, ⟨0x74⟩⟩, ⟨⟨0x1000⟩, .none⟩]⟩ := by
  cbv

end VirtualTable

end TypeStream
