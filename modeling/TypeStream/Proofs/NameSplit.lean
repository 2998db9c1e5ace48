import TypeStream.Proofs.AsciiBytes
import TypeStream.Proofs.TableLayout

/-!
# Name blocks are split at zero bytes

Reading a name block comes to one split of its bytes: the bytes in front of each zero byte are a
name, the first of them that of the table.  Every byte takes part, so a block is read exactly if it
ends in a zero byte, or is empty where it may be; else reading stops behind the last zero byte.
There are as many names as zero bytes, and no name holds the character of one.

## Key results

- `NameBlock.Cut.length_eq_count`: pieces are as many as zero bytes
- `NameBlock.longest_terminated`: how far a block that breaks off is read
- `NameBlock.decode_split`: a name block, by its bytes
-/

namespace TypeStream

/-- A name of bytes that are not zero does not hold the character of a zero byte. -/
theorem Charset.nul_notMem_decode {piece : List UInt8} (h : 0 ∉ piece) (charset : Charset) :
    '\x00' ∉ (charset.decode piece).toList := by
  rw [toList_decode, mem_chars_iff (by decide)]
  exact h

namespace NameBlock

/-- There is a piece for every zero byte. -/
theorem Cut.length_eq_count {block rest : List UInt8} {ps : List (List UInt8)}
    (h : Cut block ps rest) : ps.length = block.count 0 := by
  obtain ⟨rfl, hpieces, hrest⟩ := h
  rw [List.count_append, List.count_eq_zero_of_not_mem hrest, Nat.add_zero]
  induction ps with
  | nil => rfl
  -- Each piece brings its own zero byte and no other.
  | cons piece ps ih =>
    obtain ⟨hpiece, hpieces⟩ := List.forall_mem_cons.1 hpieces
    have hcount : (piece ++ [0]).count 0 = 1 := by
      rw [List.count_append, List.count_eq_zero_of_not_mem hpiece]
      rfl
    rw [List.length_cons, ih hpieces, List.flatMap_cons, List.count_append, hcount, Nat.add_comm]

/-- Only an empty block has no pieces. -/
theorem Cut.eq_nil_iff {block : List UInt8} {ps : List (List UInt8)} (h : Cut block ps []) :
    ps = [] ↔ block = [] := by
  obtain ⟨rfl, -, -⟩ := h
  cases ps <;> simp

/-- A block up to its last zero byte is its longest start that ends in one. -/
theorem longest_terminated (block : List UInt8) :
    terminated block <+: block ∧
      (terminated block = [] ∨ (terminated block).getLast? = some 0) ∧
      ∀ front, front <+: block → front.getLast? = some 0 → front <+: terminated block := by
  obtain ⟨ps, rest, hcut⟩ := exists_cut block
  rw [hcut.terminated_eq]
  obtain ⟨rfl, -, hrest⟩ := hcut
  refine ⟨List.prefix_append _ _, ?_, ?_⟩
  · rcases eq_nil_or_exists_concat ps with rfl | ⟨front, hfront⟩
    · exact .inl rfl
    · rw [hfront, List.getLast?_concat]
      exact .inr rfl
  · intro front hstart hlast
    by_cases hle : front.length ≤ (ps.flatMap (· ++ [0])).length
    · exact List.prefix_of_prefix_length_le hstart (List.prefix_append _ _) hle
    · -- A longer start ends inside the rest, which has no zero byte.
      obtain ⟨more, rfl⟩ := List.prefix_of_prefix_length_le (List.prefix_append _ _) hstart
        (by omega)
      have hmore : more ≠ [] := by
        rintro rfl
        simp at hle
      have hsub : more <+: rest := (List.prefix_append_right_inj _).1 hstart
      rw [List.getLast?_append_of_ne_nil _ hmore] at hlast
      exact absurd (hsub.mem (List.mem_of_getLast? hlast)) hrest

/-- The names that pieces stand for are as many, and none holds the character of a zero byte. -/
theorem names_of_pieces (charset : Charset) {ps : List (List UInt8)}
    (h : ∀ piece ∈ ps, 0 ∉ piece) :
    let b : NameBlock := ⟨(ps.map charset.decode).head?, (ps.map charset.decode).tail⟩
    b.size = ps.length ∧ (b.isEmpty = true ↔ ps = []) ∧
      ∀ name ∈ b.tableName.toList ++ b.methods, '\x00' ∉ name.toList := by
  cases ps with
  -- Without a piece there is no name and no method.
  | nil => exact ⟨rfl, iff_of_true rfl rfl, nofun⟩
  | cons piece ps =>
    refine ⟨?_, iff_of_false nofun nofun, ?_⟩
    · simp only [size, List.map_cons, List.head?_cons, List.tail_cons, Option.toList_some,
        List.length_cons, List.length_map, List.length_nil]
      omega
    · intro name hname
      have hmem : name ∈ (piece :: ps).map charset.decode := hname
      obtain ⟨piece, hpiece, rfl⟩ := List.mem_map.1 hmem
      exact charset.nul_notMem_decode (h piece hpiece)

/-- All of a block that is read is passed over. -/
theorem stop_of_decode_ok {charset : Charset} {naming : TableNaming} {c stop : Cursor}
    {b : NameBlock} (h : decode charset naming c = .ok b stop) : stop = c.advance c.remaining := by
  obtain ⟨hwhole, -⟩ := of_decode_ok h
  by_cases hunnamed : c.unread = [] ∧ naming = .required
  · obtain ⟨hnil, rfl⟩ := hunnamed
    rw [(decode_of_atEnd (by simp [Cursor.atEnd, hnil]) charset).2] at h
    cases h
  · rw [decode_of_not_breaksOff hwhole hunnamed] at h
    exact (EStateM.Result.ok.inj h).2.symm

variable (charset : Charset) (naming : TableNaming) (c : Cursor)

/-- A block is read exactly if it ends in a zero byte, or is empty and may be. -/
theorem decode_ok_iff : (∃ b stop, decode charset naming c = .ok b stop) ↔
    c.unread = [] ∧ naming = .optional ∨ c.unread.getLast? = some 0 := by
  -- Either the block breaks off, or it is empty where a name is required, or it is read.
  by_cases hbreaks : BreaksOff c.unread
  · obtain ⟨hne, hlast⟩ := hbreaks
    simp [decode_of_breaksOff ⟨hne, hlast⟩, hne, hlast]
  by_cases hunnamed : c.unread = [] ∧ naming = .required
  · obtain ⟨hnil, rfl⟩ := hunnamed
    have hend : c.atEnd = true := by simp [Cursor.atEnd, hnil]
    simp [(decode_of_atEnd hend charset).2, hnil]
  · refine iff_of_true ⟨_, _, decode_of_not_breaksOff hbreaks hunnamed⟩ ?_
    by_cases hnil : c.unread = []
    · cases naming with
      | optional => exact .inl ⟨hnil, rfl⟩
      | required => exact absurd ⟨hnil, rfl⟩ hunnamed
    · exact .inr (not_not.1 fun hlast => hbreaks ⟨hnil, hlast⟩)

/-- Reading a block is the split of its bytes at the zero bytes.  It gives a result exactly if the
    block ends in a zero byte, or is empty and may be.  Then the block is made of pieces without
    zero bytes that are each ended by one; the first of them is the name of the table, the others
    those of the methods, and everything is read.  A block that ends otherwise is refused behind its
    longest start that ends in a zero byte, and an empty one where a name is required is refused
    where it stands. -/
theorem decode_split :
    ((∃ b stop, decode charset naming c = .ok b stop) ↔
      c.unread = [] ∧ naming = .optional ∨ c.unread.getLast? = some 0) ∧
    (∀ b stop, decode charset naming c = .ok b stop →
      (∃ ps : List (List UInt8), c.unread = ps.flatMap (· ++ [0]) ∧ (∀ piece ∈ ps, 0 ∉ piece) ∧
        b.tableName = ps.head?.map charset.decode ∧ b.methods = ps.tail.map charset.decode) ∧
      (b.tableName = none ↔ c.unread = []) ∧
      b.size = c.unread.count 0 ∧ (b.isEmpty = true ↔ b.size = 0) ∧
      (∀ name ∈ b.tableName.toList ++ b.methods, '\x00' ∉ name.toList) ∧
      stop = c.advance c.remaining ∧ stop.remaining = 0) ∧
    (c.unread ≠ [] → c.unread.getLast? ≠ some 0 →
      ∃ front, front <+: c.unread ∧ (front = [] ∨ front.getLast? = some 0) ∧
        (∀ other, other <+: c.unread → other.getLast? = some 0 → other.length ≤ front.length) ∧
        decode charset naming c =
          .error (.unterminated (c.offset + front.length)) (c.advance front.length)) ∧
    (c.unread = [] → naming = .required → decode charset naming c = .error .unnamedTable c) := by
  refine ⟨decode_ok_iff charset naming c, fun b stop h => ?_, fun hne hlast => ?_, ?_⟩
  -- What is read are the pieces of the whole block, one for each zero byte.
  · obtain rfl := stop_of_decode_ok h
    obtain ⟨hwhole, rfl⟩ := of_decode_ok h
    have hcut := cut_pieces hwhole
    have hcount := hcut.length_eq_count
    have hnone := hcut.eq_nil_iff
    obtain ⟨hbytes, hpieces, -⟩ := hcut
    obtain ⟨hsize, hempty, hnames⟩ := names_of_pieces charset hpieces
    rw [List.append_nil] at hbytes
    refine ⟨⟨_, hbytes, hpieces, List.head?_map, List.map_tail.symm⟩, ?_, hsize.trans hcount, ?_,
      hnames, rfl, by simp⟩
    · rw [← hnone, ← hempty, isEmpty, Option.isNone_iff_eq_none]
    · rw [hempty, hsize, List.length_eq_zero_iff]
  -- Where it breaks off, the pieces in front of the rest are the longest terminated start.
  · obtain ⟨hstart, hends, hlongest⟩ := longest_terminated c.unread
    exact ⟨_, hstart, hends, fun other hother hzero => (hlongest other hother hzero).length_le,
      decode_of_breaksOff ⟨hne, hlast⟩ charset naming⟩
  · rintro hnil rfl
    exact (decode_of_atEnd (by simp [Cursor.atEnd, hnil]) charset).2

/-- A block with two empty names and a third one, behind which a name breaks off; its first four
    bytes, which are read as three names; and none of its bytes. -/
theorem decode_split_empty_names :
    let c := Cursor.ofBytes [0, 0, 0x6d, 0, 0x41] 7 4
    c.unread ≠ [] ∧ c.unread.getLast? ≠ some 0 ∧
      (∃ front, front <+: c.unread ∧ (front = [] ∨ front.getLast? = some 0) ∧
        (∀ other, other <+: c.unread → other.getLast? = some 0 → other.length ≤ front.length) ∧
        decode .utf8 .required c =
          .error (.unterminated (c.offset + front.length)) (c.advance front.length)) ∧
      decode .utf8 .required (c.window 0) = .error .unnamedTable (c.window 0) ∧
      decode .utf8 .optional (c.window 4) = .ok ⟨some "", ["", "m"]⟩ ((c.window 4).advance 4) ∧
      NameBlock.size ⟨some "", ["", "m"]⟩ = (c.window 4).unread.count 0 := by
  intro c
  have hne : c.unread ≠ [] := by decide
  have hlast : c.unread.getLast? ≠ some 0 := by decide
  have hok : decode .utf8 .optional (c.window 4) =
      .ok ⟨some "", ["", "m"]⟩ ((c.window 4).advance 4) :=
    decode_of_not_breaksOff (by decide) (by decide)
  exact ⟨hne, hlast, (decode_split .utf8 .required c).2.2.1 hne hlast,
    (decode_split .utf8 .required (c.window 0)).2.2.2 rfl rfl, hok,
    ((decode_split .utf8 .optional (c.window 4)).2.1 _ _ hok).2.2.1⟩

end NameBlock

end TypeStream
