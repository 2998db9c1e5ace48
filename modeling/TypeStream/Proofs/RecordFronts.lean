import TypeStream.Proofs.RecordRoundTrip

/-!
# Records and what stands behind them

The bodies of tables and shapes tell how far they reach: a table holds the length of its name
block, a shape the number of its slots.  The bytes up to there are the front of a body.  Behind it
there is only padding, which is passed over and never looked at.

## Key results

- `VirtualTable.decode_of_short`, `VirtualTable.decode_of_fields`: the fields of a table
- `VirtualTable.decode_of_front`: a table is what its front makes it, up to the names
- `VirtualTable.front_or_cutOff`: a body that ends inside its front is refused
- `TableShape.decode_of_front`, `TableShape.front_or_truncates`: the same for shapes
-/

namespace TypeStream

/-! ### Positions -/

namespace Cursor

/-- The cursor behind the padding up to the next boundary, or at the end of the window. -/
def padded (c : Cursor) : Cursor := c.advance (min c.padding c.remaining)

/-- Behind `n` bytes, padding is passed over as far as there is any. -/
theorem padded_advance_ofBytes (bytes : List UInt8) (origin alignment n : Nat) :
    ((ofBytes bytes origin alignment).advance n).padded =
      (ofBytes bytes origin alignment).advance (n + min
        ((max alignment 1 - (origin + n) % max alignment 1) % max alignment 1)
        (bytes.length - n)) := by
  unfold padded
  rw [remaining_advance, advance_advance]
  simp only [padding, offset_advance]
  rfl

/-- Padding is passed over up to the end of the window at most. -/
theorem padded_eq_advance (c : Cursor) : ∃ n ≤ c.remaining, c.padded = c.advance n :=
  ⟨_, Nat.min_le_right _ _, rfl⟩

/-- The error tells of a field that starts at the cursor or behind it, and reaches beyond the end of
    the window. -/
inductive Truncates (c : Cursor) : Error → Prop
  | intro {field offset needed available} : c.offset ≤ offset →
      offset + available = c.offset + c.remaining → available < needed →
      Truncates c (.truncated field offset needed available)

/-- What `bytes` complains about, `n` bytes behind the cursor. -/
theorem truncates_advance {c : Cursor} {n needed : Nat} {field : String} (hn : n ≤ c.remaining)
    (h : (c.advance n).remaining < needed) :
    c.Truncates (.truncated field (c.advance n).offset needed (c.advance n).remaining) := by
  refine .intro ?_ ?_ h
  · rw [offset_advance]
    omega
  · rw [offset_advance, remaining_advance]
    omega

/-- The cursors stand in the same place of windows of the same size, whatever these hold. -/
structure SamePlace (c c' : Cursor) : Prop where
  offset_eq : c.offset = c'.offset
  remaining_eq : c.remaining = c'.remaining
  alignment_eq : c.alignment = c'.alignment

namespace SamePlace

variable {c c' : Cursor} (h : SamePlace c c')
include h

/-- Cursors in the same place get to the same place. -/
theorem advance (n : Nat) : SamePlace (c.advance n) (c'.advance n) where
  offset_eq := by rw [offset_advance, offset_advance, h.offset_eq]
  remaining_eq := by rw [remaining_advance, remaining_advance, h.remaining_eq]
  alignment_eq := h.alignment_eq

/-- Their padding is as long, so behind it they are in the same place again. -/
theorem padded : SamePlace c.padded c'.padded := by
  have hpadding : c.padding = c'.padding := by
    unfold padding
    rw [h.offset_eq, h.alignment_eq]
  unfold Cursor.padded
  rw [hpadding, h.remaining_eq]
  exact h.advance _

theorem atEnd_eq : c.atEnd = c'.atEnd := by
  rw [Bool.eq_iff_iff, atEnd_iff, atEnd_iff, h.remaining_eq]

end SamePlace

end Cursor

/-! ### Tables -/

namespace VirtualTable

/-- The bytes are the fields of a table and all of the name block that the last field announces. -/
structure IsFront (front : List UInt8) : Prop where
  fields_le : 16 ≤ front.length
  length_eq : front.length = 16 + LittleEndian.decode ((front.take 16).drop 12)

instance (front : List UInt8) : Decidable (IsFront front) :=
  decidable_of_iff (16 ≤ front.length ∧
      front.length = 16 + LittleEndian.decode ((front.take 16).drop 12))
    ⟨fun h => ⟨h.1, h.2⟩, fun h => ⟨h.1, h.2⟩⟩

/-- The number in a field of four bytes, with `k` such fields in front of it. -/
def field (body : List UInt8) (k : Nat) : Nat := LittleEndian.decode ((body.drop (4 * k)).take 4)

/-- The index in such a field. -/
def indexField (body : List UInt8) (k : Nat) : TypeIndex := ⟨UInt32.ofNat (field body k)⟩

/-- The offset in the third field, in two's complement. -/
def offsetField (body : List UInt8) : Int32 := Int32.ofNat (field body 2)

/-- The references that the first two fields report. -/
def fieldReferences (index : TypeIndex) (body : List UInt8) : List Reference :=
  [⟨index, indexField body 0⟩, ⟨index, indexField body 1⟩]

/-- A field of the front does not depend on what stands behind the front. -/
theorem field_append {front : List UInt8} {k : Nat} (h : 4 * k + 4 ≤ front.length)
    (rest : List UInt8) : field (front ++ rest) k = field front k := by
  have hle : 4 ≤ (front.drop (4 * k)).length := by
    rw [List.length_drop]
    omega
  unfold field
  rw [List.drop_append_of_le_length (by omega), List.take_append_of_le_length hle]

/-- A front is as long as its fixed fields and the names that its last field tells of. -/
theorem IsFront.length_eq_field {front : List UInt8} (h : IsFront front) :
    front.length = 16 + field front 3 := by
  rw [h.length_eq, List.drop_take]
  rfl

/-- The bytes of a field are a number of 32 bits. -/
theorem toNat_ofNat_field {body : List UInt8} {k : Nat} (h : 4 * k + 4 ≤ body.length) :
    (UInt32.ofNat (field body k)).toNat = field body k := by
  have hlt := LittleEndian.decode_lt ((body.drop (4 * k)).take 4)
  rw [List.length_take_of_le (by rw [List.length_drop]; omega)] at hlt
  rw [UInt32.toNat_ofNat']
  exact Nat.mod_eq_of_lt hlt

section ReadingFields

variable {α β : Type} (read : Cursor.Read α) {name : String} {f : List UInt8 → α}
  {s : Reader.State}

/-- A number of four bytes is read where four bytes are left. -/
theorem ofRead_bind_of_le (hread : read = do return f (← Cursor.bytes name 4))
    (h : 4 ≤ s.cursor.remaining) (next : α → Reader β) :
    (Reader.ofRead read >>= next) s =
      next (f (s.cursor.unread.take 4)) ⟨s.cursor.advance 4, s.references⟩ := by
  subst hread
  simp only [bind, EStateM.bind, Reader.ofRead, Cursor.bytes_of_le h, pure, EStateM.pure]

/-- A field that does not fit is cut off, and nothing is read behind it. -/
theorem ofRead_bind_of_lt (hread : read = do return f (← Cursor.bytes name 4))
    (h : s.cursor.remaining < 4) (next : α → Reader β) :
    (Reader.ofRead read >>= next) s =
      .error (.truncated name s.cursor.offset 4 s.cursor.remaining) s := by
  subst hread
  simp only [bind, EStateM.bind, Reader.ofRead, Cursor.bytes_of_lt h]

/-- An index that fits is read from the next four bytes, and reported. -/
theorem reference_bind_of_le (ctx : Context) (h : 4 ≤ s.cursor.remaining)
    (next : TypeIndex → Reader β) :
    (Reader.reference ctx >>= next) s =
      next (indexField s.cursor.unread 0) ⟨s.cursor.advance 4,
        s.references ++ [⟨ctx.index, indexField s.cursor.unread 0⟩]⟩ := by
  show EStateM.bind (Reader.ofRead Cursor.u32 >>= _) next s = _
  rw [EStateM.bind, ofRead_bind_of_le Cursor.u32 rfl h]
  rfl

/-- One that does not fit is not reported. -/
theorem reference_bind_of_lt (ctx : Context) (h : s.cursor.remaining < 4)
    (next : TypeIndex → Reader β) :
    (Reader.reference ctx >>= next) s =
      .error (.truncated "u32" s.cursor.offset 4 s.cursor.remaining) s := by
  show EStateM.bind (Reader.ofRead Cursor.u32 >>= _) next s = _
  rw [EStateM.bind, ofRead_bind_of_lt Cursor.u32 rfl h]

end ReadingFields

/-- The body of a table, field by field. -/
theorem decode_eq_bind (ctx : Context) :
    decode ctx = (Reader.reference ctx >>= fun owner => Reader.reference ctx >>= fun base =>
      Reader.ofRead Cursor.i32 >>= fun pointerOffset => Reader.ofRead Cursor.u32 >>= fun length =>
        decodeNames ctx owner base pointerOffset length.toNat) := rfl

/-- A body that ends in one of the fields is refused at that field, behind the references of those
    in front of it. -/
theorem decode_of_short (ctx : Context) {s : Reader.State} {k : Nat} (hk : k < 4)
    (hle : 4 * k ≤ s.cursor.remaining) (hlt : s.cursor.remaining < 4 * k + 4) :
    decode ctx s = .error
      (.truncated (if k = 2 then "i32" else "u32") (s.cursor.offset + 4 * k) 4
        (s.cursor.remaining - 4 * k))
      ⟨s.cursor.advance (4 * k),
        s.references ++ (fieldReferences ctx.index s.cursor.unread).take k⟩ := by
  have hfields : k = 0 ∨ k = 1 ∨ k = 2 ∨ k = 3 := by omega
  rw [decode_eq_bind]
  -- The fields in front of the one that is cut short are all there.
  rcases hfields with rfl | rfl | rfl | rfl
  · rw [reference_bind_of_lt ctx (by omega)]
    simp [Cursor.advance]
  · rw [reference_bind_of_le ctx (by omega), reference_bind_of_lt ctx (by simp; omega)]
    simp [fieldReferences]
  · rw [reference_bind_of_le ctx (by omega), reference_bind_of_le ctx (by simp; omega),
      ofRead_bind_of_lt Cursor.i32 rfl (by simp; omega)]
    simp [fieldReferences, indexField, field]
  · rw [reference_bind_of_le ctx (by omega), reference_bind_of_le ctx (by simp; omega),
      ofRead_bind_of_le Cursor.i32 rfl (by simp; omega),
      ofRead_bind_of_lt Cursor.u32 rfl (by simp; omega)]
    simp [fieldReferences, indexField, field]

/-- A body that holds all fields goes on with the name block. -/
theorem decode_of_fields (ctx : Context) {s : Reader.State} (h : 16 ≤ s.cursor.remaining) :
    decode ctx s = decodeNames ctx (indexField s.cursor.unread 0) (indexField s.cursor.unread 1)
      (offsetField s.cursor.unread) (field s.cursor.unread 3)
      ⟨s.cursor.advance 16, s.references ++ fieldReferences ctx.index s.cursor.unread⟩ := by
  have hlength : (UInt32.ofNat (field s.cursor.unread 3)).toNat = field s.cursor.unread 3 :=
    toNat_ofNat_field h
  rw [← hlength, decode_eq_bind, reference_bind_of_le ctx (by omega),
    reference_bind_of_le ctx (by simp; omega),
    ofRead_bind_of_le Cursor.i32 rfl (by simp; omega),
    ofRead_bind_of_le Cursor.u32 rfl (by simp; omega)]
  simp [fieldReferences, indexField, offsetField, field]

/-- A name block that is not cut short is read in a window of its own; then padding is passed
    over. -/
theorem decodeNames_of_le (ctx : Context) (owner base : TypeIndex) (pointerOffset : Int32)
    {length : Nat} {s : Reader.State} (h : length ≤ s.cursor.remaining) :
    decodeNames ctx owner base pointerOffset length s =
      match NameBlock.decode ctx.options.charset ctx.options.naming (s.cursor.window length) with
      | .error e _ => .error e ⟨s.cursor.advance length, s.references⟩
      | .ok names _ => .ok ⟨owner, base, pointerOffset, names⟩
          ⟨(s.cursor.advance length).padded, s.references⟩ := by
  show (Reader.ofRead (Cursor.block length) >>= fun block =>
    Reader.within block (NameBlock.decode ctx.options.charset ctx.options.naming) >>= fun names =>
      Reader.ofRead Cursor.align >>= fun _ =>
        pure (VirtualTable.mk owner base pointerOffset names)) s = _
  simp only [bind, EStateM.bind, Reader.ofRead, Cursor.block_of_le h, Reader.within]
  cases NameBlock.decode ctx.options.charset ctx.options.naming (s.cursor.window length) <;> rfl

/-- A block of names that is longer than the bytes left is refused before it is read. -/
theorem decodeNames_of_lt (ctx : Context) (owner base : TypeIndex) (pointerOffset : Int32)
    {length : Nat} {s : Reader.State} (h : s.cursor.remaining < length) :
    decodeNames ctx owner base pointerOffset length s =
      .error (.blockOverrun length s.cursor.remaining) s := by
  show EStateM.bind (Reader.ofRead (Cursor.block length)) _ s = _
  simp only [EStateM.bind, Reader.ofRead, Cursor.block_of_lt h]

/-- The front of a body alone makes the fields of a table, and its names are read in a window that
    ends with it.  What stands behind is told apart by its length only. -/
theorem decode_of_front {front : List UInt8} (h : IsFront front) :
    ∃ owner base pointerOffset, ∀ (ctx : Context) (s : Reader.State) (padding : List UInt8),
      s.cursor.unread = front ++ padding →
        decode ctx s =
          match NameBlock.decode ctx.options.charset ctx.options.naming
            (.ofBytes (front.drop 16) (s.cursor.offset + 16) s.cursor.alignment) with
          | .error e _ => .error e ⟨s.cursor.advance front.length,
              s.references ++ [⟨ctx.index, owner⟩, ⟨ctx.index, base⟩]⟩
          | .ok names _ => .ok ⟨owner, base, pointerOffset, names⟩
              ⟨(s.cursor.advance front.length).padded,
                s.references ++ [⟨ctx.index, owner⟩, ⟨ctx.index, base⟩]⟩ := by
  have hfront := h.length_eq_field
  -- The fields are looked up in the front, whatever stands behind it.
  refine ⟨indexField front 0, indexField front 1, offsetField front, fun ctx s padding hs => ?_⟩
  have hfields : 16 ≤ s.cursor.remaining := by
    rw [Cursor.remaining, hs, List.length_append]
    omega
  have hfield : ∀ k < 4, field s.cursor.unread k = field front k := by
    intro k hk
    rw [hs, field_append (by omega)]
  have hunread : (s.cursor.advance 16).unread = front.drop 16 ++ padding := by
    rw [Cursor.unread_advance, hs, List.drop_append_of_le_length h.fields_le]
  -- The block is as long as the last of the four fields says.
  have hblock : (front.drop 16).length = field front 3 := by
    rw [List.length_drop, hfront, Nat.add_sub_cancel_left]
  have hle : field front 3 ≤ (s.cursor.advance 16).remaining := by
    rw [Cursor.remaining, hunread, List.length_append, hblock]
    exact Nat.le_add_right _ _
  rw [decode_of_fields ctx hfields]
  simp only [indexField, offsetField, fieldReferences, hfield 0 (by decide), hfield 1 (by decide),
    hfield 2 (by decide), hfield 3 (by decide)]
  rw [decodeNames_of_le ctx _ _ _ hle]
  simp only [Cursor.window_eq_ofBytes, hunread, ← hblock, List.take_left, Cursor.offset_advance,
    Cursor.alignment_advance, Cursor.advance_advance]
  rw [hblock, ← hfront]

/-- Why a body that ends inside its front is refused: a field or the name block is cut short. -/
inductive CutOff (c : Cursor) : Error → Prop
  | field {e} : c.Truncates e → CutOff c e
  | block {declared available} : 16 + available = c.remaining → available < declared →
      CutOff c (.blockOverrun declared available)

/-- A body that is cut off is not refused for a name. -/
theorem CutOff.ne_unnamedTable {c : Cursor} {e : Error} (h : CutOff c e) : e ≠ .unnamedTable := by
  rintro rfl
  cases h with
  | field htruncated => cases htruncated

/-- A body has all of its front, or it is refused under all options because it ends too early. -/
theorem front_or_cutOff (index : TypeIndex) (s : Reader.State) :
    (∃ front padding, s.cursor.unread = front ++ padding ∧ IsFront front) ∨
      ∃ e s', CutOff s.cursor e ∧ ∀ o, decode ⟨index, o⟩ s = .error e s' := by
  by_cases hshort : s.cursor.remaining < 16
  · -- As many fields are complete as there are times four bytes.
    have hdecode : ∀ o, decode ⟨index, o⟩ s = .error _
        ⟨_, s.references ++ (fieldReferences index s.cursor.unread).take _⟩ := fun o =>
      decode_of_short ⟨index, o⟩ (k := s.cursor.remaining / 4) (by omega) (by omega) (by omega)
    refine .inr ⟨_, _, .field ?_, hdecode⟩
    exact .intro (by omega) (by omega) (by omega)
  have hfields := Nat.le_of_not_lt hshort
  by_cases hle : field s.cursor.unread 3 ≤ (s.cursor.advance 16).remaining
  · -- The name block is complete, so the fields and the block are the front.
    rw [Cursor.remaining_advance] at hle
    refine .inl ⟨_, _, (List.take_append_drop (16 + field s.cursor.unread 3) _).symm, ?_⟩
    have hsize : (s.cursor.unread.take (16 + field s.cursor.unread 3)).length =
        16 + field s.cursor.unread 3 := by
      apply List.length_take_of_le
      unfold Cursor.remaining at hle hfields
      omega
    refine ⟨by omega, ?_⟩
    rw [hsize, List.take_take, Nat.min_eq_left (Nat.le_add_right _ _), List.drop_take]
    rfl
  -- The length says more than is left.
  · have hlt := Nat.lt_of_not_le hle
    refine .inr ⟨.blockOverrun (field s.cursor.unread 3) (s.cursor.advance 16).remaining,
      ⟨s.cursor.advance 16, s.references ++ fieldReferences index s.cursor.unread⟩, .block ?_ hlt,
      fun o => ?_⟩
    · rw [Cursor.remaining_advance]
      omega
    · rw [decode_of_fields ⟨index, o⟩ hfields, decodeNames_of_lt _ _ _ _ hlt]

end VirtualTable

/-! ### Shapes -/

namespace TableShape

/-- The bytes are the number of the slots of a shape and the codes of all of them. -/
structure IsFront (front : List UInt8) : Prop where
  count_le : 2 ≤ front.length
  length_eq : front.length = 2 + (LittleEndian.decode (front.take 2) + 1) / 2

instance (front : List UInt8) : Decidable (IsFront front) :=
  decidable_of_iff (2 ≤ front.length ∧
      front.length = 2 + (LittleEndian.decode (front.take 2) + 1) / 2)
    ⟨fun h => ⟨h.1, h.2⟩, fun h => ⟨h.1, h.2⟩⟩

/-- Codes that are not cut short make a shape; then padding is passed over. -/
theorem decodeCodes_of_le {count : Nat} {s : Reader.State}
    (h : (count + 1) / 2 ≤ s.cursor.remaining) :
    decodeCodes count s =
      .ok ⟨((unpack (s.cursor.unread.take ((count + 1) / 2))).take count).map SlotKind.ofCode⟩
        ⟨(s.cursor.advance ((count + 1) / 2)).padded, s.references⟩ := by
  show EStateM.bind (Reader.ofRead (Cursor.bytes _ _)) _ s = _
  simp only [EStateM.bind, Reader.ofRead, Cursor.bytes_of_le h]
  rfl

/-- Codes that do not fit are cut off. -/
theorem decodeCodes_of_lt {count : Nat} {s : Reader.State}
    (h : s.cursor.remaining < (count + 1) / 2) :
    decodeCodes count s = .error (.truncated "vtshape descriptors" s.cursor.offset
      ((count + 1) / 2) s.cursor.remaining) s := by
  show EStateM.bind (Reader.ofRead (Cursor.bytes _ _)) _ s = _
  simp only [EStateM.bind, Reader.ofRead, Cursor.bytes_of_lt h]

/-- The front of a body alone makes a shape.  What stands behind is told apart by its length
    only. -/
theorem decode_of_front {front : List UInt8} (h : IsFront front) :
    ∃ shape, ∀ (ctx : Context) (s : Reader.State) (padding : List UInt8),
      s.cursor.unread = front ++ padding →
        decode ctx s = .ok shape ⟨(s.cursor.advance front.length).padded, s.references⟩ := by
  obtain ⟨hcount, hfront⟩ := h
  refine ⟨⟨((unpack (front.drop 2)).take (LittleEndian.decode (front.take 2))).map
    SlotKind.ofCode⟩, fun ctx s padding hs => ?_⟩
  -- The number of slots is in front of the codes, and the padding behind them.
  have hbody : s.cursor.unread = front.take 2 ++ (front.drop 2 ++ padding) := by
    rw [hs, ← List.append_assoc, List.take_append_drop]
  have hunread : (s.cursor.advance 2).unread = front.drop 2 ++ padding := by
    rw [Cursor.unread_advance, hs, List.drop_append_of_le_length hcount]
  have hcodes : (front.drop 2).length = (LittleEndian.decode (front.take 2) + 1) / 2 := by
    rw [List.length_drop, hfront, Nat.add_sub_cancel_left]
  have hle : (LittleEndian.decode (front.take 2) + 1) / 2 ≤ (s.cursor.advance 2).remaining := by
    rw [Cursor.remaining, hunread, List.length_append, hcodes]
    exact Nat.le_add_right _ _
  rw [decode_count ctx (List.length_take_of_le hcount) hbody, decodeCodes_of_le hle]
  simp only [hunread, ← hcodes, List.take_left, Cursor.advance_advance]
  rw [hcodes, ← hfront]

/-- A body has all of its front, or it is refused because a field is cut short. -/
theorem front_or_truncates (ctx : Context) (s : Reader.State) :
    (∃ front padding, s.cursor.unread = front ++ padding ∧ IsFront front) ∨
      ∃ e s', s.cursor.Truncates e ∧ decode ctx s = .error e s' := by
  by_cases hshort : s.cursor.remaining < 2
  · refine .inr ⟨.truncated "u16" s.cursor.offset 2 s.cursor.remaining, s,
      Cursor.truncates_advance (Nat.zero_le _) hshort, ?_⟩
    show EStateM.bind (Reader.ofRead Cursor.u16) _ s = _
    simp only [EStateM.bind, Reader.ofRead, Cursor.u16, bind, Cursor.bytes_of_lt hshort]
  have hcount := Nat.le_of_not_lt hshort
  have hdecode := decode_count ctx (List.length_take_of_le hcount)
    (List.take_append_drop 2 s.cursor.unread).symm
  by_cases hle : (LittleEndian.decode (s.cursor.unread.take 2) + 1) / 2 ≤
      (s.cursor.advance 2).remaining
  · -- All codes are there, so the number and the codes are the front.
    rw [Cursor.remaining_advance] at hle
    unfold Cursor.remaining at hle hcount
    generalize hn : (LittleEndian.decode (s.cursor.unread.take 2) + 1) / 2 = n at hle
    refine .inl ⟨_, _, (List.take_append_drop (2 + n) s.cursor.unread).symm, ?_, ?_⟩
    · rw [List.length_take]
      omega
    · rw [List.length_take, List.take_take, Nat.min_eq_left (Nat.le_add_right _ _), hn]
      omega
  · have hlt := Nat.lt_of_not_le hle
    rw [decodeCodes_of_lt hlt] at hdecode
    exact .inr ⟨_, _, Cursor.truncates_advance hcount hlt, hdecode⟩

end TableShape

end TypeStream
