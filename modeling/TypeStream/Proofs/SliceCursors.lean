import TypeStream.Cursor.Slice

/-!
# Cursors on slices and cursors

A cursor on a slice that stands inside of its window (`SliceCursor.Sound`) shows the same bytes as
a cursor that keeps the bytes left only, its view.  No read of a sound cursor is a fault, and each
ends as the read of the view does: with the same value or error, at the same position.

## Key results

- `SliceCursor.Sound.remaining?_eq` / `SliceCursor.Sound.offset?_eq`: the observables of the view
- `SliceCursor.Sound.number_eq` and its siblings: a read of the cursor is the read of the view
- `SliceCursor.Sound.align_eq`: padding is passed over as that of the view
-/

namespace TypeStream

namespace Cursor

variable {charset : Charset} {c : Cursor} {n : Nat}

/-- A zero byte that is found is one of those left. -/
theorem length_le_of_idxOf? (h : c.unread.idxOf? 0 = some n) : n + 1 ≤ c.remaining :=
  (List.idxOf?_eq_some_iff.1 h).1

/-- A string ends at the first zero byte. -/
theorem terminatedString_of_idxOf? (h : c.unread.idxOf? 0 = some n) :
    terminatedString charset c = .ok (charset.decode (c.unread.take n)) (c.advance (n + 1)) := by
  obtain ⟨hlt, hzero, hbefore⟩ := List.idxOf?_eq_some_iff.1 h
  have hsplit : c.unread = c.unread.take n ++ 0 :: c.unread.drop (n + 1) := by
    rw [← hzero, List.getElem_cons_drop, List.take_append_drop]
  have hname : 0 ∉ c.unread.take n := by
    intro hmem
    -- The zero byte found is the first one, so none is in front of it.
    obtain ⟨j, hj, hget⟩ := List.getElem_of_mem hmem
    rw [List.length_take] at hj
    rw [List.getElem_take] at hget
    exact hbefore j (by omega) hget
  have hlength : (c.unread.take n).length = n := List.length_take_of_le (Nat.le_of_lt hlt)
  rw [terminatedString_of_append hsplit hname, hlength]

end Cursor

namespace SliceCursor

/-- A cursor that stands inside of its window, where the end of the window is at a word. -/
structure Sound (c : SliceCursor) : Prop where
  position_le : c.position ≤ c.bytes.length
  stop_lt : c.origin + c.bytes.length < Word.count
  alignment_pos : 0 < c.alignment

/-- The cursor `n` bytes further on, where at least `n` bytes are left. -/
def advance (c : SliceCursor) (n : Nat) : SliceCursor := { c with position := c.position + n }

/-- The window of the next `n` bytes, where at least `n` bytes are left. -/
def window (c : SliceCursor) (n : Nat) : SliceCursor :=
  ofBytes ((c.bytes.drop c.position).take n) (c.origin + c.position) c.alignment

/-- What a read of the view does, on the cursor itself. -/
def outcome {α : Type} (c : SliceCursor) :
    EStateM.Result Error Cursor α → Except Error α × SliceCursor
  | .ok a stop => (.ok a, { c with position := stop.consumed })
  | .error e stop => (.error e, { c with position := stop.consumed })

namespace Sound

variable {c : SliceCursor} {n : Nat}

/-- A cursor at the bytes that are left. -/
def view (h : c.Sound) : Cursor where
  unread := c.bytes.drop c.position
  consumed := c.position
  origin := c.origin
  alignment := c.alignment
  alignment_pos := h.alignment_pos

/-- In the view there are left the bytes from the position to the end of the window. -/
theorem remaining_view (h : c.Sound) : h.view.remaining = c.bytes.length - c.position :=
  List.length_drop

/-! ### Observables -/

/-- The cursor tells how many bytes are left, without a fault. -/
theorem remaining?_eq (h : c.Sound) : c.remaining? = some h.view.remaining := by
  rw [h.remaining_view]
  exact Word.sub?_of_le h.position_le

/-- It tells the offset of the view. -/
theorem offset?_eq (h : c.Sound) : c.offset? = some h.view.offset := by
  have hposition := h.position_le
  have hstop := h.stop_lt
  exact Word.add?_of_lt (by omega)

theorem hasMore_iff (h : c.Sound) : c.hasMore = true ↔ 0 < h.view.remaining := by
  simp only [hasMore, decide_eq_true_eq, h.remaining_view]
  omega

/-! ### Steps of the arithmetic -/

/-- A position that stays in the window is a word, since the end of the window is at one. -/
theorem add?_position (h : c.Sound) (hn : n ≤ h.view.remaining) :
    Word.add? c.position n = some (c.position + n) := by
  have hposition := h.position_le
  have hstop := h.stop_lt
  rw [h.remaining_view] at hn
  exact Word.add?_of_lt (by omega)

/-- The bytes left are a part of the window. -/
theorem slice?_rest (h : c.Sound) :
    Word.slice? c.bytes c.position c.bytes.length = some h.view.unread := by
  rw [Word.slice?_of_le h.position_le (Nat.le_refl _), List.take_length]
  rfl

/-- The bytes that are read are a part of the window. -/
theorem slice?_next (h : c.Sound) (hn : n ≤ h.view.remaining) :
    Word.slice? c.bytes c.position (c.position + n) = some (h.view.unread.take n) := by
  have hposition := h.position_le
  rw [h.remaining_view] at hn
  rw [Word.slice?_of_le (by omega) (by omega), List.drop_take, Nat.add_sub_cancel_left]
  rfl

/-! ### Reads -/

/-- Bytes are read as they are from the view. -/
theorem raw_eq (h : c.Sound) (field : String) (n : Nat) :
    raw field n c = some (c.outcome (Cursor.bytes field n h.view)) := by
  -- The bytes are there, or the read fails with what is left.
  by_cases hn : n ≤ h.view.remaining
  · have hfits : ¬ h.view.remaining < n := by omega
    simp only [raw, h.remaining?_eq, h.add?_position hn, h.slice?_next hn, if_neg hfits,
      Option.bind_eq_bind, Option.bind_some, Cursor.bytes_of_le hn]
    rfl
  · have hshort : h.view.remaining < n := by omega
    simp only [raw, h.remaining?_eq, h.offset?_eq, if_pos hshort, Option.bind_eq_bind,
      Option.bind_some, Cursor.bytes_of_lt hshort]
    rfl

/-- So is a number of any width, which the cursor finds by its first byte. -/
theorem number_eq {α : Type} (h : c.Sound) (field : String) (width : Nat) (ofNat : Nat → α) :
    number field width ofNat c = some (c.outcome
      ((return ofNat (LittleEndian.decode (← Cursor.bytes field width)) : Cursor.Read α)
        h.view)) := by
  by_cases hn : width ≤ h.view.remaining
  · have hfits : ¬ h.view.unread.length < width := Nat.not_lt.2 hn
    simp only [number, h.offset?_eq, h.slice?_rest, h.add?_position hn, if_neg hfits,
      Option.bind_some, bind, EStateM.bind, Cursor.bytes_of_le hn]
    rfl
  · have hshort : h.view.remaining < width := Nat.not_le.1 hn
    have hfits : h.view.unread.length < width := hshort
    simp only [number, h.offset?_eq, h.slice?_rest, h.remaining?_eq, if_pos hfits,
      Option.bind_some, bind, EStateM.bind, Cursor.bytes_of_lt hshort]
    rfl

/-- A byte is read as it is from the view. -/
theorem u8_eq (h : c.Sound) : u8 c = some (c.outcome (Cursor.u8 h.view)) :=
  h.number_eq "u8" 1 UInt8.ofNat

theorem u16_eq (h : c.Sound) : u16 c = some (c.outcome (Cursor.u16 h.view)) :=
  h.number_eq "u16" 2 UInt16.ofNat

theorem u32_eq (h : c.Sound) : u32 c = some (c.outcome (Cursor.u32 h.view)) :=
  h.number_eq "u32" 4 UInt32.ofNat

theorem i32_eq (h : c.Sound) : i32 c = some (c.outcome (Cursor.i32 h.view)) :=
  h.number_eq "i32" 4 fun n => (UInt32.ofNat n).toInt32

/-- A window is carved out where the view has one, of the same size. -/
theorem block_eq (h : c.Sound) (n : Nat) :
    block n c = some (c.outcome (((fun _ => c.window n) <$> Cursor.block n) h.view)) := by
  by_cases hn : n ≤ h.view.remaining
  · have hfits : ¬ h.view.remaining < n := by omega
    simp only [block, h.remaining?_eq, h.offset?_eq, h.add?_position hn, h.slice?_next hn,
      if_neg hfits, Option.bind_eq_bind, Option.bind_some, Functor.map, EStateM.map,
      Cursor.block_of_le hn]
    rfl
  · have hshort : h.view.remaining < n := by omega
    simp only [block, h.remaining?_eq, if_pos hshort, Option.bind_eq_bind, Option.bind_some,
      Functor.map, EStateM.map, Cursor.block_of_lt hshort]
    rfl

/-- A string ends where it does in the view, or is unterminated as there. -/
theorem terminatedString_eq (h : c.Sound) (charset : Charset) :
    terminatedString charset c = some (c.outcome (Cursor.terminatedString charset h.view)) := by
  cases hzero : h.view.unread.idxOf? 0 with
  | none =>
    have hnot : 0 ∉ h.view.unread := List.idxOf?_eq_none_iff.1 hzero
    simp only [terminatedString, h.slice?_rest, h.offset?_eq, hzero, Option.bind_eq_bind,
      Option.bind_some, Cursor.terminatedString_of_not_mem hnot]
    rfl
  | some length =>
    have hlength : length + 1 ≤ h.view.remaining := Cursor.length_le_of_idxOf? hzero
    -- The string and its end lie in the window, so the sum of the two is a word as well.
    have hone : Word.add? length 1 = some (length + 1) := Word.add?_of_lt (by
      have hstop := h.stop_lt
      rw [h.remaining_view] at hlength
      omega)
    have hname : Word.slice? h.view.unread 0 length = some (h.view.unread.take length) :=
      Word.slice?_of_le (Nat.zero_le _) (Nat.le_of_succ_le hlength)
    simp only [terminatedString, h.slice?_rest, hzero, hname, hone, h.add?_position hlength,
      Option.bind_eq_bind, Option.bind_some, Cursor.terminatedString_of_idxOf? hzero]
    rfl

/-- At a boundary the view has a padding of zero, which is skipped without a test. -/
theorem align_eq (h : c.Sound) : align c = some (c.outcome (Cursor.align h.view)) := by
  have hpos := h.alignment_pos
  have hmod : h.view.offset % c.alignment < c.alignment := Nat.mod_lt _ hpos
  by_cases hzero : h.view.offset % c.alignment = 0
  · have hpadding : h.view.padding = 0 := by
      show (c.alignment - h.view.offset % c.alignment) % c.alignment = 0
      rw [hzero, Nat.sub_zero, Nat.mod_self]
    simp only [align, h.offset?_eq, Word.mod?_of_pos hpos, if_pos hzero, Option.bind_eq_bind,
      Option.bind_some, Cursor.align, hpadding, Nat.zero_min]
    rfl
  · have hpadding : h.view.padding = c.alignment - h.view.offset % c.alignment :=
      Nat.mod_eq_of_lt (by show c.alignment - h.view.offset % c.alignment < c.alignment; omega)
    simp only [align, h.offset?_eq, Word.mod?_of_pos hpos, if_neg hzero, Option.bind_eq_bind,
      Option.bind_some, Word.sub?_of_le (Nat.le_of_lt hmod), h.remaining?_eq,
      h.add?_position (Nat.min_le_right _ _), Cursor.align, hpadding]
    rfl

end Sound

end SliceCursor

end TypeStream
