import TypeStream.Cursor.Stack
import TypeStream.Proofs.Padding
import TypeStream.Proofs.SliceCursors

/-!
# Alignment of cursors

However a cursor on a buffer came about, it stands inside of its window and has the alignment of the
buffer.  So passing over padding takes it to the next boundary, or to the end of the window if that
comes first, by less than the boundaries are apart, and once there it stays.  How far it goes
depends on the absolute offset alone as long as the window goes on, so windows in windows agree on
it.

## Key results

- `SliceCursor.Inside.ofRead`: reads move on inside of the window
- `CursorStack.inside_run`: all cursors of a stack stand inside of their windows
- `SliceCursor.align_nearest`: where padding leads to
-/

namespace TypeStream

/-! ### Steps of the arithmetic -/

namespace Word

/-- A sum that is a word is the sum. -/
theorem add?_eq_some {a b n : Nat} (h : add? a b = some n) : n = a + b := by
  unfold add? at h
  split at h
  · exact (Option.some.inj h).symm
  · exact nomatch h

/-- A part of a slice ends inside of the slice, and is as long as its bounds say. -/
theorem slice?_eq_some {bytes part : List UInt8} {start stop : Nat}
    (h : slice? bytes start stop = some part) :
    stop ≤ bytes.length ∧ part.length = stop - start := by
  unfold slice? at h
  split at h
  · rename_i hle
    rw [← Option.some.inj h, List.length_drop, List.length_take]
    omega
  · exact nomatch h

/-- A difference that is a word is what the one number is more than the other. -/
theorem sub?_eq_some {a b n : Nat} (h : sub? a b = some n) : b + n = a := by
  unfold sub? at h
  split at h
  · have hn := Option.some.inj h
    omega
  · exact nomatch h

end Word

namespace SliceCursor

/-! ### Reads -/

/-- A read that does not end the program moves on inside of the window, or stays. -/
def MovesInside {α : Type} (read : Read α) : Prop :=
  ∀ c result stop, c.position ≤ c.bytes.length → read c = some (result, stop) →
    ∃ n, c.position + n ≤ c.bytes.length ∧ stop = c.advance n

/-- A number is as wide as it is read, and the bytes it is read from are in the window. -/
theorem movesInside_number {α : Type} (field : String) (width : Nat) (ofNat : Nat → α) :
    MovesInside (number field width ofNat) := by
  intro c result stop hc h
  simp only [number, Option.bind_eq_bind, Option.bind_eq_some_iff] at h
  obtain ⟨offset, -, rest, hrest, h⟩ := h
  have hlength := (Word.slice?_eq_some hrest).2
  -- The bytes do not suffice, or the number is taken off.
  split at h
  · obtain ⟨left, -, h⟩ := Option.bind_eq_some_iff.1 h
    cases h
    exact ⟨0, hc, rfl⟩
  -- The bytes left are at least the width, so the new position is inside of the window.
  · obtain ⟨position, hposition, h⟩ := Option.bind_eq_some_iff.1 h
    cases h
    obtain rfl := Word.add?_eq_some hposition
    exact ⟨width, by omega, rfl⟩

/-- Bytes that are asked for are read if the window has so many left. -/
theorem movesInside_raw (field : String) (n : Nat) : MovesInside (raw field n) := by
  intro c result stop hc h
  simp only [raw, Option.bind_eq_bind, Option.bind_eq_some_iff] at h
  obtain ⟨left, hleft, h⟩ := h
  have hsum := Word.sub?_eq_some hleft
  -- Too few bytes are left, or they are taken off.
  split at h
  · simp only [Option.bind_eq_some_iff] at h
    obtain ⟨_, -, _, -, h⟩ := h
    cases h
    exact ⟨0, hc, rfl⟩
  · simp only [Option.bind_eq_some_iff] at h
    obtain ⟨position, hposition, bytes, -, h⟩ := h
    cases h
    obtain rfl := Word.add?_eq_some hposition
    exact ⟨n, by omega, rfl⟩

/-- A string ends at a zero byte of the window, and the cursor goes on behind that. -/
theorem movesInside_terminatedString (charset : Charset) :
    MovesInside (terminatedString charset) := by
  intro c result stop hc h
  simp only [terminatedString, Option.bind_eq_bind, Option.bind_eq_some_iff] at h
  obtain ⟨rest, hrest, h⟩ := h
  have hlength := (Word.slice?_eq_some hrest).2
  -- Without a zero byte the cursor stays; with one it goes on behind it.
  split at h
  · obtain ⟨offset, -, h⟩ := Option.bind_eq_some_iff.1 h
    cases h
    exact ⟨0, hc, rfl⟩
  · rename_i length hzero
    -- The zero byte is one of the bytes left.
    have hlt := (List.idxOf?_eq_some_iff.1 hzero).1
    simp only [Option.bind_eq_some_iff] at h
    obtain ⟨name, -, size, hsize, position, hposition, h⟩ := h
    cases h
    obtain rfl := Word.add?_eq_some hsize
    obtain rfl := Word.add?_eq_some hposition
    exact ⟨length + 1, by omega, rfl⟩

/-- Padding is passed over as far as the window goes. -/
theorem movesInside_align : MovesInside align := by
  intro c result stop hc h
  simp only [align, Option.bind_eq_bind, Option.bind_eq_some_iff] at h
  obtain ⟨offset, -, misalignment, -, h⟩ := h
  -- At a boundary nothing is skipped.
  split at h
  · cases h
    exact ⟨0, hc, rfl⟩
  · simp only [Option.bind_eq_some_iff] at h
    obtain ⟨wanted, -, left, hleft, position, hposition, h⟩ := h
    -- What is skipped is never more than what is left.
    have hsum := Word.sub?_eq_some hleft
    cases h
    obtain rfl := Word.add?_eq_some hposition
    exact ⟨min wanted left, by omega, rfl⟩

/-- A window is carved out and passed over, or the cursor stays. -/
theorem block_cases {c stop : SliceCursor} {n : Nat} {result : Except Error SliceCursor}
    (h : block n c = some (result, stop)) :
    (∃ e, result = .error e ∧ stop = c) ∨
    ∃ bytes origin, result = .ok (ofBytes bytes origin c.alignment) ∧
      c.position + n ≤ c.bytes.length ∧ stop = c.advance n := by
  simp only [block, Option.bind_eq_bind, Option.bind_eq_some_iff] at h
  obtain ⟨left, hleft, h⟩ := h
  have hsum := Word.sub?_eq_some hleft
  split at h
  · obtain ⟨_, -, h⟩ := Option.bind_eq_some_iff.1 h
    cases h
    exact .inl ⟨_, rfl, rfl⟩
  · simp only [Option.bind_eq_some_iff] at h
    obtain ⟨origin, -, position, hposition, bytes, -, h⟩ := h
    cases h
    obtain rfl := Word.add?_eq_some hposition
    exact .inr ⟨bytes, origin, rfl, by omega, rfl⟩

/-- The cursor stands inside of its window, and pads to the boundaries of the alignment. -/
structure Inside (alignment : Nat) (c : SliceCursor) : Prop where
  position_le : c.position ≤ c.bytes.length
  alignment_eq : c.alignment = max alignment 1

/-- A cursor at the start of a buffer stands inside of it. -/
theorem inside_ofBytes (bytes : List UInt8) (origin alignment : Nat) :
    (ofBytes bytes origin alignment).Inside alignment := ⟨Nat.zero_le _, rfl⟩

variable {alignment : Nat} {c stop : SliceCursor}

/-- A read that moves on inside of the window leaves the cursor inside of it. -/
theorem Inside.ofRead {α : Type} {read : Read α} {result : Except Error α} (h : c.Inside alignment)
    (hread : MovesInside read) (hok : read c = some (result, stop)) : stop.Inside alignment := by
  obtain ⟨n, hn, rfl⟩ := hread c result stop h.position_le hok
  exact ⟨hn, h.alignment_eq⟩

/-- A window that is carved out has the alignment of the cursor that it is carved out of. -/
theorem Inside.window (h : c.Inside alignment) (bytes : List UInt8) (origin : Nat) :
    (ofBytes bytes origin c.alignment).Inside alignment := by
  refine ⟨Nat.zero_le _, ?_⟩
  show max c.alignment 1 = max alignment 1
  rw [h.alignment_eq]
  omega

end SliceCursor

/-! ### Stacks -/

namespace CursorStack

/-- The cursors, the top one first. -/
def all (s : CursorStack) : List SliceCursor := s.top :: s.below

variable {alignment : Nat} {s s' : CursorStack}

/-- A step leaves cursors inside of their windows. -/
theorem inside_step (h : ∀ c ∈ s.all, c.Inside alignment) {step : Step}
    {answer : Except Error Answer} (hstep : s.step step = some (answer, s')) :
    ∀ c ∈ s'.all, c.Inside alignment := by
  obtain ⟨htop, hbelow⟩ := List.forall_mem_cons.1 h
  -- A read only touches the top of the stack, and moves it on inside of its window.
  have hread : ∀ {α : Type} {read : SliceCursor.Read α} {make : α → Answer},
      SliceCursor.MovesInside read → s.read read make = some (answer, s') →
      ∀ c ∈ s'.all, c.Inside alignment := by
    intro α read make hmoves hok
    simp only [CursorStack.read, Option.bind_eq_bind, Option.bind_eq_some_iff] at hok
    obtain ⟨⟨result, top⟩, hok, heq⟩ := hok
    cases heq
    exact List.forall_mem_cons.2 ⟨htop.ofRead hmoves hok, hbelow⟩
  cases step with
  | u8 => exact hread (SliceCursor.movesInside_number _ _ _) hstep
  | u16 => exact hread (SliceCursor.movesInside_number _ _ _) hstep
  | u32 => exact hread (SliceCursor.movesInside_number _ _ _) hstep
  | i32 => exact hread (SliceCursor.movesInside_number _ _ _) hstep
  | raw n => exact hread (SliceCursor.movesInside_raw _ _) hstep
  | terminatedString charset => exact hread (SliceCursor.movesInside_terminatedString _) hstep
  | align => exact hread SliceCursor.movesInside_align hstep
  | block n =>
    simp only [CursorStack.step, Option.bind_eq_bind, Option.bind_eq_some_iff] at hstep
    obtain ⟨⟨result, top⟩, hok, heq⟩ := hstep
    rcases SliceCursor.block_cases hok with ⟨e, rfl, rfl⟩ | ⟨bytes, origin, rfl, hle, rfl⟩
    · cases heq
      exact h
    -- The window stands on top, and the cursor that it was carved out of behind it.
    · cases heq
      have htop' : (s.top.advance n).Inside alignment := ⟨hle, htop.alignment_eq⟩
      exact List.forall_mem_cons.2
        ⟨htop.window bytes origin, List.forall_mem_cons.2 ⟨htop', hbelow⟩⟩
  | copy =>
    cases hstep
    exact List.forall_mem_cons.2 ⟨htop, h⟩
  | drop =>
    obtain ⟨top, below⟩ := s
    cases below with
    | nil =>
      cases hstep
      exact h
    | cons c below =>
      cases hstep
      exact hbelow

/-- So do steps one after the other. -/
theorem inside_run (h : ∀ c ∈ s.all, c.Inside alignment) {steps : List Step}
    {answers : List (Except Error Answer)} (hrun : s.run steps = some (answers, s')) :
    ∀ c ∈ s'.all, c.Inside alignment := by
  -- What a step keeps is kept by the steps behind it.
  induction steps generalizing s answers with
  | nil =>
    cases hrun
    exact h
  | cons first rest ih =>
    simp only [run, Option.bind_eq_bind, Option.bind_eq_some_iff] at hrun
    obtain ⟨⟨answer, next⟩, hstep, ⟨others, last⟩, hrest, heq⟩ := hrun
    cases heq
    exact ih (inside_step h hstep) hrest

end CursorStack

/-! ### Padding -/

namespace SliceCursor

namespace Sound

variable {c : SliceCursor} {n : Nat}

/-- A cursor that moves on by bytes that are left is sound again. -/
theorem advance (h : c.Sound) (hn : n ≤ h.view.remaining) : (c.advance n).Sound where
  position_le := by
    have hposition := h.position_le
    rw [h.remaining_view] at hn
    show c.position + n ≤ c.bytes.length
    omega
  stop_lt := h.stop_lt
  alignment_pos := h.alignment_pos

/-- The view of a cursor that has moved on is the view, moved on as far. -/
theorem view_advance (h : c.Sound) (hn : n ≤ h.view.remaining) :
    (h.advance hn).view = h.view.advance n := by
  simp only [view, SliceCursor.advance, Cursor.advance, List.drop_drop]

/-- The bytes left end where the window ends. -/
theorem offset_add_remaining (h : c.Sound) :
    h.view.offset + h.view.remaining = c.origin + c.bytes.length := by
  have hposition := h.position_le
  rw [h.remaining_view]
  show c.origin + c.position + _ = _
  omega

/-- Padding is passed over as far as the window goes. -/
theorem align_eq_some (h : c.Sound) :
    align c = some (.ok (min h.view.padding h.view.remaining),
      c.advance (min h.view.padding h.view.remaining)) := h.align_eq

/-- Padding that has been passed over is not passed over again. -/
theorem align_advance_align (h : c.Sound) :
    let stop := c.advance (min h.view.padding h.view.remaining)
    align stop = some (.ok 0, stop) := by
  intro stop
  have hn : min h.view.padding h.view.remaining ≤ h.view.remaining := Nat.min_le_right _ _
  rw [(h.advance hn).align_eq, h.view_advance hn, h.view.align_advance_align]
  rfl

end Sound

/-- The cursor is one of those that steps on a buffer lead to. -/
def Reached (bytes : List UInt8) (origin alignment : Nat) (c : SliceCursor) : Prop :=
  ∃ steps answers s,
    (CursorStack.ofBytes bytes origin alignment).run steps = some (answers, s) ∧ c ∈ s.all

variable {bytes : List UInt8} {origin alignment : Nat} {c : SliceCursor}

/-- A cursor that steps lead to stands inside of its window, as the run of the stack keeps it there.
    -/
theorem Reached.inside (h : c.Reached bytes origin alignment) : c.Inside alignment := by
  obtain ⟨steps, answers, s, hrun, hc⟩ := h
  refine CursorStack.inside_run (fun d hd => ?_) hrun c hc
  obtain rfl := List.mem_singleton.1 hd
  exact inside_ofBytes bytes origin alignment

/-- Such a cursor is sound if the end of its window is at a word. -/
theorem Reached.sound (h : c.Reached bytes origin alignment)
    (hend : c.origin + c.bytes.length < Word.count) : c.Sound where
  position_le := h.inside.position_le
  stop_lt := hend
  alignment_pos := by
    rw [h.inside.alignment_eq]
    omega

/-- However a cursor on a buffer came about, passing over padding takes it to the first boundary
    from its offset on, or to the end of its window where that lies in front of the boundary.  It
    takes fewer bytes than the boundaries are apart, and passing over padding again takes none.  A
    cursor at the same offset with the boundary in its window, such as one that this one was carved
    out of, passes over as many bytes.  No step of the arithmetic is a fault. -/
theorem align_nearest (hc : c.Reached bytes origin alignment)
    (hend : c.origin + c.bytes.length + c.alignment < Word.count) :
    c.alignment = max alignment 1 ∧
    ∃ offset skipped boundary,
      c.offset? = some offset ∧
      IsLeast {m | c.alignment ∣ m ∧ offset ≤ m} boundary ∧ boundary < Word.count ∧
      align c = some (.ok skipped, c.advance skipped) ∧
      (c.advance skipped).offset? = some (offset + skipped) ∧ skipped < c.alignment ∧
      (offset + skipped = boundary ∨
        (c.advance skipped).remaining? = some 0 ∧ c.origin + c.bytes.length < boundary) ∧
      align (c.advance skipped) = some (.ok 0, c.advance skipped) ∧
      ∀ d : SliceCursor, d.Reached bytes origin alignment →
        d.origin + d.bytes.length + d.alignment < Word.count → d.offset? = some offset →
        boundary ≤ c.origin + c.bytes.length → boundary ≤ d.origin + d.bytes.length →
        align d = some (.ok skipped, d.advance skipped) := by
  have hsound := hc.sound (by omega)
  have hstop := hsound.offset_add_remaining
  have hlt : hsound.view.padding < c.alignment := hsound.view.padding_lt
  have hle : min hsound.view.padding hsound.view.remaining ≤ hsound.view.remaining :=
    Nat.min_le_right _ _
  -- The witnesses are read off the view; what is left to show is where the position is.
  refine ⟨hc.inside.alignment_eq, hsound.view.offset,
    min hsound.view.padding hsound.view.remaining, hsound.view.offset + hsound.view.padding,
    hsound.offset?_eq, hsound.view.isLeast_offset_add_padding, by omega, hsound.align_eq_some, ?_,
    by omega, ?_, hsound.align_advance_align, ?_⟩
  · rw [(hsound.advance hle).offset?_eq, hsound.view_advance hle, Cursor.offset_advance]
  · by_cases hfits : hsound.view.padding ≤ hsound.view.remaining
    · rw [Nat.min_eq_left hfits]
      exact .inl rfl
    · -- The window ends in front of the boundary.
      refine .inr ⟨?_, by omega⟩
      rw [(hsound.advance hle).remaining?_eq, hsound.view_advance hle, Cursor.remaining_advance,
        Nat.min_eq_right (Nat.le_of_not_le hfits), Nat.sub_self]
  · intro d hd hdend hdoffset hfits hdfits
    have hdsound := hd.sound (by omega)
    have hdstop := hdsound.offset_add_remaining
    rw [hdsound.offset?_eq] at hdoffset
    have hoffset : hdsound.view.offset = hsound.view.offset := Option.some.inj hdoffset
    have halignment : hdsound.view.alignment = hsound.view.alignment :=
      hd.inside.alignment_eq.trans hc.inside.alignment_eq.symm
    -- Both windows hold all of the padding, which is as long in both.
    have hpadding := Cursor.padding_congr halignment hoffset
    rw [hdsound.align_eq_some, hpadding, Nat.min_eq_left (by omega), Nat.min_eq_left (by omega)]

/-- The boundary at six lies in a window of five bytes and in the buffer, but not in a window of two
    bytes. -/
theorem align_nearest_carved :
    let bytes : List UInt8 := [1, 2, 3, 4, 5, 6, 7, 8]
    let outer : SliceCursor := ⟨bytes, 1, 3, 6⟩
    let inner : SliceCursor := ⟨[1, 2, 3, 4, 5], 1, 3, 6⟩
    let short : SliceCursor := ⟨[1, 2], 1, 3, 6⟩
    outer.Reached bytes 3 6 ∧ inner.Reached bytes 3 6 ∧ short.Reached bytes 3 6 ∧
      3 + 8 + 6 < Word.count ∧
      IsLeast {m | 6 ∣ m ∧ 4 ≤ m} 6 ∧
      align inner = some (.ok 2, inner.advance 2) ∧ align outer = some (.ok 2, outer.advance 2) ∧
      align short = some (.ok 1, short.advance 1) ∧ (short.advance 1).remaining? = some 0 ∧
      align (short.advance 1) = some (.ok 0, short.advance 1) := by
  intro bytes outer inner short
  have houter : outer.Reached bytes 3 6 := ⟨[.u8], _, ⟨outer, []⟩, rfl, List.mem_cons_self⟩
  have hinner : inner.Reached bytes 3 6 :=
    ⟨[.block 5, .u8], _, ⟨inner, [⟨bytes, 5, 3, 6⟩]⟩, rfl, List.mem_cons_self⟩
  have hshort : short.Reached bytes 3 6 :=
    ⟨[.block 2, .u8], _, ⟨short, [⟨bytes, 2, 3, 6⟩]⟩, rfl, List.mem_cons_self⟩
  obtain ⟨-, offset, skipped, boundary, hoffset, hleast, -, halign, -, -, hends, -, hsame⟩ :=
    align_nearest hinner (by decide)
  have halign' : align inner = some (.ok 2, inner.advance 2) := rfl
  have hleft : (inner.advance 2).remaining? = some 2 := rfl
  obtain rfl : 4 = offset := Option.some.inj hoffset
  -- The theorem gives the bytes skipped, and so does running the code.
  obtain rfl : 2 = skipped := by
    simpa using congrArg (Option.map Prod.fst) (halign'.symm.trans halign)
  obtain rfl : 6 = boundary := by simpa [hleft] using hends
  obtain ⟨-, _, skipped', _, -, -, -, halign'', -, -, -, hagain, -⟩ :=
    align_nearest hshort (by decide)
  have hshort' : align short = some (.ok 1, short.advance 1) := rfl
  obtain rfl : 1 = skipped' := by
    simpa using congrArg (Option.map Prod.fst) (hshort'.symm.trans halign'')
  exact ⟨houter, hinner, hshort, by decide, hleast, halign,
    hsame outer houter (by decide) rfl (by decide) (by decide), halign'', rfl, hagain⟩

end SliceCursor

end TypeStream
