import TypeStream.Cursor.Stack
import TypeStream.Proofs.SliceCursors

/-!
# Steps of cursor stacks

What a step of a stack does is determined by the bytes that are left in front of its top: how many
of them it takes (`CursorStack.Step.taken`), what it makes of them (`CursorStack.Step.answer`), and
where it leaves the cursors (`CursorStack.after`).  A step that fails leaves all of them alone.

## Key results

- `CursorStack.step_eq`: the steps of a stack whose top is sound
- `CursorStack.run_above`: runs on top of other cursors
-/

namespace TypeStream

/-! ### What a step takes and makes of it -/

namespace CursorStack

namespace Step

/-- Takes the bytes of a field, where `unread` is left from the absolute `offset` on. -/
def takenByField (field : String) (n offset : Nat) (unread : List UInt8) : Except Error Nat :=
  if n ≤ unread.length then .ok n else .error (.truncated field offset n unread.length)

/-- How many bytes a step takes, where `unread` is left from the absolute `offset` on, or why it
    fails. -/
def taken (offset alignment : Nat) (unread : List UInt8) : Step → Except Error Nat
  | .u8 => takenByField "u8" 1 offset unread
  | .u16 => takenByField "u16" 2 offset unread
  | .u32 => takenByField "u32" 4 offset unread
  | .i32 => takenByField "i32" 4 offset unread
  | .raw n => takenByField "raw" n offset unread
  | .terminatedString _ =>
    match unread.idxOf? 0 with
    | none => .error (.unterminated offset)
    | some length => .ok (length + 1)
  | .align => .ok (min ((alignment - offset % alignment) % alignment) unread.length)
  | .block n => if n ≤ unread.length then .ok n else .error (.blockOverrun n unread.length)
  | .copy => .ok 0
  | .drop => .ok 0

/-- What a step makes of the bytes that it takes. -/
def answer (taken : List UInt8) : Step → Answer
  | .u8 => .number (LittleEndian.decode taken)
  | .u16 => .number (LittleEndian.decode taken)
  | .u32 => .number (LittleEndian.decode taken)
  | .i32 => .number (Int.bmod (LittleEndian.decode taken) UInt32.size)
  | .raw _ => .bytes taken
  | .terminatedString charset => .text (charset.decode taken.dropLast)
  | .align => .skipped taken.length
  | .block _ => .done
  | .copy => .done
  | .drop => .done

/-- A field that is taken has its bytes among those left. -/
theorem takenByField_eq_ok {field : String} {n m offset : Nat} {unread : List UInt8}
    (h : takenByField field n offset unread = .ok m) : m ≤ unread.length := by
  unfold takenByField at h
  split at h
  · cases h
    assumption
  · exact nomatch h

/-- A step takes no more bytes than are left. -/
theorem taken_le {offset alignment n : Nat} {unread : List UInt8} {step : Step}
    (h : step.taken offset alignment unread = .ok n) : n ≤ unread.length := by
  cases step with
  | u8 => exact takenByField_eq_ok h
  | u16 => exact takenByField_eq_ok h
  | u32 => exact takenByField_eq_ok h
  | i32 => exact takenByField_eq_ok h
  | raw k => exact takenByField_eq_ok h
  | terminatedString charset =>
    simp only [taken] at h
    split at h
    · exact nomatch h
    · rename_i hzero
      cases h
      exact (List.idxOf?_eq_some_iff.1 hzero).1
  | align =>
    cases h
    exact Nat.min_le_right _ _
  | block k =>
    simp only [taken] at h
    split at h
    · cases h
      assumption
    · exact nomatch h
  | copy =>
    cases h
    exact Nat.zero_le _
  | drop =>
    cases h
    exact Nat.zero_le _

end Step

/-! ### Steps of a stack -/

/-- The stack after a step that has taken `n` bytes. -/
def after (s : CursorStack) (n : Nat) : Step → CursorStack
  | .block _ => ⟨s.top.window n, s.top.advance n :: s.below⟩
  | .copy => ⟨s.top, s.top :: s.below⟩
  | .drop =>
    match s.below with
    | [] => s
    | top :: below => ⟨top, below⟩
  | _ => { s with top := s.top.advance n }

section Step

variable {s : CursorStack} {α : Type} {read : SliceCursor.Read α} {answer : α → Answer}

/-- A step that reads a field takes its bytes and makes an answer of them. -/
theorem step_field (h : s.top.Sound) {step : Step} {field : String} {n : Nat}
    {ofBytes : List UInt8 → α} (hstep : s.step step = s.read read answer)
    (hread : read s.top = some (s.top.outcome
      ((return ofBytes (← Cursor.bytes field n) : Cursor.Read α) h.view)))
    (htaken : ∀ offset alignment unread,
      step.taken offset alignment unread = Step.takenByField field n offset unread)
    (hanswer : ∀ bytes, bytes.length = n → answer (ofBytes bytes) = step.answer bytes)
    (hafter : ∀ n, s.after n step = { s with top := s.top.advance n }) :
    s.step step = some (
      match step.taken h.view.offset s.top.alignment h.view.unread with
      | .error e => (.error e, s)
      | .ok n => (.ok (step.answer (h.view.unread.take n)), s.after n step)) := by
  rw [hstep, htaken]
  -- The bytes are there, or the field is cut off.
  by_cases hn : n ≤ h.view.remaining
  · have hlength : (h.view.unread.take n).length = n := List.length_take_of_le hn
    have hend : read s.top = some (.ok (ofBytes (h.view.unread.take n)), s.top.advance n) := by
      rw [hread]
      simp only [bind, EStateM.bind, Cursor.bytes_of_le hn]
      rfl
    have hfits : Step.takenByField field n h.view.offset h.view.unread = .ok n := if_pos hn
    simp only [CursorStack.read, hend, hfits, hafter, ← hanswer _ hlength]
    rfl
  · have hshort : h.view.remaining < n := Nat.not_le.1 hn
    have hend : read s.top =
        some (.error (.truncated field h.view.offset n h.view.remaining), s.top) := by
      rw [hread]
      simp only [bind, EStateM.bind, Cursor.bytes_of_lt hshort]
      rfl
    have hfails : Step.takenByField field n h.view.offset h.view.unread =
        .error (.truncated field h.view.offset n h.view.remaining) := if_neg hn
    simp only [CursorStack.read, hend, hfails]
    rfl

/-- A step that reads a string takes it and the zero byte behind it. -/
theorem step_terminatedString (h : s.top.Sound) (charset : Charset) (alignment : Nat) :
    s.step (.terminatedString charset) = some (
      match (Step.terminatedString charset).taken h.view.offset alignment h.view.unread with
      | .error e => (.error e, s)
      | .ok n => (.ok (.text (charset.decode (h.view.unread.take n).dropLast)),
          { s with top := s.top.advance n })) := by
  cases hzero : h.view.unread.idxOf? 0 with
  | none =>
    -- Without a zero byte nothing is taken.
    have hnot : 0 ∉ h.view.unread := List.idxOf?_eq_none_iff.1 hzero
    simp only [CursorStack.step, CursorStack.read, h.terminatedString_eq,
      Cursor.terminatedString_of_not_mem hnot, Step.taken, hzero]
    rfl
  | some length =>
    have hlength : length + 1 ≤ h.view.unread.length := Cursor.length_le_of_idxOf? hzero
    -- The last of the bytes taken is the zero byte, which is no part of the text.
    have hname : (h.view.unread.take (length + 1)).dropLast = h.view.unread.take length := by
      rw [List.dropLast_eq_take, List.length_take_of_le hlength, List.take_take]
      simp
    simp only [CursorStack.step, CursorStack.read, h.terminatedString_eq,
      Cursor.terminatedString_of_idxOf? hzero, Step.taken, hzero, hname]
    rfl

/-- A step of a stack whose top is sound is described by the bytes that are left there. -/
theorem step_eq (h : s.top.Sound) (step : Step) :
    s.step step = some (
      match step.taken h.view.offset s.top.alignment h.view.unread with
      | .error e => (.error e, s)
      | .ok n => (.ok (step.answer (h.view.unread.take n)), s.after n step)) := by
  -- A number that has the width of its bytes is not cut off when it is stored.
  cases step with
  | u8 =>
    refine step_field h rfl h.u8_eq (fun _ _ _ => rfl) (fun bytes hlength => ?_) fun _ => rfl
    have hlt : LittleEndian.decode bytes < 2 ^ 8 := LittleEndian.decode_lt_of_length hlength
    rw [UInt8.toNat_ofNat', Nat.mod_eq_of_lt hlt, Step.answer]
  | u16 =>
    refine step_field h rfl h.u16_eq (fun _ _ _ => rfl) (fun bytes hlength => ?_) fun _ => rfl
    rw [LittleEndian.toNat_ofNat_decode hlength, Step.answer]
  | u32 =>
    refine step_field h rfl h.u32_eq (fun _ _ _ => rfl) (fun bytes hlength => ?_) fun _ => rfl
    have hlt : LittleEndian.decode bytes < 2 ^ 32 := LittleEndian.decode_lt_of_length hlength
    rw [UInt32.toNat_ofNat', Nat.mod_eq_of_lt hlt, Step.answer]
  | i32 =>
    refine step_field h rfl h.i32_eq (fun _ _ _ => rfl) (fun bytes _ => ?_) fun _ => rfl
    show _ = Answer.number (Int.bmod (LittleEndian.decode bytes) Int32.size)
    rw [UInt32.toInt32_ofNat', Int32.toInt_ofNat']
  | raw n =>
    refine step_field h rfl ?_ (fun _ _ _ => rfl) (fun _ _ => rfl) fun _ => rfl
    rw [h.raw_eq, bind_pure]
  | terminatedString charset => exact step_terminatedString h charset _
  | align =>
    have htaken : Step.align.taken h.view.offset s.top.alignment h.view.unread =
        .ok (min h.view.padding h.view.remaining) := rfl
    have hlength : (h.view.unread.take (min h.view.padding h.view.remaining)).length =
        min h.view.padding h.view.remaining := List.length_take_of_le (Nat.min_le_right _ _)
    simp only [htaken, Step.answer, hlength, CursorStack.step, CursorStack.read, h.align_eq]
    rfl
  | block n =>
    -- The block is inside of the window, or it is refused.
    by_cases hn : n ≤ h.view.remaining
    · have htaken : (Step.block n).taken h.view.offset s.top.alignment h.view.unread = .ok n :=
        if_pos hn
      simp only [CursorStack.step, h.block_eq, Functor.map, EStateM.map, Cursor.block_of_le hn,
        htaken]
      rfl
    · have hshort : h.view.remaining < n := by omega
      have htaken : (Step.block n).taken h.view.offset s.top.alignment h.view.unread =
          .error (.blockOverrun n h.view.remaining) := if_neg hn
      simp only [CursorStack.step, h.block_eq, Functor.map, EStateM.map, Cursor.block_of_lt hshort,
        htaken]
      rfl
  | copy => rfl
  | drop =>
    obtain ⟨top, below⟩ := s
    cases below <;> rfl

end Step

/-! ### Runs above other cursors -/

/-- The stack on top of other cursors. -/
def above (s : CursorStack) (below : List SliceCursor) : CursorStack := ⟨s.top, s.below ++ below⟩

/-- The steps never take off the only cursor of a stack. -/
def KeepsLast : CursorStack → List Step → Prop
  | _, [] => True
  | s, first :: rest => (first = .drop → s.below ≠ []) ∧
      ∀ answer next, s.step first = some (answer, next) → next.KeepsLast rest

/-- A read does not touch the cursors that were put below, and does not depend on them. -/
theorem read_above {α : Type} (s : CursorStack) (below : List SliceCursor)
    (read : SliceCursor.Read α) (answer : α → Answer) :
    (s.above below).read read answer = (s.read read answer).map (.map id (·.above below)) := by
  show (read s.top).bind _ = ((read s.top).bind _).map _
  cases read s.top <;> rfl

/-- A step does not depend on the cursors under a stack, unless it takes off the only one. -/
theorem step_above {s : CursorStack} {step : Step} (h : step = .drop → s.below ≠ [])
    (below : List SliceCursor) :
    (s.above below).step step = (s.step step).map (.map id (·.above below)) := by
  -- A read leaves the cursors below as they are; a drop needs a cursor above them.
  cases step with
  | u8 => exact read_above s below _ _
  | u16 => exact read_above s below _ _
  | u32 => exact read_above s below _ _
  | i32 => exact read_above s below _ _
  | raw n => exact read_above s below _ _
  | terminatedString charset => exact read_above s below _ _
  | align => exact read_above s below _ _
  | block n =>
    show (s.top.block n).bind _ = ((s.top.block n).bind _).map _
    cases s.top.block n with
    | none => rfl
    | some result =>
      obtain ⟨result, top⟩ := result
      cases result <;> rfl
  | copy => rfl
  | drop =>
    obtain ⟨top, upper⟩ := s
    cases upper with
    | nil => exact absurd rfl (h rfl)
    | cons c upper => rfl

/-- A run does not depend on the cursors under a stack, as long as it keeps the only one. -/
theorem run_above {s : CursorStack} {steps : List Step} (h : s.KeepsLast steps)
    (below : List SliceCursor) :
    (s.above below).run steps = (s.run steps).map (.map id (·.above below)) := by
  -- Every step leaves another stack, which the rest of the steps keep in their turn.
  induction steps generalizing s with
  | nil => rfl
  | cons first rest ih =>
    obtain ⟨hfirst, hrest⟩ := h
    rw [run, run, step_above hfirst below]
    cases hstep : s.step first with
    | none => rfl
    | some result =>
      obtain ⟨answer, next⟩ := result
      have hnext := ih (hrest answer next hstep)
      simp only [Option.map_some, Prod.map, id_eq, Option.bind_eq_bind, Option.bind_some, hnext]
      cases next.run rest <;> rfl

/-- What steps give one after the other. -/
def answers (s : CursorStack) (steps : List Step) : Option (List (Except Error Answer)) :=
  (s.run steps).map Prod.fst

/-- What steps on a cursor give is the same whatever lies below it. -/
theorem answers_above {c : SliceCursor} {steps : List Step} (h : KeepsLast ⟨c, []⟩ steps)
    (below : List SliceCursor) : answers ⟨c, below⟩ steps = answers ⟨c, []⟩ steps := by
  have habove : run ⟨c, below⟩ steps = _ := run_above h below
  rw [answers, habove, Option.map_map]
  rfl

end CursorStack

end TypeStream
