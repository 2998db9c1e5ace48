import TypeStream.Proofs.CursorSteps

/-!
# Cursors as windows on one buffer

All cursors of a stack are windows on the buffer that the stack was started on, with a position
in them.  `WindowStack.run` describes a run of steps by the windows alone: how many bytes each step
takes, what it makes of them, and where it leaves the windows.  The cursors do the same, and none
of their arithmetic is a fault.

## Key results

- `Window.on`: the cursor of a window on a buffer
- `WindowStack.step_on`: a step of the cursors is the step of their windows
- `WindowStack.run_on`: so is a run
- `CursorStack.run_windows`: what holds of the windows after any run from the whole buffer
-/

namespace TypeStream

/-! ### Windows -/

/-- A window on a buffer and a position in it, all counted from the first byte of the buffer. -/
structure Window where
  start : Nat
  position : Nat
  stop : Nat
  start_le : start ≤ position
  position_le : position ≤ stop
deriving DecidableEq, Repr

namespace Window

/-- The whole of a buffer. -/
def whole (length : Nat) : Window := ⟨0, 0, length, Nat.le_refl 0, Nat.zero_le length⟩

/-- The same window with the position `n` bytes further on, but not behind the end. -/
def advance (w : Window) (n : Nat) : Window where
  start := w.start
  position := min (w.position + n) w.stop
  stop := w.stop
  start_le := by have := w.start_le; have := w.position_le; omega
  position_le := Nat.min_le_right _ _

/-- The window of the next `n` bytes, or of all that are left. -/
def block (w : Window) (n : Nat) : Window where
  start := w.position
  position := w.position
  stop := min (w.position + n) w.stop
  start_le := Nat.le_refl _
  position_le := by have := w.position_le; omega

/-- The bytes from the position to the end of the window. -/
def unread (w : Window) (bytes : List UInt8) : List UInt8 := (bytes.take w.stop).drop w.position

/-- The cursor of a window, where `root` is a cursor at the start of the buffer. -/
def on (w : Window) (root : SliceCursor) : SliceCursor where
  bytes := (root.bytes.take w.stop).drop w.start
  position := w.position - w.start
  origin := root.origin + w.start
  alignment := root.alignment

/-- A window lies inside of another one. -/
def Within (inner outer : Window) : Prop := outer.start ≤ inner.start ∧ inner.stop ≤ outer.stop

variable {w : Window} {n : Nat} {root : SliceCursor}

theorem Within.refl (w : Window) : w.Within w := ⟨Nat.le_refl _, Nat.le_refl _⟩

/-- What lies inside of an inner window lies inside of the outer one. -/
theorem Within.trans {inner middle outer : Window} (h : inner.Within middle)
    (h' : middle.Within outer) : inner.Within outer :=
  ⟨Nat.le_trans h'.1 h.1, Nat.le_trans h.2 h'.2⟩

/-- A window that is carved out lies inside of the one that it is carved out of. -/
theorem block_within (w : Window) (n : Nat) : (w.block n).Within w :=
  ⟨w.start_le, Nat.min_le_right _ _⟩

/-- As many bytes are left in a window as there are up to its end. -/
theorem length_unread {bytes : List UInt8} (h : w.stop ≤ bytes.length) :
    (w.unread bytes).length = w.stop - w.position := by
  simp only [unread, List.length_drop, List.length_take]
  omega

/-- By bytes that are left a window moves on in full. -/
theorem position_advance (hn : n ≤ w.stop - w.position) :
    (w.advance n).position = w.position + n := by
  have hposition := w.position_le
  show min (w.position + n) w.stop = w.position + n
  omega

/-- What is read from a window is what the buffer holds from the position on. -/
theorem take_unread {bytes : List UInt8} (hn : n ≤ w.stop - w.position) :
    (w.unread bytes).take n = (bytes.drop w.position).take n := by
  rw [unread, List.drop_take, List.take_take, Nat.min_eq_left hn]

section On

variable (hroot : root.Sound) (hstop : w.stop ≤ root.bytes.length)
include hroot hstop

/-- The cursor of a window on a sound buffer is sound. -/
theorem sound_on : (w.on root).Sound where
  position_le := by
    have hstart := w.start_le
    have hposition := w.position_le
    simp only [on, List.length_drop, List.length_take]
    omega
  stop_lt := by
    have hend := hroot.stop_lt
    have hstart := w.start_le
    have hposition := w.position_le
    simp only [on, List.length_drop, List.length_take]
    omega
  alignment_pos := hroot.alignment_pos

/-- The bytes left in front of the cursor are those of the window. -/
theorem unread_on : (sound_on hroot hstop).view.unread = w.unread root.bytes := by
  have hstart := w.start_le
  show ((root.bytes.take w.stop).drop w.start).drop (w.position - w.start) = _
  rw [List.drop_drop, Nat.add_sub_of_le hstart]
  rfl

/-- Their number is the distance from the position to the end. -/
theorem remaining_on : (sound_on hroot hstop).view.remaining = w.stop - w.position := by
  rw [Cursor.remaining, unread_on hroot hstop, length_unread hstop]

/-- The absolute offset is that of the buffer, and the position. -/
theorem offset_on : (sound_on hroot hstop).view.offset = root.origin + w.position := by
  have hstart := w.start_le
  show root.origin + w.start + (w.position - w.start) = _
  omega

/-- The cursor tells how many bytes are left in the window, without a fault. -/
theorem remaining?_on : (w.on root).remaining? = some (w.stop - w.position) := by
  rw [(sound_on hroot hstop).remaining?_eq, remaining_on hroot hstop]

/-- It tells the absolute offset of the position. -/
theorem offset?_on : (w.on root).offset? = some (root.origin + w.position) := by
  rw [(sound_on hroot hstop).offset?_eq, offset_on hroot hstop]

theorem hasMore_on : (w.on root).hasMore = true ↔ 0 < w.stop - w.position := by
  rw [(sound_on hroot hstop).hasMore_iff, remaining_on hroot hstop]

end On

/-- A position further on in the cursor is one further on in the window. -/
theorem advance_on (hn : n ≤ w.stop - w.position) :
    (w.on root).advance n = (w.advance n).on root := by
  have hstart := w.start_le
  have hmin : min (w.position + n) w.stop = w.position + n := position_advance hn
  have hsub : w.position + n - w.start = w.position - w.start + n := by omega
  simp only [on, advance, SliceCursor.advance, hmin, hsub]

/-- A window that is carved out of a cursor is a window on the buffer. -/
theorem window_on (halignment : 0 < root.alignment) (hn : n ≤ w.stop - w.position) :
    (w.on root).window n = (w.block n).on root := by
  have hstart := w.start_le
  have hmin : min (w.position + n) w.stop = w.position + n := position_advance hn
  -- The slice of a slice is counted from the start of the buffer again.
  have hbytes : (((root.bytes.take w.stop).drop w.start).drop (w.position - w.start)).take n =
      (root.bytes.take (w.position + n)).drop w.position := by
    rw [List.drop_drop, Nat.add_sub_of_le hstart, List.drop_take, List.take_take,
      Nat.min_eq_left hn, List.drop_take, Nat.add_sub_cancel_left]
  have horigin : root.origin + w.start + (w.position - w.start) = root.origin + w.position := by
    omega
  have hmax : max root.alignment 1 = root.alignment := Nat.max_eq_left halignment
  simp only [SliceCursor.window, SliceCursor.ofBytes, on, block, hbytes, horigin, hmin, hmax,
    Nat.sub_self]

/-- The bytes of a buffer outside of a window do not matter to its cursor. -/
theorem on_congr {bytes : List UInt8}
    (h : ∀ i, w.start ≤ i → i < w.stop → bytes[i]? = root.bytes[i]?) :
    w.on { root with bytes } = w.on root := by
  -- The window holds the same bytes in both, position by position.
  have hbytes : (bytes.take w.stop).drop w.start = (root.bytes.take w.stop).drop w.start := by
    apply List.ext_getElem?
    intro i
    rw [List.getElem?_drop, List.getElem?_drop, List.getElem?_take, List.getElem?_take]
    split
    · rename_i hlt
      exact h _ (Nat.le_add_right _ _) hlt
    · rfl
  simp only [on, hbytes]

/-- What steps on a window give, on the windows that are carved out of it and on copies as well,
    depends on no byte outside of it and on no cursor below. -/
theorem answers_on_congr {bytes : List UInt8} {steps : List CursorStack.Step}
    (h : ∀ i, w.start ≤ i → i < w.stop → bytes[i]? = root.bytes[i]?)
    (hkeeps : CursorStack.KeepsLast ⟨w.on root, []⟩ steps) (below below' : List SliceCursor) :
    CursorStack.answers ⟨w.on { root with bytes }, below'⟩ steps =
      CursorStack.answers ⟨w.on root, below⟩ steps := by
  rw [on_congr h, CursorStack.answers_above hkeeps below', CursorStack.answers_above hkeeps below]

end Window

/-! ### Stacks of windows -/

open CursorStack (Step Answer)

/-- Windows, of which the top one is in use. -/
structure WindowStack where
  top : Window
  /-- The others, the one below the top first. -/
  below : List Window
deriving DecidableEq, Repr

namespace WindowStack

/-- A stack with one window, the whole of a buffer. -/
def whole (length : Nat) : WindowStack := ⟨.whole length, []⟩

/-- The windows, the top one first. -/
def all (s : WindowStack) : List Window := s.top :: s.below

/-- The cursors of the windows. -/
def on (s : WindowStack) (root : SliceCursor) : CursorStack :=
  ⟨s.top.on root, s.below.map (·.on root)⟩

/-- The stack that a run starts on has one cursor, at the start of the buffer. -/
theorem whole_on (bytes : List UInt8) (origin alignment : Nat) :
    (whole bytes.length).on (.ofBytes bytes origin alignment) =
      .ofBytes bytes origin alignment := by
  simp [on, whole, Window.whole, Window.on, CursorStack.ofBytes, SliceCursor.ofBytes]

/-- The windows after a step that has taken `n` bytes. -/
def after (s : WindowStack) (n : Nat) : Step → WindowStack
  | .block _ => ⟨s.top.block n, s.top.advance n :: s.below⟩
  | .copy => ⟨s.top, s.top :: s.below⟩
  | .drop =>
    match s.below with
    | [] => s
    | top :: below => ⟨top, below⟩
  | _ => { s with top := s.top.advance n }

/-- What a step gives, and the windows after it.  Where it fails, these are the same. -/
def step (s : WindowStack) (root : SliceCursor) (step : Step) :
    Except Error Answer × WindowStack :=
  match step.taken (root.origin + s.top.position) root.alignment (s.top.unread root.bytes) with
  | .error e => (.error e, s)
  | .ok n => (.ok (step.answer ((root.bytes.drop s.top.position).take n)), s.after n step)

/-- What steps give one after the other, and the windows after them. -/
def run (s : WindowStack) (root : SliceCursor) :
    List Step → List (Except Error Answer) × WindowStack
  | [] => ([], s)
  | first :: rest =>
    let (answer, s) := s.step root first
    let (answers, s) := s.run root rest
    (answer :: answers, s)

/-- The windows lie inside of a buffer, each one inside of those below it. -/
structure Nested (s : WindowStack) (length : Nat) : Prop where
  stop_le : ∀ w ∈ s.all, w.stop ≤ length
  within : s.all.Pairwise Window.Within

variable {s : WindowStack} {root : SliceCursor} {n length : Nat}

theorem nested_whole (length : Nat) : (whole length).Nested length where
  stop_le := by simp [all, whole, Window.whole]
  within := by simp [all, whole]

/-- The top of nested windows ends inside of the buffer. -/
theorem Nested.top_le (h : s.Nested length) : s.top.stop ≤ length :=
  h.stop_le _ List.mem_cons_self

/-- Another top inside of the old one keeps the windows nested. -/
theorem Nested.replace (h : s.Nested length) {w : Window} (hw : w.Within s.top) :
    Nested ⟨w, s.below⟩ length where
  stop_le := by
    have htop := h.top_le
    have hbelow : ∀ v ∈ s.below, v.stop ≤ length := fun v hv =>
      h.stop_le v (List.mem_cons_of_mem _ hv)
    exact List.forall_mem_cons.2 ⟨Nat.le_trans hw.2 htop, hbelow⟩
  within := by
    obtain ⟨htop, hbelow⟩ := List.pairwise_cons.1 h.within
    exact List.pairwise_cons.2 ⟨fun v hv => hw.trans (htop v hv), hbelow⟩

/-- So does one that is put on top of the old one. -/
theorem Nested.push (h : s.Nested length) {w : Window} (hw : w.Within s.top) :
    Nested ⟨w, s.all⟩ length where
  stop_le := List.forall_mem_cons.2 ⟨Nat.le_trans hw.2 h.top_le, h.stop_le⟩
  within := by
    obtain ⟨htop, _⟩ := List.pairwise_cons.1 h.within
    refine List.pairwise_cons.2 ⟨fun v hv => ?_, h.within⟩
    rcases List.mem_cons.1 hv with rfl | hv
    · exact hw
    · exact hw.trans (htop v hv)

/-- A step puts a window inside of the top one on top of it, moves in it, or leaves it. -/
theorem Nested.after (h : s.Nested length) (n : Nat) (step : Step) :
    (s.after n step).Nested length := by
  -- A step moves the top inside of its window, except where it adds or drops one.
  have hadvance : Nested ⟨s.top.advance n, s.below⟩ length := h.replace (.refl s.top)
  cases step with
  | block k => exact hadvance.push (s.top.block_within n)
  | copy => exact h.push (.refl s.top)
  -- Without a cursor below there is nothing to drop.
  | drop =>
    obtain ⟨top, below⟩ := s
    cases below with
    | nil => exact h
    | cons w below =>
      exact ⟨fun v hv => h.stop_le v (List.mem_cons_of_mem _ hv),
        (List.pairwise_cons.1 h.within).2⟩
  | _ => exact hadvance

/-- A step keeps the windows nested. -/
theorem Nested.step (h : s.Nested length) (root : SliceCursor) (step : Step) :
    (s.step root step).2.Nested length := by
  unfold WindowStack.step
  split
  · exact h
  · exact h.after _ step

/-- The cursors behind a step are those of the windows behind it. -/
theorem after_on (halignment : 0 < root.alignment) (hn : n ≤ s.top.stop - s.top.position)
    (step : Step) : (s.on root).after n step = (s.after n step).on root := by
  have hadvance : (s.on root).top.advance n = (s.top.advance n).on root := Window.advance_on hn
  cases step with
  | block k =>
    have hwindow : (s.on root).top.window n = (s.top.block n).on root :=
      Window.window_on halignment hn
    simp only [CursorStack.after, hadvance, hwindow]
    rfl
  | copy => rfl
  | drop =>
    obtain ⟨top, below⟩ := s
    cases below <;> rfl
  | _ =>
    simp only [CursorStack.after, hadvance]
    rfl

/-- A step takes no more bytes than the window on top holds from the position on. -/
theorem taken_le (h : s.Nested root.bytes.length) {step : Step}
    (htaken : step.taken (root.origin + s.top.position) root.alignment
      (s.top.unread root.bytes) = .ok n) : n ≤ s.top.stop - s.top.position := by
  have hle := CursorStack.Step.taken_le htaken
  rwa [Window.length_unread h.top_le] at hle

section On

variable (hroot : root.Sound)
include hroot

/-- A step of the cursors is the step of their windows. -/
theorem step_on (h : s.Nested root.bytes.length) (step : Step) :
    (s.on root).step step = some ((s.step root step).1, (s.step root step).2.on root) := by
  have hsound : (s.on root).top.Sound := Window.sound_on hroot h.top_le
  have hunread : hsound.view.unread = s.top.unread root.bytes := Window.unread_on hroot h.top_le
  have hoffset : hsound.view.offset = root.origin + s.top.position :=
    Window.offset_on hroot h.top_le
  have halignment : (s.on root).top.alignment = root.alignment := rfl
  rw [CursorStack.step_eq hsound, hunread, hoffset, halignment, WindowStack.step]
  -- Both sides take the same bytes; what they leave agrees as far as the window has so many.
  cases htaken : step.taken (root.origin + s.top.position) root.alignment
    (s.top.unread root.bytes) with
  | error e => rfl
  | ok n =>
    have hn := taken_le h htaken
    simp only [Window.take_unread hn, after_on hroot.alignment_pos hn]

/-- A step that fails leaves the cursors as they are. -/
theorem step_of_error (h : s.Nested root.bytes.length) {step : Step} {e : Error}
    (htaken : step.taken (root.origin + s.top.position) root.alignment
      (s.top.unread root.bytes) = .error e) :
    (s.on root).step step = some (.error e, s.on root) := by
  rw [step_on hroot h, WindowStack.step, htaken]

/-- Any other step makes its answer of the bytes that the buffer holds from the position on. -/
theorem step_of_ok (h : s.Nested root.bytes.length) {step : Step}
    (htaken : step.taken (root.origin + s.top.position) root.alignment
      (s.top.unread root.bytes) = .ok n) :
    (s.on root).step step =
      some (.ok (step.answer ((root.bytes.drop s.top.position).take n)),
        (s.after n step).on root) := by
  rw [step_on hroot h, WindowStack.step, htaken]

/-- A run of the cursors is the run of their windows, which are nested at its end. -/
theorem run_on (h : s.Nested root.bytes.length) (steps : List Step) :
    (s.on root).run steps = some ((s.run root steps).1, (s.run root steps).2.on root) ∧
      (s.run root steps).2.Nested root.bytes.length := by
  -- That the windows are nested is what the next step needs, so it goes along.
  induction steps generalizing s with
  | nil => exact ⟨rfl, h⟩
  | cons first rest ih =>
    obtain ⟨hrun, hnested⟩ := ih (h.step root first)
    refine ⟨?_, hnested⟩
    simp only [CursorStack.run, step_on hroot h, hrun, Option.bind_eq_bind, Option.bind_some]
    rfl

end On

end WindowStack

namespace CursorStack

/-- All cursors are windows on the buffer that a stack is started on.  After any steps, which no
    fault ends, the windows lie inside of the buffer and inside of those below them.  The cursor of
    each shows its bounds and its position, and no byte outside of it can change what steps on it
    give.  The next step fails and leaves all cursors as they are, or it takes bytes of the buffer
    from the position on, no more than the window holds.  A window that is carved out is what its
    parent then has passed over. -/
theorem run_windows {bytes : List UInt8} {origin : Nat} (h : origin + bytes.length < Word.count)
    (alignment : Nat) (steps : List Step) :
    let root := SliceCursor.ofBytes bytes origin alignment
    ∃ results windows, (WindowStack.whole bytes.length).run root steps = (results, windows) ∧
      (ofBytes bytes origin alignment).run steps = some (results, windows.on root) ∧
      windows.all.Pairwise Window.Within ∧
      (∀ w ∈ windows.all,
        (w.start ≤ w.position ∧ w.position ≤ w.stop ∧ w.stop ≤ bytes.length) ∧
        (w.on root).bytes = (bytes.take w.stop).drop w.start ∧
        (w.on root).consumed = w.position - w.start ∧
        (w.on root).remaining? = some (w.stop - w.position) ∧
        (w.on root).offset? = some (origin + w.position) ∧
        ((w.on root).hasMore = true ↔ 0 < w.stop - w.position) ∧
        (w.on root).alignment = max alignment 1 ∧
        ∀ bytes' : List UInt8, (∀ i, w.start ≤ i → i < w.stop → bytes'[i]? = bytes[i]?) →
          w.on { root with bytes := bytes' } = w.on root ∧
          ∀ rest, KeepsLast ⟨w.on root, []⟩ rest → ∀ below below',
            answers ⟨w.on { root with bytes := bytes' }, below'⟩ rest =
              answers ⟨w.on root, below⟩ rest) ∧
      ∀ next : Step,
        match next.taken (origin + windows.top.position) (max alignment 1)
          (windows.top.unread bytes) with
        | .error e => (windows.on root).step next = some (.error e, windows.on root)
        | .ok n =>
          (windows.on root).step next =
            some (.ok (next.answer ((bytes.drop windows.top.position).take n)),
              (windows.after n next).on root) ∧
          n ≤ windows.top.stop - windows.top.position ∧
          (windows.top.advance n).position = windows.top.position + n ∧
          (windows.top.block n).start = windows.top.position ∧
          (windows.top.block n).stop = (windows.top.advance n).position ∧
          (windows.top.block n).Within windows.top := by
  intro root
  have hroot : root.Sound := ⟨Nat.zero_le _, h, by show 0 < max alignment 1; omega⟩
  have hstart : (WindowStack.whole root.bytes.length).on root = ofBytes bytes origin alignment :=
    WindowStack.whole_on bytes origin alignment
  obtain ⟨hrun, hnested⟩ := WindowStack.run_on hroot (WindowStack.nested_whole _) steps
  rw [hstart] at hrun
  refine ⟨_, _, rfl, hrun, hnested.within, fun w hw => ?_, fun next => ?_⟩
  -- What a window on the stack gives does not depend on the bytes outside of it.
  · have hstop := hnested.stop_le w hw
    exact ⟨⟨w.start_le, w.position_le, hstop⟩, rfl, rfl, Window.remaining?_on hroot hstop,
      Window.offset?_on hroot hstop, Window.hasMore_on hroot hstop, rfl, fun bytes' hagree =>
        ⟨Window.on_congr hagree, fun rest hkeeps below below' =>
          Window.answers_on_congr hagree hkeeps below below'⟩⟩
  -- The next step fails and changes nothing, or moves on by what is taken.
  · split
    · rename_i e htaken
      exact WindowStack.step_of_error hroot hnested htaken
    · rename_i n htaken
      have hn := WindowStack.taken_le hnested htaken
      exact ⟨WindowStack.step_of_ok hroot hnested htaken, hn, Window.position_advance hn, rfl, rfl,
        Window.block_within _ _⟩

/-- A window of five bytes is carved out, and a string in it has no end.  Behind it the buffer goes
    on. -/
theorem run_windows_carved :
    let bytes : List UInt8 := [0x61, 0x62, 0, 0x63, 0x64, 0, 0x65, 0x66]
    1 + bytes.length < Word.count ∧
      (ofBytes bytes 1 4).run
          [.block 5, .raw 3, .terminatedString .latin1, .drop, .align, .u8, .u16] =
        some ([.ok .done, .ok (.bytes [0x61, 0x62, 0]), .error (.unterminated 4), .ok .done,
            .ok (.skipped 2), .ok (.number 0x66), .error (.truncated "u16" 9 2 0)],
          ⟨⟨bytes, 8, 1, 4⟩, []⟩) := by
  intro bytes
  have hlt : 1 + bytes.length < Word.count := by decide
  obtain ⟨results, windows, hwindows, hrun, -⟩ := run_windows hlt 4
    [.block 5, .raw 3, .terminatedString .latin1, .drop, .align, .u8, .u16]
  have hresults : WindowStack.run (.whole 8) (.ofBytes bytes 1 4)
      [.block 5, .raw 3, .terminatedString .latin1, .drop, .align, .u8, .u16] =
        ([.ok .done, .ok (.bytes [0x61, 0x62, 0]), .error (.unterminated 4), .ok .done,
          .ok (.skipped 2), .ok (.number 0x66), .error (.truncated "u16" 9 2 0)],
        ⟨⟨0, 8, 8, by decide, by decide⟩, []⟩) := by
    cbv
  obtain ⟨rfl, rfl⟩ := Prod.mk.inj (hresults.symm.trans hwindows)
  exact ⟨hlt, hrun⟩

end CursorStack

end TypeStream
