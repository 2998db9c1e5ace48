import TypeStream.Proofs.CoupledReaders
import TypeStream.Proofs.StreamOutcome

/-!
# Frames further on in a stream

A decoder sees where it stands through padding, which is a matter of the offset modulo the
alignment, and tells offsets in some errors.  So a frame that is found a multiple of the alignment
further on decodes to the same record or fails with the same error, further on (`Error.shift`), and
reports the same references.

## Key results

- `Cursor.Coupling.shift`: reading the same bytes further on
- `Registered.outcome_shift`: what a frame decodes to further on
- `Registered.records_shift`, `Registered.references_shift`, `Registered.failures_shift`: the same
  for many frames
-/

namespace TypeStream

variable {o : Options} {d : Nat}

/-- The error `d` bytes further on in a stream. -/
def Error.shift (d : Nat) : Error → Error
  | truncated field offset needed available => truncated field (offset + d) needed available
  | unterminated offset => unterminated (offset + d)
  | e => e

/-- An error without an offset is not shifted. -/
theorem Error.shift_of_offset?_eq_none {e : Error} (h : e.offset? = none) : e.shift d = e := by
  cases e with
  | truncated field offset needed available => exact nomatch h
  | unterminated offset => exact nomatch h
  | _ => rfl

/-- The failure `d` bytes further on in a stream, with the same index. -/
def Failure.shift (d : Nat) (g : Failure) : Failure :=
  { g with offset := g.offset + d, error := g.error.shift d }

/-! ### Cursors -/

namespace Cursor

/-- The cursor `d` bytes further on in a stream, with the same bytes in front of it. -/
def shift (d : Nat) (c : Cursor) : Cursor := { c with origin := c.origin + d }

/-- A cursor that is shifted is further on by the distance. -/
theorem offset_shift (c : Cursor) : (c.shift d).offset = c.offset + d := by
  unfold offset
  show c.origin + d + c.consumed = c.origin + c.consumed + d
  omega

theorem window_shift (c : Cursor) (n : Nat) : (c.shift d).window n = (c.window n).shift d := by
  unfold window
  rw [offset_shift]
  rfl

/-- Padding repeats with the alignment. -/
theorem padding_shift {c : Cursor} (h : c.alignment ∣ d) : (c.shift d).padding = c.padding := by
  obtain ⟨k, rfl⟩ := h
  unfold padding
  rw [offset_shift, show (c.shift (c.alignment * k)).alignment = c.alignment from rfl,
    Nat.add_mul_mod_self_left]

/-- Reading the same bytes `d` further on, where `d` is a multiple of the alignment. -/
def Coupling.shift (d : Nat) (charset : Charset) : Coupling charset charset where
  Cursors c c' := c' = c.shift d ∧ c.alignment ∣ d
  Padded c c' := c' = c.shift d
  Errors e e' := e' = e.shift d
  Names := Eq
  unread_eq := by
    intro c c' h
    obtain ⟨rfl, _⟩ := h
    rfl
  advance := by
    intro c c' h n
    obtain ⟨rfl, halign⟩ := h
    exact ⟨rfl, halign⟩
  window := by
    intro c c' h n
    obtain ⟨rfl, halign⟩ := h
    exact ⟨window_shift c n, halign⟩
  padded h := h.1
  padding := by
    intro c c' h
    obtain ⟨rfl, halign⟩ := h
    rw [padding_shift halign]
    rfl
  truncated := by
    intro c c' h field needed available
    obtain ⟨rfl, _⟩ := h
    rw [offset_shift]
    rfl
  unterminated := by
    intro c c' h
    obtain ⟨rfl, _⟩ := h
    rw [offset_shift]
    rfl
  errors_self h := (Error.shift_of_offset?_eq_none h).symm
  names _ := rfl

end Cursor

/-! ### Frames -/

/-- The frame `d` bytes further on in a stream, with the same index. -/
def Frame.Placed.shift (d : Nat) (f : Placed) : Placed := { f with offset := f.offset + d }

/-- Frames that begin later stand later by the same distance. -/
theorem Frame.place_shift (index : TypeIndex) (offset : Nat) (payloads : List (List UInt8)) :
    place index (offset + d) payloads = (place index offset payloads).map (Placed.shift d) := by
  induction payloads generalizing index offset with
  | nil => rfl
  | cons payload rest ih =>
    simp only [place, List.map_cons, Nat.add_right_comm offset d, ih]
    rfl

/-- The error of a tail is that of the tail further on. -/
theorem Frame.tailError?_shift (offset : Nat) (tail : List UInt8) :
    tailError? (offset + d) tail = (tailError? offset tail).map (Error.shift d) := by
  rcases tail with _ | ⟨low, _ | ⟨high, rest⟩⟩ <;> rfl

/-- The outcome of the frame `d` bytes further on in a stream. -/
def FrameOutcome.shift (d : Nat) (outcome : FrameOutcome) : FrameOutcome :=
  { outcome with result := outcome.result.mapError (Error.shift d) }

namespace DecoderTable

variable {t : DecoderTable} (ht : t.Registered) (halign : o.alignment ∣ d)
include ht halign

/-- A frame further on decodes to the same, with the offsets in errors moved along. -/
theorem Registered.outcome_shift (f : Frame.Placed) :
    t.outcome o (f.shift d) = (t.outcome o f).shift d := by
  -- A cursor has an alignment of at least one, also where that of the options is zero.
  have hdvd : max o.alignment 1 ∣ d := by
    by_cases hzero : o.alignment = 0
    · rw [hzero] at halign ⊢
      exact Nat.one_dvd d
    · rwa [Nat.max_eq_left (Nat.pos_of_ne_zero hzero)]
  have hcursor : Cursor.ofBytes f.payload (f.offset + d + 2) o.alignment =
      (Cursor.ofBytes f.payload (f.offset + 2) o.alignment).shift d := by
    rw [Nat.add_right_comm]
    rfl
  -- A shifted cursor reads the same, since the boundaries are shifted along.
  have hsame := Cursor.Coupling.readFrame (.shift d o.charset) f.index ht rfl ⟨hcursor, hdvd⟩
  change Cursor.Coupling.Outcomes _ _ (t.outcome o f) (t.outcome o (f.shift d)) at hsame
  generalize t.outcome o f = outcome, t.outcome o (f.shift d) = outcome' at hsame
  obtain ⟨kind, references, result⟩ := outcome
  obtain ⟨kind', references', result'⟩ := outcome'
  obtain ⟨rfl, rfl, hresults⟩ := hsame
  -- Behind the frames the cursors are as far apart as in front of them.
  have hresult : result' = result.mapError (Error.shift d) := by
    obtain ⟨e, _, rfl, rfl, rfl⟩ | ⟨record, _, c, _, hrecord, rfl, rfl, rfl⟩ := hresults
    · rfl
    · rw [← hrecord.eq]
      show (if c.atEnd then _ else _) = Except.mapError _ (if c.atEnd then _ else _)
      by_cases hend : c.atEnd = true
      · rw [if_pos hend, if_pos hend]
        rfl
      · rw [if_neg hend, if_neg hend]
        rfl
  unfold FrameOutcome.shift
  rw [hresult]

/-- A frame decodes to the same record wherever it stands. -/
theorem Registered.record?_shift (f : Frame.Placed) :
    t.record? o (f.shift d) = t.record? o f := by
  unfold record?
  rw [ht.outcome_shift halign f]
  cases hresult : (t.outcome o f).result <;> simp only [FrameOutcome.shift, hresult] <;> rfl

/-- It fails in the same way, at offsets that are further on. -/
theorem Registered.failure?_shift (f : Frame.Placed) :
    t.failure? o (f.shift d) = (t.failure? o f).map (Failure.shift d) := by
  unfold failure?
  rw [ht.outcome_shift halign f]
  cases hresult : (t.outcome o f).result <;> simp only [FrameOutcome.shift, hresult] <;> rfl

/-- Frames report the same references wherever they stand. -/
theorem Registered.references_shift (frames : List Frame.Placed) :
    t.references o (frames.map (Frame.Placed.shift d)) = t.references o frames := by
  unfold references
  rw [List.flatMap_map]
  apply List.flatMap_congr
  intro f _
  rw [ht.outcome_shift halign f]
  rfl

theorem Registered.records_shift (frames : List Frame.Placed) :
    t.records o (frames.map (Frame.Placed.shift d)) = t.records o frames := by
  unfold records
  rw [List.filterMap_map]
  exact List.filterMap_congr fun f _ => ht.record?_shift halign f

/-- They have the same failures, at offsets that are further on. -/
theorem Registered.failures_shift (frames : List Frame.Placed) :
    t.failures o (frames.map (Frame.Placed.shift d)) =
      (t.failures o frames).map (Failure.shift d) := by
  unfold failures
  rw [List.filterMap_map, List.map_filterMap]
  exact List.filterMap_congr fun f _ => ht.failure?_shift halign f

theorem Registered.untilFailure_shift (frames : List Frame.Placed) :
    t.untilFailure o (frames.map (Frame.Placed.shift d)) =
      (t.untilFailure o frames).map (Frame.Placed.shift d) := by
  induction frames with
  | nil => rfl
  | cons f rest ih =>
    simp only [List.map_cons, untilFailure, ht.failure?_shift halign f, ih]
    cases t.failure? o f <;> rfl

/-- The error that ends a run moves along. -/
theorem Registered.refusal?_shift (frames : List Frame.Placed) :
    t.refusal? o (frames.map (Frame.Placed.shift d)) =
      (t.refusal? o frames).map (Error.shift d) := by
  unfold refusal?
  rw [ht.failures_shift halign, List.head?_map]
  by_cases hstrict : o.strict = true
  · simp only [hstrict, ↓reduceIte, Option.map_map]
    rfl
  · simp only [hstrict, Bool.false_eq_true, ↓reduceIte, Option.map_none]

/-- So a run reports the same references wherever the frames stand. -/
theorem Registered.references_reached_shift (frames : List Frame.Placed) :
    t.references o (t.reached o (frames.map (Frame.Placed.shift d))) =
      t.references o (t.reached o frames) := by
  unfold reached
  split
  · rw [ht.untilFailure_shift halign, ht.references_shift halign]
  · rw [ht.references_shift halign]

end DecoderTable

end TypeStream
