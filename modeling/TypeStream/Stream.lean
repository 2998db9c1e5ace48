import TypeStream.Catalog
import TypeStream.Decoder
import TypeStream.Reference.Collector

/-! # Streams

A stream is a sequence of frames: the length of the rest of the frame in 2 bytes, the leaf kind in
2 bytes, and the body of a record.  Frames are numbered from the first index of the options on.

A frame that runs past the end of the stream ends the decoding, because the next one cannot be
found.  A record that cannot be decoded does not: it is listed in the report, its index stays
empty, and decoding goes on behind its frame, unless the options are strict. -/

namespace TypeStream

/-- Reads the length of a frame and carves the frame out. -/
def Cursor.frame : Cursor.Read Cursor := do
  let length ← Cursor.u16
  Cursor.block length.toNat

namespace Cursor

theorem remaining_lt_of_u16 {n : UInt16} {c rest : Cursor} (h : u16 c = .ok n rest) :
    rest.remaining < c.remaining := by
  by_cases hle : 2 ≤ c.remaining
  · simp only [u16, bind, EStateM.bind, bytes_of_le hle, pure, EStateM.pure,
      EStateM.Result.ok.injEq] at h
    rw [← h.2, remaining_advance]
    omega
  · simp [u16, bind, EStateM.bind, bytes_of_lt (Nat.lt_of_not_le hle)] at h

theorem remaining_le_of_block {n : Nat} {window c rest : Cursor} (h : block n c = .ok window rest) :
    rest.remaining ≤ c.remaining := by
  by_cases hle : n ≤ c.remaining
  · rw [block_of_le hle] at h
    obtain ⟨_, rfl⟩ := EStateM.Result.ok.inj h
    rw [remaining_advance]
    omega
  · rw [block_of_lt (Nat.lt_of_not_le hle)] at h
    exact nomatch h

/-- Behind a frame there are fewer bytes than before it. -/
theorem remaining_lt_of_frame {window c rest : Cursor} (h : frame c = .ok window rest) :
    rest.remaining < c.remaining := by
  simp only [frame, bind, EStateM.bind] at h
  split at h
  · rename_i hlength
    exact Nat.lt_of_le_of_lt (remaining_le_of_block h) (remaining_lt_of_u16 hlength)
  · exact nomatch h

end Cursor

/-! ### One frame -/

/-- What decoding one frame gives. -/
structure FrameOutcome where
  /-- The leaf kind, if the frame holds one. -/
  kind : Option UInt16
  /-- The references reported, in order; a failure keeps those before it. -/
  references : List Reference
  /-- The record, or why there is none. -/
  result : Except Error Record

/-- Decodes the frame that the cursor stands at the start of.  The record must take up all of it. -/
def DecoderTable.readFrame (t : DecoderTable) (ctx : Context) (frame : Cursor) : FrameOutcome :=
  match Cursor.u16 frame with
  | .error e _ => ⟨none, [], .error e⟩
  | .ok kind body =>
    match t.decoder kind ctx (.ofCursor body) with
    | .error e s => ⟨some kind, s.references, .error e⟩
    | .ok record s =>
      ⟨some kind, s.references,
        if s.cursor.atEnd then .ok record else .error (.leftover ctx.index s.cursor.remaining)⟩

/-! ### Reports -/

/-- A record that could not be decoded. -/
structure Failure where
  /-- The index that the record would have had. -/
  index : TypeIndex
  /-- Its leaf kind, if the frame holds one. -/
  kind : Option UInt16
  /-- The offset of its frame. -/
  offset : Nat
  /-- Why it could not be decoded. -/
  error : Error
deriving DecidableEq, Repr

/-- The failure as it is shown. -/
def Failure.text (f : Failure) : String :=
  f.index.text ++ " (" ++
    (match f.kind with
      | some kind => "leaf 0x" ++ Text.hexadecimal 4 kind.toNat ++ " "
      | none => "") ++
    "at 0x" ++ Text.hexadecimal 1 f.offset ++ "): " ++ f.error.message

/-- What there is to say about a run. -/
structure Report where
  /-- How many records were decoded. -/
  decoded : Nat := 0
  /-- How many records were kept without being decoded. -/
  unknown : Nat := 0
  /-- The records that could not be decoded, in stream order. -/
  failures : List Failure := []
deriving DecidableEq, Repr

/-- Counts a record that was stored. -/
def Report.count (r : Report) (record : Record) : Report :=
  if record.isUnknown then { r with unknown := r.unknown + 1 }
  else { r with decoded := r.decoded + 1 }

/-- A decoded stream. -/
structure Decoded where
  catalog : Catalog
  report : Report

/-! ### The whole stream -/

/-- A run between two frames. -/
structure Progress where
  /-- The index of the next record. -/
  index : TypeIndex
  /-- What has been decoded so far. -/
  decoded : Decoded

namespace Progress

/-- A run at the start of a stream. -/
def start (o : Options) : Progress := ⟨o.firstIndex, .empty o.placeholders, {}⟩

/-- The run after a frame at the offset given. -/
def add (p : Progress) (offset : Nat) (outcome : FrameOutcome) : Progress where
  index := p.index.next
  decoded :=
    match outcome.result with
    | .ok record =>
      { catalog := p.decoded.catalog.insert p.index record
        report := p.decoded.report.count record }
    | .error e =>
      { p.decoded with
        report.failures := p.decoded.report.failures ++ [⟨p.index, outcome.kind, offset, e⟩] }

end Progress

namespace DecoderTable

variable {σ : Type} [Collector σ]

/-- Decodes the frames from the cursor to the end of the stream. -/
def run (t : DecoderTable) (o : Options) (p : Progress) (collector : σ) (c : Cursor) :
    Except Error Decoded × σ :=
  if c.atEnd then (.ok p.decoded, collector)
  else
    match _h : Cursor.frame c with
    | .error e _ => (.error e, collector)
    | .ok frame rest =>
      let outcome := t.readFrame ⟨p.index, o⟩ frame
      let collector := Collector.noteAll collector outcome.references
      match o.strict, outcome.result with
      | true, .error e => (.error e, collector)
      | _, _ => run t o (p.add c.offset outcome) collector rest
termination_by c.remaining
decreasing_by exact Cursor.remaining_lt_of_frame _h

section Run

variable (t : DecoderTable) {o : Options} (p : Progress) (collector : σ) {c frame rest : Cursor}

/-- Behind the last frame, a run gives what it has decoded. -/
theorem run_of_atEnd (h : c.atEnd = true) :
    t.run o p collector c = (.ok p.decoded, collector) := by
  rw [run, if_pos h]

/-- A frame that is not complete ends a run. -/
theorem run_of_frame_error {e : Error} (h : ¬ c.atEnd = true)
    (hframe : Cursor.frame c = .error e rest) :
    t.run o p collector c = (.error e, collector) := by
  rw [run, if_neg h]
  split
  · rename_i heq
    rw [hframe] at heq
    cases heq
    rfl
  · rename_i heq
    rw [hframe] at heq
    exact nomatch heq

/-- A strict run ends with the first record that cannot be decoded. -/
theorem run_of_strict_error {e : Error} (h : ¬ c.atEnd = true)
    (hframe : Cursor.frame c = .ok frame rest) (ho : o.strict = true)
    (he : (t.readFrame ⟨p.index, o⟩ frame).result = .error e) :
    t.run o p collector c =
      (.error e, Collector.noteAll collector (t.readFrame ⟨p.index, o⟩ frame).references) := by
  rw [run, if_neg h]
  split
  · rename_i heq
    rw [hframe] at heq
    exact nomatch heq
  · rename_i heq
    rw [hframe] at heq
    cases heq
    simp only [ho, he]

/-- In every other case a run goes on behind the frame. -/
theorem run_of_frame_ok (h : ¬ c.atEnd = true) (hframe : Cursor.frame c = .ok frame rest)
    (hgo : o.strict = true → ∀ e, (t.readFrame ⟨p.index, o⟩ frame).result ≠ .error e) :
    t.run o p collector c =
      t.run o (p.add c.offset (t.readFrame ⟨p.index, o⟩ frame))
        (Collector.noteAll collector (t.readFrame ⟨p.index, o⟩ frame).references) rest := by
  rw [run, if_neg h]
  split
  · rename_i heq
    rw [hframe] at heq
    exact nomatch heq
  · rename_i heq
    rw [hframe] at heq
    cases heq
    dsimp only
    split
    · rename_i ho he
      exact absurd he (hgo ho _)
    · rfl

end Run

/-- Decodes a stream.  The collector takes note of the references, also of those reported before a
    failure. -/
def readStream (t : DecoderTable) (o : Options) (stream : List UInt8) (collector : σ) :
    Except Error Decoded × σ :=
  match o.validate with
  | .error e => (.error e, collector)
  | .ok () => t.run o (.start o) collector (.ofBytes stream 0 o.alignment)

end DecoderTable

end TypeStream
