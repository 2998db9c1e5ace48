import TypeStream.Reader

/-!
# What a read takes

A read that succeeds takes some bytes from the front of the cursor and does not look behind them.
`Cursor.Reads read a taken` says so for one value and the bytes that it is read from, and
`Reader.Reads` says it for readers, which also report references.  Both relations compose along
`bind`, so the layout of a record is read off from the layouts of its fields.

## Key results

- `Cursor.Reads.bind` / `Reader.Reads.bind`: two reads in sequence take one run of bytes
- `Cursor.Reads.u16`, `Cursor.Reads.u32`, `Cursor.Reads.i32`: numbers are read from their bytes
- `Reader.Reads.reference`: an index is read and reported
- `Reader.exists_ok_of_bind_ok`: what succeeds has succeeded step by step
- `Reader.references_of_reference_ok`: reading an index adds one reference
-/

namespace TypeStream

namespace Cursor

@[simp] theorem unread_advance (c : Cursor) (n : Nat) :
    (c.advance n).unread = c.unread.drop n := rfl

@[simp] theorem alignment_advance (c : Cursor) (n : Nat) :
    (c.advance n).alignment = c.alignment := rfl

@[simp] theorem advance_advance (c : Cursor) (m n : Nat) :
    (c.advance m).advance n = c.advance (m + n) := by
  simp [advance, Nat.add_assoc]

@[simp] theorem advance_zero (c : Cursor) : c.advance 0 = c := rfl

variable {α β : Type}

/-- The read takes the bytes given from the front of any cursor, and gives `a`. -/
def Reads (read : Read α) (a : α) (taken : List UInt8) : Prop :=
  ∀ (c : Cursor) (rest : List UInt8), c.unread = taken ++ rest →
    read c = .ok a (c.advance taken.length)

/-- A value that is just given back takes no bytes. -/
theorem Reads.pure (a : α) : Reads (pure a) a [] := by
  intro c rest _
  rfl

/-- Reads one after the other take their bytes one behind the other. -/
theorem Reads.bind {read : Read α} {next : α → Read β} {a : α} {b : β} {ta tb : List UInt8}
    (ha : Reads read a ta) (hb : Reads (next a) b tb) : Reads (read >>= next) b (ta ++ tb) := by
  intro c rest hc
  have hread := ha c (tb ++ rest) (by simp [hc])
  have hnext := hb (c.advance ta.length) rest (by simp [hc])
  show EStateM.bind read next c = _
  simp only [EStateM.bind, hread, hnext, advance_advance, List.length_append]

/-- What is made of a value takes no more bytes. -/
theorem Reads.map {read : Read α} {a : α} {taken : List UInt8} (h : Reads read a taken)
    (f : α → β) : Reads (do return f (← read)) (f a) taken := by
  have hmap : Reads (read >>= fun a => Pure.pure (f a)) (f a) (taken ++ []) :=
    h.bind (Reads.pure (f a))
  simpa using hmap

/-- A field is read as its own bytes. -/
theorem Reads.bytes (field : String) {n : Nat} {taken : List UInt8} (h : taken.length = n) :
    Reads (bytes field n) taken taken := by
  subst h
  intro c rest hc
  rw [bytes_of_le (by simp [remaining, hc])]
  simp [hc]

/-! ### Numbers -/

/-- Any two bytes are read as the number that they make. -/
theorem Reads.u16_of_length {taken : List UInt8} (h : taken.length = 2) :
    Reads u16 (UInt16.ofNat (LittleEndian.decode taken)) taken :=
  (Reads.bytes "u16" h).map _

/-- A number of two bytes is read as it was written. -/
theorem Reads.u16 (n : UInt16) : Reads u16 n (LittleEndian.encode 2 n.toNat) := by
  have h := Reads.u16_of_length (LittleEndian.length_encode 2 n.toNat)
  rwa [LittleEndian.decode_encode n.toNat_lt, UInt16.ofNat_toNat] at h

theorem Reads.u32 (n : UInt32) : Reads u32 n (LittleEndian.encode 4 n.toNat) := by
  have h : Reads Cursor.u32 _ _ :=
    (Reads.bytes "u32" (LittleEndian.length_encode 4 n.toNat)).map _
  rwa [LittleEndian.decode_encode n.toNat_lt, UInt32.ofNat_toNat] at h

theorem Reads.i32 (n : Int32) : Reads i32 n (LittleEndian.encode 4 n.toUInt32.toNat) := by
  have h : Reads Cursor.i32 _ _ :=
    (Reads.bytes "i32" (LittleEndian.length_encode 4 n.toUInt32.toNat)).map _
  rwa [LittleEndian.decode_encode n.toUInt32.toNat_lt, UInt32.ofNat_toNat,
    Int32.toInt32_toUInt32] at h

end Cursor

/-! ### Readers -/

namespace Reader

variable {α β : Type}

/-- The reader takes the bytes given from the front of any cursor, gives `a`, and reports the
    references given. -/
def Reads (read : Reader α) (a : α) (taken : List UInt8) (reported : List Reference) : Prop :=
  ∀ (s : State) (rest : List UInt8), s.cursor.unread = taken ++ rest →
    read s = .ok a ⟨s.cursor.advance taken.length, s.references ++ reported⟩

theorem Reads.pure (a : α) : Reads (pure a) a [] [] := by
  intro s rest _
  simp [Pure.pure, EStateM.pure]

/-- References are reported in the order of the reads. -/
theorem Reads.bind {read : Reader α} {next : α → Reader β} {a : α} {b : β} {ta tb : List UInt8}
    {ra rb : List Reference} (ha : Reads read a ta ra) (hb : Reads (next a) b tb rb) :
    Reads (read >>= next) b (ta ++ tb) (ra ++ rb) := by
  intro s rest hs
  have hread := ha s (tb ++ rest) (by simp [hs])
  have hnext := hb ⟨s.cursor.advance ta.length, s.references ++ ra⟩ rest (by simp [hs])
  show EStateM.bind read next s = _
  simp only [EStateM.bind, hread, hnext, Cursor.advance_advance, List.length_append,
    List.append_assoc]

/-- A read of the cursor reports nothing. -/
theorem Reads.ofRead {read : Cursor.Read α} {a : α} {taken : List UInt8}
    (h : Cursor.Reads read a taken) : Reads (ofRead read) a taken [] := by
  intro s rest hs
  simp [Reader.ofRead, h s.cursor rest hs]

/-- A report takes no bytes. -/
theorem Reads.report (r : Reference) : Reads (report r) () [] [r] := by
  intro s rest _
  rfl

/-- An index is read and reported as a reference of the record. -/
theorem Reads.reference (ctx : Context) (target : TypeIndex) :
    Reads (Reader.reference ctx) target (LittleEndian.encode 4 target.toNat)
      [⟨ctx.index, target⟩] := by
  have hvalue := Reads.ofRead (Cursor.Reads.u32 target.value)
  have hreport : Reads (do Reader.report ⟨ctx.index, target⟩; return target) target _ _ :=
    (Reads.report ⟨ctx.index, target⟩).bind (Reads.pure target)
  have h : Reads (Reader.reference ctx) target _ _ := hvalue.bind hreport
  simpa [TypeIndex.toNat] using h

/-! ### What a success comes from -/

/-- What succeeds in two steps has succeeded in each of them. -/
theorem exists_ok_of_bind_ok {σ : Type} {read : EStateM Error σ α} {next : α → EStateM Error σ β}
    {s s' : σ} {b : β} (h : (read >>= next) s = .ok b s') :
    ∃ a middle, read s = .ok a middle ∧ next a middle = .ok b s' := by
  simp only [bind, EStateM.bind] at h
  split at h
  · exact ⟨_, _, by assumption, h⟩
  · exact nomatch h

variable {s s' : State} {a : α}

/-- A read that succeeds only moves the cursor. -/
theorem exists_ok_of_ofRead_ok {read : Cursor.Read α} (h : ofRead read s = .ok a s') :
    ∃ c, read s.cursor = .ok a c ∧ s' = { s with cursor := c } := by
  simp only [ofRead] at h
  split at h
  · rename_i hread
    obtain ⟨rfl, rfl⟩ := EStateM.Result.ok.inj h
    exact ⟨_, hread, rfl⟩
  · cases h

/-- So it leaves the references as they were. -/
theorem references_of_ofRead_ok {read : Cursor.Read α} (h : ofRead read s = .ok a s') :
    s'.references = s.references := by
  obtain ⟨c, _, rfl⟩ := exists_ok_of_ofRead_ok h
  rfl

theorem references_of_within_ok {window : Cursor} {read : Cursor.Read α}
    (h : within window read s = .ok a s') : s'.references = s.references := by
  simp only [within] at h
  split at h
  · rw [← (EStateM.Result.ok.inj h).2]
  · exact nomatch h

/-- A reference that is read is reported behind all the others. -/
theorem references_of_reference_ok {ctx : Context} {i : TypeIndex}
    (h : reference ctx s = .ok i s') : s'.references = s.references ++ [⟨ctx.index, i⟩] := by
  obtain ⟨n, middle, hread, hreport⟩ := exists_ok_of_bind_ok h
  obtain ⟨rfl, rfl⟩ := EStateM.Result.ok.inj hreport
  rw [← references_of_ofRead_ok hread]

end Reader

end TypeStream
