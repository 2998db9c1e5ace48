import TypeStream.Charset
import TypeStream.Error
import TypeStream.LittleEndian

/-! # Cursors

A cursor stands in a window of a byte stream.  It holds the bytes that are left up to the end of
the window, how many it has consumed, and the absolute offset at which the window starts, so that
error reports and padding follow positions in the whole stream.  Nothing outside the window can
be read: `Cursor.block` carves out a smaller window that ends where the block ends.

Reads are computations over a cursor (`Cursor.Read`).  A read that fails leaves the cursor where
it was: each has a lemma that gives its result in both cases. -/

namespace TypeStream

/-- A position in a window of a byte stream. -/
structure Cursor where
  /-- The bytes from the position to the end of the window. -/
  unread : List UInt8
  /-- How many bytes of the window lie before the position. -/
  consumed : Nat
  /-- The absolute offset of the start of the window. -/
  origin : Nat
  /-- The distance of the boundaries that padding reaches for. -/
  alignment : Nat
  alignment_pos : 0 < alignment
deriving DecidableEq

namespace Cursor

/-- A cursor at the start of a window that holds `bytes`.  An alignment of zero acts as one. -/
def ofBytes (bytes : List UInt8) (origin alignment : Nat) : Cursor where
  unread := bytes
  consumed := 0
  origin := origin
  alignment := max alignment 1
  alignment_pos := by omega

/-- How many bytes are left. -/
def remaining (c : Cursor) : Nat := c.unread.length

/-- Whether no byte is left. -/
def atEnd (c : Cursor) : Bool := c.unread.isEmpty

/-- The absolute offset of the position. -/
def offset (c : Cursor) : Nat := c.origin + c.consumed

/-- The cursor `n` bytes further on, where at least `n` bytes are left. -/
def advance (c : Cursor) (n : Nat) : Cursor :=
  { c with unread := c.unread.drop n, consumed := c.consumed + n }

/-- The window of the next `n` bytes, where at least `n` bytes are left. -/
def window (c : Cursor) (n : Nat) : Cursor where
  unread := c.unread.take n
  consumed := 0
  origin := c.offset
  alignment := c.alignment
  alignment_pos := c.alignment_pos

/-- Whether at least `n` bytes are left.  Only the first `n` bytes are looked at. -/
def has (c : Cursor) (n : Nat) : Bool := (c.unread.take n).length = n

theorem has_iff {c : Cursor} {n : Nat} : c.has n = true ↔ n ≤ c.remaining := by
  simp only [has, remaining, List.length_take, decide_eq_true_eq]
  omega

@[simp] theorem remaining_advance (c : Cursor) (n : Nat) :
    (c.advance n).remaining = c.remaining - n := by
  simp [advance, remaining]

@[simp] theorem offset_advance (c : Cursor) (n : Nat) :
    (c.advance n).offset = c.offset + n := by
  simp [advance, offset, Nat.add_assoc]

theorem atEnd_iff {c : Cursor} : c.atEnd = true ↔ c.remaining = 0 := by
  cases h : c.unread <;> simp [atEnd, remaining, h]

/-! ### Reads -/

/-- A computation that moves a cursor and can fail.  Both outcomes come with the cursor. -/
abbrev Read (α : Type) : Type := EStateM Error Cursor α

/-- Reads `n` bytes.  A failure names the field that they were read for. -/
def bytes (field : String) (n : Nat) : Read (List UInt8) := fun c =>
  if c.has n then .ok (c.unread.take n) (c.advance n)
  else .error (.truncated field c.offset n c.remaining) c

/-- Reads one byte. -/
def u8 : Read UInt8 := return UInt8.ofNat (LittleEndian.decode (← bytes "u8" 1))

/-- Reads a 16-bit number, low byte first. -/
def u16 : Read UInt16 := return UInt16.ofNat (LittleEndian.decode (← bytes "u16" 2))

/-- Reads a 32-bit number, low byte first. -/
def u32 : Read UInt32 := return UInt32.ofNat (LittleEndian.decode (← bytes "u32" 4))

/-- Reads a 32-bit number in two's complement, low byte first. -/
def i32 : Read Int32 := return (UInt32.ofNat (LittleEndian.decode (← bytes "i32" 4))).toInt32

/-- Carves out the next `n` bytes as a window of their own and passes over them. -/
def block (n : Nat) : Read Cursor := fun c =>
  if c.has n then .ok (c.window n) (c.advance n)
  else .error (.blockOverrun n c.remaining) c

/-- Reads a string up to a zero byte, and the zero byte. -/
def terminatedString (charset : Charset) : Read String := fun c =>
  let name := c.unread.takeWhile (· != 0)
  if c.has (name.length + 1) then .ok (charset.decode name) (c.advance (name.length + 1))
  else .error (.unterminated c.offset) c

/-- The distance from the position to the next boundary. -/
def padding (c : Cursor) : Nat := (c.alignment - c.offset % c.alignment) % c.alignment

/-- Passes over the padding up to the next boundary or to the end of the window, and tells how
    many bytes that were.  It never fails. -/
def align : Read Nat := fun c =>
  let skipped := min c.padding c.remaining
  .ok skipped (c.advance skipped)

theorem bytes_of_le {field : String} {n : Nat} {c : Cursor} (h : n ≤ c.remaining) :
    bytes field n c = .ok (c.unread.take n) (c.advance n) := by
  simp [bytes, has_iff.2 h]

theorem bytes_of_lt {field : String} {n : Nat} {c : Cursor} (h : c.remaining < n) :
    bytes field n c = .error (.truncated field c.offset n c.remaining) c := by
  have : ¬ c.has n = true := by rw [has_iff]; omega
  simp [bytes, this]

theorem block_of_le {n : Nat} {c : Cursor} (h : n ≤ c.remaining) :
    block n c = .ok (c.window n) (c.advance n) := by
  simp [block, has_iff.2 h]

theorem block_of_lt {n : Nat} {c : Cursor} (h : c.remaining < n) :
    block n c = .error (.blockOverrun n c.remaining) c := by
  have : ¬ c.has n = true := by rw [has_iff]; omega
  simp [block, this]

/-- In front of a zero byte there is a string. -/
theorem terminatedString_of_append {charset : Charset} {c : Cursor} {name rest : List UInt8}
    (h : c.unread = name ++ 0 :: rest) (hname : 0 ∉ name) :
    terminatedString charset c = .ok (charset.decode name) (c.advance (name.length + 1)) := by
  have hall : ∀ b ∈ name, (b != 0) = true := fun b hb => by
    simpa using fun h0 : b = 0 => hname (h0 ▸ hb)
  have htake : c.unread.takeWhile (· != 0) = name := by
    rw [h, List.takeWhile_append_of_pos hall]
    simp
  have hle : name.length + 1 ≤ c.remaining := by simp [remaining, h]
  simp [terminatedString, htake, has_iff.2 hle]

/-- Without a zero byte there is none. -/
theorem terminatedString_of_not_mem {charset : Charset} {c : Cursor} (h : 0 ∉ c.unread) :
    terminatedString charset c = .error (.unterminated c.offset) c := by
  have hall : ∀ b ∈ c.unread, (b != 0) = true := fun b hb => by
    simpa using fun h0 : b = 0 => h (h0 ▸ hb)
  have htake : c.unread.takeWhile (· != 0) = c.unread := by
    simpa using @List.takeWhile_append_of_pos UInt8 (· != 0) c.unread [] hall
  have hlt : ¬ c.has (c.unread.length + 1) = true := by
    rw [has_iff, remaining]
    omega
  simp [terminatedString, htake, hlt]

/-- A string that is read leaves fewer bytes. -/
theorem remaining_lt_of_terminatedString {charset : Charset} {name : String} {c rest : Cursor}
    (h : terminatedString charset c = .ok name rest) : rest.remaining < c.remaining := by
  simp only [terminatedString] at h
  split at h
  · rename_i hle
    rw [has_iff] at hle
    obtain ⟨_, rfl⟩ := EStateM.Result.ok.inj h
    rw [remaining_advance]
    omega
  · exact nomatch h

/-- Reads strings up to the end of the window.  Behind a string that has no terminating zero byte
    nothing is read, and the cursor stays at its start. -/
def terminatedStrings (charset : Charset) (c : Cursor) :
    EStateM.Result Error Cursor (List String) :=
  if c.atEnd then .ok [] c
  else
    match _h : terminatedString charset c with
    | .error e stop => .error e stop
    | .ok name rest =>
      match terminatedStrings charset rest with
      | .error e stop => .error e stop
      | .ok names stop => .ok (name :: names) stop
termination_by c.remaining
decreasing_by exact remaining_lt_of_terminatedString _h

section TerminatedStrings

variable {charset : Charset} {c rest stop : Cursor}

theorem terminatedStrings_of_atEnd (h : c.atEnd = true) :
    terminatedStrings charset c = .ok [] c := by
  rw [terminatedStrings, if_pos h]

theorem terminatedStrings_of_error {e : Error} (h : ¬ c.atEnd = true)
    (hname : terminatedString charset c = .error e stop) :
    terminatedStrings charset c = .error e stop := by
  rw [terminatedStrings, if_neg h]
  split
  · rename_i heq
    rw [hname] at heq
    cases heq
    rfl
  · rename_i heq
    rw [hname] at heq
    exact nomatch heq

theorem terminatedStrings_of_ok {name : String} (h : ¬ c.atEnd = true)
    (hname : terminatedString charset c = .ok name rest) :
    terminatedStrings charset c =
      match terminatedStrings charset rest with
      | .error e stop => .error e stop
      | .ok names stop => .ok (name :: names) stop := by
  rw [terminatedStrings, if_neg h]
  split
  · rename_i heq
    rw [hname] at heq
    exact nomatch heq
  · rename_i heq
    rw [hname] at heq
    cases heq
    rfl

end TerminatedStrings

end Cursor

end TypeStream
