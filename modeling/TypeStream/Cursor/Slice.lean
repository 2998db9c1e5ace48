import TypeStream.Cursor

/-! # Cursors on slices

A cursor on a slice holds the bytes of its window and a position among them.  Positions and offsets
are words of 64 bits, so every step of its arithmetic can be a fault that ends the program: a sum
that is no word, a difference below zero, a remainder by zero, or a part of a slice that reaches
outside of it.  `SliceCursor.Read` keeps such a fault apart from a read that fails. -/

namespace TypeStream

/-! ### Words -/

namespace Word

/-- How many words there are. -/
def count : Nat := UInt64.size

/-- The sum of two words, if it is a word. -/
def add? (a b : Nat) : Option Nat := if a + b < count then some (a + b) else none

/-- The difference of two words, unless it is below zero. -/
def sub? (a b : Nat) : Option Nat := if b ≤ a then some (a - b) else none

/-- The remainder of a word, unless it is divided by zero. -/
def mod? (a b : Nat) : Option Nat := if b = 0 then none else some (a % b)

/-- The part of a slice from one position to another, if these are in order and inside of it. -/
def slice? (bytes : List UInt8) (start stop : Nat) : Option (List UInt8) :=
  if start ≤ stop ∧ stop ≤ bytes.length then some ((bytes.take stop).drop start) else none

theorem add?_of_lt {a b : Nat} (h : a + b < count) : add? a b = some (a + b) := if_pos h

theorem sub?_of_le {a b : Nat} (h : b ≤ a) : sub? a b = some (a - b) := if_pos h

theorem mod?_of_pos {a b : Nat} (h : 0 < b) : mod? a b = some (a % b) := if_neg (by omega)

theorem slice?_of_le {bytes : List UInt8} {start stop : Nat} (h : start ≤ stop)
    (hstop : stop ≤ bytes.length) : slice? bytes start stop = some ((bytes.take stop).drop start) :=
  if_pos ⟨h, hstop⟩

end Word

/-! ### Cursors -/

/-- A position in a slice. -/
structure SliceCursor where
  /-- The bytes of the window. -/
  bytes : List UInt8
  /-- How many of them lie before the position. -/
  position : Nat
  /-- The absolute offset of the start of the window. -/
  origin : Nat
  /-- The distance of the boundaries that padding reaches for. -/
  alignment : Nat
deriving DecidableEq, Repr

namespace SliceCursor

/-- A cursor at the start of a slice.  An alignment of zero acts as one. -/
def ofBytes (bytes : List UInt8) (origin alignment : Nat) : SliceCursor :=
  ⟨bytes, 0, origin, max alignment 1⟩

/-- How many bytes have been passed over. -/
def consumed (c : SliceCursor) : Nat := c.position

/-- How many bytes are left. -/
def remaining? (c : SliceCursor) : Option Nat := Word.sub? c.bytes.length c.position

/-- Whether any byte is left. -/
def hasMore (c : SliceCursor) : Bool := c.position < c.bytes.length

/-- The absolute offset of the position. -/
def offset? (c : SliceCursor) : Option Nat := Word.add? c.origin c.position

/-- A computation that moves a cursor.  It can fail, and it can end the program. -/
abbrev Read (α : Type) : Type := SliceCursor → Option (Except Error α × SliceCursor)

/-- Reads a number of a width, low byte first.  A failure names the field that it was read for. -/
def number {α : Type} (field : String) (width : Nat) (ofNat : Nat → α) : Read α := fun c => do
  let offset ← c.offset?
  let rest ← Word.slice? c.bytes c.position c.bytes.length
  if rest.length < width then
    return (.error (.truncated field offset width (← c.remaining?)), c)
  else
    let position ← Word.add? c.position width
    return (.ok (ofNat (LittleEndian.decode (rest.take width))), { c with position })

/-- Reads one byte. -/
def u8 : Read UInt8 := number "u8" 1 UInt8.ofNat

/-- Reads a 16-bit number. -/
def u16 : Read UInt16 := number "u16" 2 UInt16.ofNat

/-- Reads a 32-bit number. -/
def u32 : Read UInt32 := number "u32" 4 UInt32.ofNat

/-- Reads a 32-bit number in two's complement. -/
def i32 : Read Int32 := number "i32" 4 fun n => (UInt32.ofNat n).toInt32

/-- Reads `n` bytes. -/
def raw (field : String) (n : Nat) : Read (List UInt8) := fun c => do
  if (← c.remaining?) < n then
    return (.error (.truncated field (← c.offset?) n (← c.remaining?)), c)
  else
    let position ← Word.add? c.position n
    return (.ok (← Word.slice? c.bytes c.position position), { c with position })

/-- Carves out the next `n` bytes as a window of their own and passes over them. -/
def block (n : Nat) : Read SliceCursor := fun c => do
  if (← c.remaining?) < n then
    return (.error (.blockOverrun n (← c.remaining?)), c)
  else
    let origin ← c.offset?
    let position ← Word.add? c.position n
    let window ← Word.slice? c.bytes c.position position
    return (.ok (ofBytes window origin c.alignment), { c with position })

/-- Reads a string up to a zero byte, and the zero byte. -/
def terminatedString (charset : Charset) : Read String := fun c => do
  let rest ← Word.slice? c.bytes c.position c.bytes.length
  match rest.idxOf? 0 with
  | none => return (.error (.unterminated (← c.offset?)), c)
  | some length =>
    let name ← Word.slice? rest 0 length
    let position ← Word.add? c.position (← Word.add? length 1)
    return (.ok (charset.decode name), { c with position })

/-- Passes over the padding up to the next boundary or to the end of the window, and tells how many
    bytes that were. -/
def align : Read Nat := fun c => do
  let misalignment ← Word.mod? (← c.offset?) c.alignment
  if misalignment = 0 then return (.ok 0, c)
  else
    let wanted ← Word.sub? c.alignment misalignment
    let skipped := min wanted (← c.remaining?)
    let position ← Word.add? c.position skipped
    return (.ok skipped, { c with position })

end SliceCursor

end TypeStream
