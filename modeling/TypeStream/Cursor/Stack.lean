import TypeStream.Cursor.Slice

/-! # Stacks of cursors

A stack holds cursors on one buffer.  Every step works with the cursor on top: it reads from it,
carves a window out of it, which becomes the top, puts a copy of it on top, or takes it off, unless
it is the only one. -/

namespace TypeStream

/-- Cursors, of which the top one is in use. -/
structure CursorStack where
  top : SliceCursor
  /-- The others, the one below the top first. -/
  below : List SliceCursor
deriving DecidableEq, Repr

namespace CursorStack

/-- What can be done with a stack. -/
inductive Step
  | u8
  | u16
  | u32
  | i32
  /-- Reads so many bytes. -/
  | raw (n : Nat)
  | terminatedString (charset : Charset)
  | align
  /-- Carves a window of so many bytes out of the top. -/
  | block (n : Nat)
  /-- Puts a copy of the top on top of it. -/
  | copy
  /-- Takes off the top. -/
  | drop
deriving DecidableEq, Repr

/-- What a step gives. -/
inductive Answer
  | number (n : Int)
  | bytes (bytes : List UInt8)
  | text (text : String)
  /-- So many bytes were passed over. -/
  | skipped (n : Nat)
  | done
deriving DecidableEq, Repr

/-- A stack with one cursor, at the start of a buffer. -/
def ofBytes (bytes : List UInt8) (origin alignment : Nat) : CursorStack :=
  ⟨.ofBytes bytes origin alignment, []⟩

/-- Reads from the top. -/
def read {α : Type} (s : CursorStack) (read : SliceCursor.Read α) (answer : α → Answer) :
    Option (Except Error Answer × CursorStack) := do
  let (result, top) ← read s.top
  return (result.map answer, { s with top })

/-- Takes a step, which can fail and can end the program. -/
def step (s : CursorStack) : Step → Option (Except Error Answer × CursorStack)
  | .u8 => s.read SliceCursor.u8 fun n => .number n.toNat
  | .u16 => s.read SliceCursor.u16 fun n => .number n.toNat
  | .u32 => s.read SliceCursor.u32 fun n => .number n.toNat
  | .i32 => s.read SliceCursor.i32 fun n => .number n.toInt
  | .raw n => s.read (SliceCursor.raw "raw" n) .bytes
  | .terminatedString charset => s.read (SliceCursor.terminatedString charset) .text
  | .align => s.read SliceCursor.align .skipped
  | .block n => do
    match ← s.top.block n with
    | (.error e, top) => return (.error e, { s with top })
    | (.ok window, top) => return (.ok .done, ⟨window, top :: s.below⟩)
  | .copy => return (.ok .done, ⟨s.top, s.top :: s.below⟩)
  | .drop =>
    match s.below with
    | [] => return (.ok .done, s)
    | top :: below => return (.ok .done, ⟨top, below⟩)

/-- Takes steps one after the other, up to the end of the program if it comes to that. -/
def run (s : CursorStack) : List Step → Option (List (Except Error Answer) × CursorStack)
  | [] => return ([], s)
  | first :: rest => do
    let (answer, s) ← s.step first
    let (answers, s) ← s.run rest
    return (answer :: answers, s)

end CursorStack

end TypeStream
