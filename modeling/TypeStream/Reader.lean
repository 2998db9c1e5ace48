import TypeStream.Cursor
import TypeStream.Options
import TypeStream.Reference

/-! # Reading records

A record is read from a cursor, and the references found on the way are reported.  Both outcomes
of a read keep what was done before: the position reached and the references reported so far stand
also when a later step fails. -/

namespace TypeStream

/-- What is known of a record while its body is read. -/
structure Context where
  /-- The index of the record. -/
  index : TypeIndex
  /-- The settings of the run. -/
  options : Options
deriving DecidableEq, Repr

namespace Reader

/-- The position in the body, and the references reported so far in order. -/
structure State where
  cursor : Cursor
  references : List Reference
deriving DecidableEq

end Reader

/-- A computation that reads a body and reports references. -/
abbrev Reader (α : Type) : Type := EStateM Error Reader.State α

namespace Reader

variable {α : Type}

/-- The state at the start of a body. -/
def State.ofCursor (c : Cursor) : State := ⟨c, []⟩

/-- A read that reports nothing. -/
def ofRead (read : Cursor.Read α) : Reader α := fun s =>
  match read s.cursor with
  | .ok a c => .ok a { s with cursor := c }
  | .error e c => .error e { s with cursor := c }

instance : MonadLift Cursor.Read Reader := ⟨ofRead⟩

/-- Reads inside a window of its own; the position in the body stays. -/
def within (window : Cursor) (read : Cursor.Read α) : Reader α := fun s =>
  match read window with
  | .ok a _ => .ok a s
  | .error e _ => .error e s

/-- Reports a reference. -/
def report (r : Reference) : Reader Unit := fun s =>
  .ok () { s with references := s.references ++ [r] }

/-- Reads an index and reports that the record refers to it. -/
def reference (ctx : Context) : Reader TypeIndex := do
  let target : TypeIndex := ⟨← ofRead Cursor.u32⟩
  report ⟨ctx.index, target⟩
  return target

end Reader

end TypeStream
