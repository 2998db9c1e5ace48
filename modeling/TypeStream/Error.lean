import TypeStream.TypeIndex

/-! # Causes of failure

One type holds every way in which reading, rendering or setting up can fail.  The wording is in
`Error.message` only. -/

namespace TypeStream

/-- Why an operation failed.  Offsets are absolute positions in the stream. -/
inductive Error
  /-- A field needs more bytes than are left. -/
  | truncated (field : String) (offset needed available : Nat)
  /-- A block declares more bytes than are left. -/
  | blockOverrun (declared available : Nat)
  /-- A string has no terminating zero byte before its bound. -/
  | unterminated (offset : Nat)
  /-- A name block is empty although tables must be named. -/
  | unnamedTable
  /-- A reference leads to no record and to no primitive type. -/
  | unresolved (index : TypeIndex)
  /-- A record refers to itself, directly or through others. -/
  | cyclic (index : TypeIndex)
  /-- A record lies further down a chain of references than rendering goes. -/
  | tooDeep (index : TypeIndex) (depth : Nat)
  /-- A record ended before its frame did. -/
  | leftover (index : TypeIndex) (count : Nat)
  /-- A setting or a record is refused for the reason given. -/
  | invalidArgument (reason : String)
  /-- The stream could not be fetched. -/
  | fileSystem (reason : String)
deriving DecidableEq, Repr

namespace Error

/-- The report shown to the user. -/
def message : Error → String
  | truncated field offset needed available =>
    s!"Truncated {field} at offset {offset}: need {needed} bytes, {available} available"
  | blockOverrun declared available =>
    s!"Sub-block of {declared} bytes exceeds the {available} bytes remaining"
  | unterminated offset => s!"Unterminated string starting at offset {offset}"
  | unnamedTable => "Name block is empty but a table name is required"
  | unresolved index => "Unresolved reference to record " ++ index.text
  | cyclic index => "Reference cycle detected while rendering record " ++ index.text
  | tooDeep index depth =>
    "Rendering record " ++ index.text ++ s!" exceeds the maximum nesting depth of {depth}"
  | leftover index count => "Record " ++ index.text ++ s!" left {count} unconsumed bytes"
  | invalidArgument reason => "Invalid argument: " ++ reason
  | fileSystem reason => "IO error: " ++ reason

end Error

end TypeStream
