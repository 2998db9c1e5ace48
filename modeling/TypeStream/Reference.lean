import TypeStream.TypeIndex

/-! # References

A reference is an edge from a record to the index that the record names.  References are reported
while records are decoded, also those to index `0`, which name nothing. -/

namespace TypeStream

/-- A record names an index. -/
structure Reference where
  /-- The record that holds the reference. -/
  source : TypeIndex
  /-- The index that it names. -/
  target : TypeIndex
deriving DecidableEq, Repr

namespace Reference

/-- Whether the reference names nothing. -/
def isNone (r : Reference) : Bool := r.target.isNone

/-- Whether a record names itself. -/
def isSelf (r : Reference) : Bool := r.target = r.source

/-- Whether the named index lies behind that of the record. -/
def isForward (r : Reference) : Bool := r.source < r.target

/-- What is remarked on a reference; the first remark that applies wins. -/
def remark (r : Reference) : String :=
  if r.isNone then " (none)"
  else if r.isSelf then " (self)"
  else if r.isForward then " (forward)"
  else ""

/-- A reference as one line of text. -/
def line (r : Reference) : String := r.source.text ++ " -> " ++ r.target.text ++ r.remark

end Reference

end TypeStream
