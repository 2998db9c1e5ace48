/-! # Paths

Paths are written with slashes.  Repeated slashes, a slash at the end and the part `.` count for
nothing, except that a relative path may start with `.`; the part `..` stays, because it depends on
the file system where it leads. -/

namespace TypeStream

/-- A path, by what stands between its slashes. -/
structure Path where
  /-- Whether the path starts at the root. -/
  absolute : Bool
  /-- What stands between the slashes, outermost first. -/
  parts : List String
deriving DecidableEq, Repr

namespace Path

/-- The path that a text writes. -/
def ofText (text : String) : Path :=
  match text.splitOn "/" with
  | "" :: first :: rest => ⟨true, first :: rest⟩
  | parts => ⟨false, parts⟩

/-- The text that writes a path. -/
def text (p : Path) : String :=
  (if p.absolute then "/" else "") ++ String.intercalate "/" p.parts

/-- Whether a part counts for nothing, unless it starts a relative path. -/
def isIdle (part : String) : Bool := part = "" ∨ part = "."

/-- The path without the parts at its end that count for nothing. -/
def trim (p : Path) : Path :=
  match (p.parts.reverse.dropWhile isIdle).reverse with
  | [] => { p with parts := if p.absolute then [] else (p.parts.take 1).filter (· = ".") }
  | parts => { p with parts }

/-- The last part, if it is a name. -/
def fileName? (p : Path) : Option String :=
  p.trim.parts.getLast?.filter fun part => part ≠ "." ∧ part ≠ ".."

/-- The path without its last part; it has no text if the last part was the only one. -/
def parent (p : Path) : Path := { p with parts := p.trim.parts.dropLast }.trim

/-- What to follow from the start of the path on.  A slash at the end asks for a directory, as `.`
    does. -/
def steps (p : Path) : List String :=
  p.parts.filter (· ≠ "") ++ if p.parts.getLast? = some "" then ["."] else []

/-- The text of a name below the directory that a text writes. -/
def join (directory name : String) : String :=
  if directory = "" ∨ directory.endsWith "/" then directory ++ name
  else directory ++ "/" ++ name

end Path

end TypeStream
