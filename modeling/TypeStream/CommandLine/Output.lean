import TypeStream.CommandLine.Arguments
import TypeStream.FileError
import TypeStream.Stream

/-! # What the commands print

`dump` prints a line for every record in order of index, and remarks on the records that were
skipped; `edges` prints a line for every reference in the order in which they were reported.  Both
end with a summary.  A command that fails has printed the lines before the failure, and no
summary. -/

namespace TypeStream.CommandLine

/-- What a command prints. -/
structure Output where
  /-- The lines of the standard output. -/
  lines : List String
  /-- The lines of the standard error output, apart from a failure. -/
  remarks : List String
  /-- What made the command fail, if it did. -/
  failure : Option Error
deriving DecidableEq, Repr

namespace Output

/-- Lines, each ended by a line feed. -/
def textOfLines (lines : List String) : String := String.join (lines.map (· ++ "\n"))

/-- The standard output. -/
def standardOutput (o : Output) : String := textOfLines o.lines

/-- The standard error output. -/
def standardError (o : Output) : String :=
  textOfLines (o.remarks ++ o.failure.toList.map fun e => "Error: " ++ e.message)

/-- The exit code. -/
def exitCode (o : Output) : UInt32 := if o.failure.isSome then 1 else 0

end Output

/-- The line of a record: its text, or in brackets why it has none. -/
def recordLine (i : TypeIndex) (rendered : Except Error String) : String :=
  i.text ++ ": " ++
    match rendered with
    | .ok text => text
    | .error e => "<error: " ++ e.message ++ ">"

/-- The lines of the records with the indices given.  If strict, the first one that cannot be
    rendered ends them. -/
def recordLines (strict : Bool) (c : Catalog) : List TypeIndex → List String × Option Error
  | [] => ([], none)
  | i :: rest =>
    match strict, c.render i with
    | true, .error e => ([], some e)
    | _, rendered =>
      let (lines, failure) := recordLines strict c rest
      (recordLine i rendered :: lines, failure)

/-- The summary of a run. -/
def summary (d : Decoded) : String :=
  let failed := d.report.failures.length
  let total := d.catalog.size + failed
  s!"{total} records ({d.report.decoded} decoded, {d.report.unknown} unknown, {failed} failed)"

/-- Shows every record of a stream. -/
def dump (o : Options) (stream : List UInt8) : Output :=
  match (DecoderTable.standard.readStream o stream ()).1 with
  | .error e => ⟨[], [], some e⟩
  | .ok d =>
    match recordLines o.strict d.catalog (d.catalog.entries.map Prod.fst) with
    | (lines, some e) => ⟨lines, [], some e⟩
    | (lines, none) =>
      let skipped := d.report.failures.map ("skipped " ++ ·.text)
      ⟨lines, skipped ++ [summary d], none⟩

/-- Shows every reference of a stream. -/
def edges (o : Options) (stream : List UInt8) : Output :=
  match DecoderTable.standard.readStream o stream Trail.empty with
  | (.error e, _) => ⟨[], [], some e⟩
  | (.ok _, t) =>
    let counts := s!"{t.references.length} edges, {t.forward.length} forward, "
    ⟨t.references.map Reference.line, [counts ++ s!"{t.selfLoops.length} self"], none⟩

/-- Runs a command on a stream, or on the reason why there is none. -/
def Invocation.run (i : Invocation) (stream : Except FileError (List UInt8)) : Output :=
  match stream with
  | .error e => ⟨[], [], some (.fileSystem e.message)⟩
  | .ok bytes =>
    match i.command with
    | .dump => dump i.options bytes
    | .edges => edges i.options bytes

end TypeStream.CommandLine
