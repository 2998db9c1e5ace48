import TypeStream.CommandLine.Output

/-! # The program

Reads the arguments and the file, runs the command and prints what it gives.  The options about
logging are checked, but nothing is logged. -/

open TypeStream TypeStream.CommandLine

namespace TypeStream.Main

/-- How the program is called. -/
def usage : String :=
  "Usage: typestream [--log-level LEVEL] [--log-dir DIR] <dump|edges> FILE [OPTIONS]\n\n" ++
  "  --first-index N        index of the first record\n" ++
  "  --charset NAME         latin1, ascii or utf8\n" ++
  "  --alignment N          distance of padding boundaries, a power of two\n" ++
  "  --strict               end at the first record that fails\n" ++
  "  --require-table-name   refuse tables without a name\n" ++
  "  --placeholders         show placeholders for missing records\n"

/-- The report on refused arguments. -/
def usageMessage : UsageError → String
  | .noArguments => "a command is required"
  | .noCommand => "a command is required behind the options"
  | .unknownCommand => "the command is not known"
  | .noFile => "the command needs a file"
  | .unknownArgument => "an argument is not expected"
  | .missingValue => "an option lacks its value"
  | .refusedValue => "the value of an option is not valid"
  | .unexpectedValue => "an option takes no value"
  | .repeated => "an option is given twice"

/-- The number of a system error, which may be reported with its sign changed. -/
def errorNumber (code : UInt32) : UInt32 := if code < 0x80000000 then code else 0 - code

/-- Why a file cannot be read, by what the system reports. -/
def fileError : IO.Error → FileError
  | .noFileOrDirectory .. => .missing
  | .permissionDenied _ code details | .inappropriateType _ code details
  | .invalidArgument _ code details | .resourceExhausted _ code details
  | .noSuchThing _ code details | .alreadyExists _ code details
  | .hardwareFault code details | .resourceBusy code details | .otherError code details =>
    .ofNumber (errorNumber code) details
  | e => .other (toString e) 0

/-- The bytes of a file, or why there are none. -/
def readStream (file : String) : IO (Except FileError (List UInt8)) := do
  try
    let bytes ← IO.FS.readBinFile file
    return .ok bytes.toList
  catch e => return .error (fileError e)

end TypeStream.Main

open TypeStream.Main

/-- Runs the program. -/
def main (arguments : List String) : IO UInt32 := do
  match Invocation.parse arguments with
  | .error .help =>
    IO.print usage
    return 0
  | .error .version =>
    IO.println "typestream 0.0.0"
    return 0
  | .error (.usage e) =>
    IO.eprintln ("error: " ++ usageMessage e)
    IO.eprint usage
    return 2
  | .ok invocation =>
    let output := invocation.run (← readStream invocation.file)
    IO.print output.standardOutput
    IO.eprint output.standardError
    return output.exitCode
