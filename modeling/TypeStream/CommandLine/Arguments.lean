import TypeStream.LogSettings
import TypeStream.Options
import TypeStream.Text.Numeral

/-! # Command line arguments

`Invocation.parse` reads the arguments of the program: options of the program, the name of a
command, and the options and the file of that command.  The options of the program are accepted
behind the command too, and count there if they are given in both places.

Arguments are read from the left.  The value of an option, and the file, are looked at only when
the next argument has turned out to be one that is known, so an unknown argument is reported
before a bad value to its left.  What is wrong behind the command is reported before what is wrong
with the last value in front of it. -/

namespace TypeStream.CommandLine

/-- What to do with a stream. -/
inductive Command
  /-- Show every record. -/
  | dump
  /-- Show every reference. -/
  | edges
deriving DecidableEq, Repr

/-- Why arguments are refused. -/
inductive UsageError
  /-- There is nothing to go by. -/
  | noArguments
  /-- Only options of the program were given. -/
  | noCommand
  /-- The name of a command is not known. -/
  | unknownCommand
  /-- A command lacks its file. -/
  | noFile
  /-- An option is not known here, or there is an argument too many. -/
  | unknownArgument
  /-- An option lacks its value, or a path is empty. -/
  | missingValue
  /-- A value is not one of its option. -/
  | refusedValue
  /-- A value is given to an option that takes none. -/
  | unexpectedValue
  /-- An option is given twice. -/
  | repeated
deriving DecidableEq, Repr

/-- Why no command is run. -/
inductive Stop
  | help
  | version
  | usage (error : UsageError)
deriving DecidableEq, Repr

/-! ### Single arguments -/

/-- The form of an argument. -/
inductive Token
  /-- `--`, behind which there are no options. -/
  | separator
  /-- `--name` or `--name=value`. -/
  | long (name : String) (value : Option String)
  /-- `-` and the first letter behind it; more letters may follow. -/
  | short (letter : Char)
  /-- Anything else. -/
  | plain
deriving DecidableEq, Repr

/-- The form of an argument, by its characters. -/
def Token.ofChars : List Char → Token
  | ['-', '-'] => separator
  | '-' :: '-' :: rest =>
    let name := String.ofList (rest.takeWhile (· ≠ '='))
    match rest.dropWhile (· ≠ '=') with
    | [] => long name none
    | _ :: value => long name (some (String.ofList value))
  | '-' :: letter :: _ => short letter
  | _ => plain

/-- What takes a value. -/
inductive Slot
  | file
  | firstIndex
  | charset
  | alignment
  | logLevel
  | logDirectory
deriving DecidableEq, Repr

/-- What is turned on. -/
inductive Switch
  | strict
  | requireTableName
  | placeholders
deriving DecidableEq, Repr

/-- What an option stands for. -/
inductive Meaning
  | stop (s : Stop)
  | value (slot : Slot)
  | switch (switch : Switch)
deriving DecidableEq, Repr

/-- Where an argument stands. -/
inductive Level
  /-- In front of the command. -/
  | program
  /-- Behind the command. -/
  | command
deriving DecidableEq, Repr

/-- The options by name.  Those of the program, except its version, are known at both levels. -/
def Meaning.ofName? : Level → String → Option Meaning
  | _, "help" => some (.stop .help)
  | _, "log-level" => some (.value .logLevel)
  | _, "log-dir" => some (.value .logDirectory)
  | .program, "version" => some (.stop .version)
  | .command, "first-index" => some (.value .firstIndex)
  | .command, "charset" => some (.value .charset)
  | .command, "alignment" => some (.value .alignment)
  | .command, "strict" => some (.switch .strict)
  | .command, "require-table-name" => some (.switch .requireTableName)
  | .command, "placeholders" => some (.switch .placeholders)
  | _, _ => none

/-- The options by letter. -/
def Meaning.ofLetter? : Level → Char → Option Meaning
  | _, 'h' => some (.stop .help)
  | .program, 'V' => some (.stop .version)
  | _, _ => none

/-! ### Values -/

/-- What has been given so far. -/
structure Given where
  file : Option String := none
  firstIndex : Option TypeIndex := none
  charset : Option Charset := none
  alignment : Option Nat := none
  strict : Option Unit := none
  requireTableName : Option Unit := none
  placeholders : Option Unit := none
  logLevel : Option LogLevel := none
  logDirectory : Option String := none
deriving DecidableEq, Repr

/-- The reading of a path: any text but the empty one. -/
def readPath (text : String) : Except UsageError String :=
  if text = "" then .error .missingValue else .ok text

/-- The reading of a number of bytes, which fits into 64 bits. -/
def readSize (text : String) : Except UsageError Nat :=
  (Text.Numeral.parse 10 UInt64.size text.toList).mapError fun _ => .refusedValue

/-- The reading of an index. -/
def readIndex (text : String) : Except UsageError TypeIndex :=
  (TypeIndex.ofText text).mapError fun _ => .refusedValue

/-- The reading of a word. -/
def readWord {α : Type} (vocabulary : Text.Vocabulary α) (text : String) : Except UsageError α :=
  (vocabulary.parse text).mapError fun _ => .refusedValue

/-- Something that was not given before, or else the error that it was. -/
def once {α β : Type} (old : Option α) (new : Except UsageError β) :
    Except UsageError (Option β) :=
  if old.isSome then .error .repeated else some <$> new

namespace Given

/-- Takes in a value.  That the option is repeated counts before what its value is. -/
def take (g : Given) (text : String) : Slot → Except UsageError Given
  | .file => return { g with file := ← once g.file (readPath text) }
  | .firstIndex => return { g with firstIndex := ← once g.firstIndex (readIndex text) }
  | .charset => return { g with charset := ← once g.charset (readWord Charset.vocabulary text) }
  | .alignment => return { g with alignment := ← once g.alignment (readSize text) }
  | .logLevel =>
    return { g with logLevel := ← once g.logLevel (readWord LogLevel.vocabulary text) }
  | .logDirectory => return { g with logDirectory := ← once g.logDirectory (readPath text) }

/-- Takes in a switch. -/
def turnOn (g : Given) : Switch → Except UsageError Given
  | .strict => return { g with strict := ← once g.strict (.ok ()) }
  | .requireTableName => return { g with requireTableName := ← once g.requireTableName (.ok ()) }
  | .placeholders => return { g with placeholders := ← once g.placeholders (.ok ()) }

end Given

/-! ### Lists of arguments -/

/-- A position between two arguments. -/
structure Scan where
  /-- What has been given and looked at. -/
  given : Given := {}
  /-- What has been given last and not been looked at; its value may be still to come. -/
  pending : Option (Slot × Option String) := none
  /-- Whether the file has been given. -/
  hasFile : Bool := false
  /-- Whether there are no options any more. -/
  closed : Bool := false
deriving DecidableEq, Repr

namespace Scan

/-- Looks at what was given last. -/
def settle (s : Scan) : Except UsageError Scan :=
  match s.pending with
  | none => .ok s
  | some (_, none) => .error .missingValue
  | some (slot, some text) => return { s with given := ← s.given.take text slot, pending := none }

/-- Whether the next argument, unless it is an option, is the value of the one before. -/
def awaitsValue (s : Scan) : Bool := s.pending.any (·.2.isNone)

/-- Reads an option that is known. -/
def option (s : Scan) (value : Option String) : Meaning → Except Stop Scan
  | .stop reason => do
    if value.isSome then throw (.usage .unexpectedValue)
    let _ ← s.settle.mapError .usage
    throw reason
  | .switch switch => do
    if value.isSome then throw (.usage .unexpectedValue)
    let s ← s.settle.mapError .usage
    let given ← (s.given.turnOn switch).mapError .usage
    return { s with given }
  | .value slot => do
    let s ← s.settle.mapError .usage
    match value with
    | none => return { s with pending := some (slot, none) }
    | some text =>
      let given ← (s.given.take text slot).mapError .usage
      return { s with given }

/-- Reads an argument that has the form of an option, if it has. -/
def option? (level : Level) (s : Scan) : Token → Option (Except Stop Scan)
  | .separator => some (.ok { s with closed := true })
  | .long name value => some <|
    match Meaning.ofName? level name with
    | some meaning => s.option value meaning
    | none => .error (.usage .unknownArgument)
  | .short letter => some <|
    match Meaning.ofLetter? level letter with
    | some meaning => s.option none meaning
    | none => .error (.usage .unknownArgument)
  | .plain => none

/-- Reads an argument behind the command. -/
def commandArgument (s : Scan) (text : String) : Except Stop Scan :=
  match if s.closed then none else s.option? .command (Token.ofChars text.toList) with
  | some outcome => outcome
  | none => do
    if s.awaitsValue && !s.closed then
      return { s with pending := s.pending.map fun p => (p.1, some text) }
    if s.hasFile then throw (.usage .unknownArgument)
    let s ← s.settle.mapError .usage
    return { s with pending := some (.file, some text), hasFile := true }

end Scan

/-! ### Invocations -/

/-- A command on a stream. -/
structure Invocation where
  command : Command
  /-- The file that holds the stream. -/
  file : String
  /-- How the stream is decoded. -/
  options : Options
  /-- The level to log at, if one was chosen. -/
  logLevel : Option LogLevel
  /-- The directory to log in, if one was chosen. -/
  logDirectory : Option String
deriving DecidableEq, Repr

/-- The names of commands; `none` stands for help. -/
def commandName? : String → Option (Option Command)
  | "dump" => some (some .dump)
  | "edges" => some (some .edges)
  | "help" => some none
  | _ => none

/-- What `help` gives: at most one command may follow, by its name. -/
def helpStop : List String → Stop
  | [] => .help
  | [name] => if (commandName? name).isSome then .help else .usage .unknownCommand
  | _ => .usage .unknownCommand

namespace Invocation

/-- The options of a decoding run.  What was not given has its usual value. -/
def optionsOf (g : Given) : Options where
  charset := g.charset.getD ({} : Options).charset
  alignment := g.alignment.getD ({} : Options).alignment
  naming := if g.requireTableName.isSome then .required else .optional
  firstIndex := g.firstIndex.getD ({} : Options).firstIndex
  strict := g.strict.isSome
  placeholders := g.placeholders.isSome

/-- Reads the arguments behind a command. -/
def parseCommand (command : Command) (arguments : List String) : Except Stop Invocation := do
  let s ← arguments.foldlM Scan.commandArgument {}
  let s ← s.settle.mapError .usage
  match s.given.file with
  | none => throw (.usage .noFile)
  | some file =>
    return { command, file
             options := optionsOf s.given
             logLevel := s.given.logLevel
             logDirectory := s.given.logDirectory }

/-- The invocation with the options of the program that stand in front of the command. -/
def withProgramOptions (i : Invocation) (g : Given) : Invocation :=
  { i with
    logLevel := i.logLevel.or g.logLevel
    logDirectory := i.logDirectory.or g.logDirectory }

/-- Reads the arguments from a position in front of the command on. -/
def parseFrom (s : Scan) : List String → Except Stop Invocation
  | [] => do
    let s ← s.settle.mapError .usage
    throw (.usage (if s.given = {} then .noArguments else .noCommand))
  | text :: rest =>
    if s.closed then
      .error (.usage (if (commandName? text).isSome then .unknownArgument else .unknownCommand))
    else
      match s.option? .program (Token.ofChars text.toList) with
      | some (.ok s) => parseFrom s rest
      | some (.error stop) => .error stop
      | none =>
        if s.awaitsValue then
          parseFrom { s with pending := s.pending.map fun p => (p.1, some text) } rest
        else
          match commandName? text with
          | none => .error (.usage .unknownCommand)
          | some none => .error (helpStop rest)
          | some (some command) => do
            let invocation ← parseCommand command rest
            let s ← s.settle.mapError .usage
            return invocation.withProgramOptions s.given

/-- Reads the arguments of the program. -/
def parse (arguments : List String) : Except Stop Invocation := parseFrom {} arguments

end Invocation

end TypeStream.CommandLine
