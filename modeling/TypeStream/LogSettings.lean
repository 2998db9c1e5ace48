import TypeStream.FileError
import TypeStream.Path
import TypeStream.Text.Vocabulary

/-! # Log settings

How much is logged, in which form, and where to.  `LogSettings.start` tells whether logging can be
started with the settings; it runs against the effects it is given, creating a directory and
whether logging has been started before. -/

namespace TypeStream

/-- How important a message is to be logged. -/
inductive LogLevel
  | error
  | warn
  | info
  | debug
  | trace
deriving DecidableEq, Repr

/-- The spellings of the levels. -/
def LogLevel.vocabulary : Text.Vocabulary LogLevel where
  noun := "log level"
  choices := "'error', 'warn', 'info', 'debug', or 'trace'"
  words :=
    [("error", error), ("err", error), ("warn", warn), ("warning", warn), ("info", info),
     ("debug", debug), ("dbg", debug), ("trace", trace)]

/-- The form of log messages. -/
inductive LogStyle
  | pretty
  | json
deriving DecidableEq, Repr

/-- The spellings of the forms. -/
def LogStyle.vocabulary : Text.Vocabulary LogStyle where
  noun := "log format"
  choices := "'pretty' or 'json'"
  words :=
    [("pretty", pretty), ("dev", pretty), ("development", pretty),
     ("json", json), ("prod", json), ("production", json)]

/-- Where messages go, and which. -/
structure LogSettings where
  /-- The level, if one was chosen. -/
  level : Option LogLevel := none
  /-- The form of the messages. -/
  style : LogStyle := .pretty
  /-- The file that messages are written to, if any. -/
  file : Option String := none
  /-- Whether messages go to the console. -/
  console : Bool := true
deriving DecidableEq, Repr

/-- Why logging cannot be started. -/
inductive LogError
  /-- The path of the log file does not end in a name. -/
  | invalidPath (path : String)
  /-- The directory of the log file cannot be created. -/
  | file (reason : FileError)
  /-- Logging has been started before. -/
  | alreadyStarted
deriving DecidableEq, Repr

/-- The report shown to the user. -/
def LogError.message : LogError → String
  | invalidPath path => "Invalid log file path: " ++ path
  | file reason => "File logging error: " ++ reason.message
  | alreadyStarted =>
    "Failed to initialize logging: a global default trace dispatcher has already been set"

namespace LogSettings

/-- The settings that two environment variables ask for.  A form that is no word is ignored, and
    so is an empty file name. -/
def ofEnvironment (style file : Option String) : LogSettings where
  style := (style.bind fun word => (LogStyle.vocabulary.parse word).toOption).getD .pretty
  file := file.filter (· ≠ "")

/-- Logs to the file of the day in a directory, and no more to the console. -/
def inDirectory (s : LogSettings) (today directory : String) : LogSettings :=
  { s with file := some (Path.join directory (today ++ "-codeview.log")), console := false }

/-- The directory that a log file is in. -/
def directoryOf (file : Path) : String :=
  match file.parent.text with
  | "" => "."
  | directory => directory

/-- Starts logging.  The directory of the log file is created before it is found that logging has
    been started already. -/
def start (s : LogSettings) (createDirectory : String → Except FileError Unit) (started : Bool) :
    Except LogError Unit := do
  if let some text := s.file then
    let path := Path.ofText text
    if path.fileName?.isNone then throw (.invalidPath text)
    (createDirectory (directoryOf path)).mapError .file
  if started then throw .alreadyStarted

end LogSettings

end TypeStream
