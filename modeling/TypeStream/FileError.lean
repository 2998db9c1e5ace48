/-! # What the file system refuses

Why a path does not lead to what is asked for, in the wording and with the numbers of the operating
system. -/

namespace TypeStream

/-- Why the file system refuses a path. -/
inductive FileError
  /-- A name on the way is in no directory. -/
  | missing
  /-- The path may not be followed, or the file not be read. -/
  | denied
  /-- There is something else already. -/
  | present
  /-- Something on the way is not a directory. -/
  | notDirectory
  /-- The path leads to a directory. -/
  | isDirectory
  /-- A name, or the whole path, is too long. -/
  | nameTooLong
  /-- The path holds a zero byte, with which no path can be handed over. -/
  | zeroByte
  /-- Any other reason, with its number. -/
  | other (reason : String) (number : UInt32)
deriving DecidableEq, Repr

namespace FileError

/-- The errors that have a number of their own. -/
def known : List (UInt32 × FileError) :=
  [(2, missing), (13, denied), (17, present), (20, notDirectory), (21, isDirectory),
   (36, nameTooLong)]

/-- The error that the operating system reports by a number and a text. -/
def ofNumber (number : UInt32) (reason : String) : FileError :=
  (known.lookup number).getD (other reason number)

/-- The report shown to the user. -/
def message : FileError → String
  | missing => "No such file or directory (os error 2)"
  | denied => "Permission denied (os error 13)"
  | present => "File exists (os error 17)"
  | notDirectory => "Not a directory (os error 20)"
  | isDirectory => "Is a directory (os error 21)"
  | nameTooLong => "File name too long (os error 36)"
  | zeroByte => "file name contained an unexpected NUL byte"
  | other reason number => reason ++ s!" (os error {number.toNat})"

end FileError

end TypeStream
