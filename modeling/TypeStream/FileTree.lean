import TypeStream.FileError
import TypeStream.Path

/-! # File trees

What a file system holds, as a value, and where a path leads in it.  The program takes what it
needs of a file system as arguments, so it can be run on a tree as well as on the files of the
machine.

A path is followed part by part.  Each part is looked for in a directory, so it fails where a file
stands instead; a name must also be short enough, and be there.  The text of the path is checked
before anything is looked for. -/

namespace TypeStream

/-- A file or a directory. -/
inductive FileTree
  | file (bytes : List UInt8)
  | directory (entries : List (String × FileTree))

namespace FileTree

/-- How many bytes a name may have. -/
def maxName : Nat := 255

/-- How many bytes a path may have. -/
def maxPath : Nat := 4095

/-- A place in a tree. -/
structure Place where
  /-- What stands there. -/
  tree : FileTree
  /-- The directories around it, the innermost first. -/
  around : List FileTree

/-- Follows one part of a path.  If `create`, a name that is missing is taken for that of a new
    directory.  The root is the directory around itself. -/
def Place.step (create : Bool) (place : Place) (part : String) : Except FileError Place :=
  match place.tree with
  | .file _ => .error .notDirectory
  | .directory entries =>
    let inside (tree : FileTree) : Place := ⟨tree, place.tree :: place.around⟩
    if part = "." then .ok place
    else if part = ".." then
      match place.around with
      | [] => .ok place
      | outer :: rest => .ok ⟨outer, rest⟩
    else if maxName < part.utf8ByteSize then .error .nameTooLong
    else
      match entries.lookup part with
      | some tree => .ok (inside tree)
      | none => if create then .ok (inside (.directory [])) else .error .missing

/-- Checks the text of a path. -/
def checkText (path : String) : Except FileError Unit :=
  if path.contains '\x00' then .error .zeroByte
  else if path = "" then .error .missing
  else if maxPath < path.utf8ByteSize then .error .nameTooLong
  else .ok ()

end FileTree

/-- A file system. -/
structure FileSystem where
  root : FileTree
  /-- The names that lead from the root to where relative paths start. -/
  workingDirectory : List String

namespace FileSystem

/-- The place that a path leads to, where missing directories may be created. -/
def locate (s : FileSystem) (create : Bool) (path : String) : Except FileError FileTree.Place := do
  FileTree.checkText path
  let p := Path.ofText path
  let steps := if p.absolute then p.steps else s.workingDirectory ++ p.steps
  steps.foldlM (FileTree.Place.step create) ⟨s.root, []⟩

/-- The bytes of the file that a path leads to. -/
def read (s : FileSystem) (path : String) : Except FileError (List UInt8) := do
  match (← s.locate false path).tree with
  | .file bytes => return bytes
  | .directory _ => throw .isDirectory

/-- Whether the directory that a path leads to is there or can be created. -/
def makeDirectory (s : FileSystem) (path : String) : Except FileError Unit := do
  match (← s.locate true path).tree with
  | .file _ => throw .present
  | .directory _ => return ()

end FileSystem

end TypeStream
