import Externals.Text.Split

/-!
# `Externals.Files.Basic`: paths and what can go wrong with files

Paths are texts with `/` between their parts. An empty part and the
part `.` stand for nothing, except that a path ending in one of them
can only name a directory.
-/

set_option autoImplicit false

namespace Externals

/-- Why an operation on files failed. -/
inductive FileError where
  | notFound
  | denied
  | occupied
  | notDirectory
  | isDirectory
  /-- The content of a file is no text. -/
  | notText
  /-- What is to be copied is no file. -/
  | notFile
  /-- Programs cannot be started. -/
  | notStarted
deriving DecidableEq, Inhabited

namespace FileError

/-- The text of an error, as the operating system gives it. -/
def message : FileError → String
  | notFound => "No such file or directory (os error 2)"
  | denied => "Permission denied (os error 13)"
  | occupied => "File exists (os error 17)"
  | notDirectory => "Not a directory (os error 20)"
  | isDirectory => "Is a directory (os error 21)"
  | notText => "stream did not contain valid UTF-8"
  | notFile => "the source path is neither a regular file nor a symlink to a regular file"
  | notStarted => "Operation not permitted (os error 1)"

end FileError

/-- A path seen from a directory. An absolute path stays as it is, and
an empty directory adds nothing. -/
def joinPath (directory path : String) : String :=
  if path.toList.head? == some '/' then path
  else if directory.isEmpty || directory.toList.getLast? == some '/' then directory ++ path
  else directory ++ "/" ++ path

/-- A path taken apart. -/
structure PathName where
  /-- It starts at the root. -/
  absolute : Bool
  /-- The parts that stand for something. -/
  parts : List String
  /-- It ends in a part that stands for nothing. -/
  slash : Bool
deriving DecidableEq, Inhabited

namespace PathName

/-- A path as it is written. Empty pieces and single dots lead nowhere
and are left out; two dots are kept. -/
def ofString (path : String) : PathName :=
  let pieces := (Text.splitOn '/' path.toList).map String.ofList
  let isVoid := fun piece => piece == "" || piece == "."
  { absolute := path.toList.head? == some '/'
    parts := pieces.filter fun piece => !isVoid piece
    slash := (pieces.getLast?.map isVoid).getD true }

/-- The path of the directory that holds what a path names. -/
def parent (p : PathName) : PathName := { p with parts := p.parts.dropLast, slash := false }

end PathName

end Externals
