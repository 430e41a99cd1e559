import Externals.Files.Basic
import Externals.Files.Glob
import Externals.Log.Event
import Externals.Settings.Read
import Externals.Source.File

/-!
# `Externals.Files.Host`: what a run needs from its surroundings

A run reads files, lists directories, writes and copies files, and
has a formatter look at them. `Host` gathers these abilities for any
monad, so that the same run works on a disk and on a volume in
memory, and so that what is said about runs holds for every way the
surroundings may behave.
-/

set_option autoImplicit false

namespace Externals

/-- The surroundings of a run. -/
structure Host (m : Type → Type) where
  /-- The text of a file. -/
  read : String → m (Except FileError String)
  /-- Write a file, making the directories it stands in. -/
  write : String → String → m (Except FileError Unit)
  /-- Copy a file, making the directories the copy stands in. -/
  copy : String → String → m (Except FileError Unit)
  /-- Have a formatter change a file in place. A failure says why. -/
  format : Formatter → String → m (Except String Unit)
  isDir : String → m Bool
  isFile : String → m Bool
  /-- The names in a directory, in any order. -/
  names : String → m (List String)

/-- Why settings could not be loaded. -/
inductive SettingsError where
  | read (path : String) (cause : FileError)
  | invalid (path : String)
deriving DecidableEq, Inhabited

/-- The message of an error. What is wrong with an invalid document is
not part of it. -/
def SettingsError.message : SettingsError → String
  | read path cause => "Failed to read config " ++ path ++ ": " ++ cause.message
  | invalid path => "Invalid config " ++ path

/-- The message for a source that cannot be read. -/
def readFailure (cause : FileError) : String := "Failed to read file: " ++ cause.message

namespace Host

variable {m : Type → Type} [Monad m]

/-- The settings in a file. -/
def loadSettings (h : Host m) (path : String) : m (Except SettingsError Settings) := do
  match ← h.read path with
  | .error cause => return .error (.read path cause)
  | .ok text =>
      match Settings.ofText? text with
      | some settings => return .ok settings
      | none => return .error (.invalid path)

/-- The model of a file, with the events of reading it. -/
def readSource (h : Host m) (path : String) : m (Except String (SourceFile × List Event)) := do
  match ← h.read path with
  | .error cause => return .error (readFailure cause)
  | .ok text => return .ok (SourceFile.ofText path text)

/-! ### Patterns -/

/-- A name below a path; the working directory itself is left out. -/
def below (path name : String) : String := if path == "." then name else joinPath path name

/-- Names in their order. -/
def sorted (names : List String) : List String := names.mergeSort fun a b => !decide (b < a)

/-- Apply an action to each element, and join what it finds. -/
def gather {α : Type} (f : α → m (List String)) : List α → m (List String)
  | [] => return []
  | a :: as => do
      let found ← f a
      let more ← gather f as
      return found ++ more

/-- A path found by a pattern, unless the pattern asks for directories
and it is none. -/
def accept (h : Host m) (directories : Bool) (path : String) : m (List String) := do
  if directories then return if ← h.isDir path then [path] else []
  else return [path]

/-- A name exists: as a file or as a directory. -/
def present (h : Host m) (path : String) : m Bool := do
  if ← h.isFile path then return true else h.isDir path

mutual

/-- What parts of a pattern find below a path. A part without
wildcards needs no listing. The parts `.` and `..` are found only by
parts that start with a dot. -/
def search (h : Host m) (directories : Bool) (parts : List Glob.Part) (path : String) :
    Nat → m (List String)
  | 0 => return []
  | fuel + 1 => do
      match parts with
      | [] => return []
      | part :: rest =>
          let go := fun next => do
            if rest.isEmpty then accept h directories next
            else search h directories rest next fuel
          match Glob.literal? part with
          | some name =>
              let next := below path name
              let found ← if name == "." || name == ".." then h.isDir path else h.present next
              if found then go next else return []
          | none =>
              if ← h.isDir path then
                let dots := if part.head? == some (.char '.') then ["..", "."] else []
                let special ← gather (fun name => go (joinPath path name))
                  (dots.filter fun name => Glob.accepts part name.toList)
                let inner ← gather
                  (fun name => visit h directories part rest (below path name) name fuel)
                  (sorted (← h.names path))
                return special ++ inner
              else return []

/-- What parts of a pattern find at and below one entry of a
directory. -/
def visit (h : Host m) (directories : Bool) (part : Glob.Part) (rest : List Glob.Part)
    (path name : String) : Nat → m (List String)
  | 0 => return []
  | fuel + 1 => do
      if Glob.isRecursive part then
        let rest := rest.dropWhile Glob.isRecursive
        let isDir ← h.isDir path
        let here ← match rest with
          | [] => pure (if isDir then [path] else [])
          | next :: rest => meet h directories next rest path name fuel
        let inner ← if isDir then search h directories (part :: rest) path fuel else pure []
        return here ++ inner
      else meet h directories part rest path name fuel

/-- What a part finds at one entry of a directory, and the parts after
it below. -/
def meet (h : Host m) (directories : Bool) (part : Glob.Part) (rest : List Glob.Part)
    (path name : String) : Nat → m (List String)
  | 0 => return []
  | fuel + 1 => do
      if Glob.accepts part name.toList then
        if rest.isEmpty then accept h directories path
        else search h directories rest path fuel
      else return []

end

/-- How deep directories are searched. -/
def searchDepth : Nat := 2000

/-- The files a pattern finds, in order. -/
def filesOf (h : Host m) (g : Glob) : m (List String) := do
  let found ← search h g.directories g.parts (if g.absolute then "/" else ".") searchDepth
  gather (fun path => do return if ← h.isFile path then [path] else []) found

/-- The paths that arguments stand for: files for patterns, and all
other arguments as they are. A pattern that is refused is reported. -/
def expand (h : Host m) : List String → m (List String × List Event)
  | [] => return ([], [])
  | text :: texts => do
      let pattern? := if Glob.isPattern text then some (Glob.ofString text) else none
      let (found, events) ← match pattern? with
        | none => pure ([text], [])
        | some (.ok g) => do
            let files ← h.filesOf g
            pure (files, [])
        | some (.error e) => pure ([], [Event.invalidPattern text e.message])
      let (more, later) ← h.expand texts
      return (found ++ more, events ++ later)

end Host

end Externals
