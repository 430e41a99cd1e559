import Externals.Declaration.Basic
import Externals.Text.Split

/-!
# `Externals.Scope.Naming`: packages and file names of modules

A module contributes segments to the package of its file and gives
the file its stem. Ambient modules first lose a configured front such
as `node:`, and each part between slashes becomes one segment, so
`node:fs/promises` lands in `fs.promises`. A namespace contributes
its own name.

Segments are made safe: ASCII letters in lower case, digits and
underscores stay, everything else becomes an underscore, and a
segment never begins with a digit.
-/

set_option autoImplicit false

namespace Externals

open Text

/-- A package and a further segment, with a dot only where both have
text. -/
def joinPackage (parent segment : String) : String :=
  if segment.isEmpty then parent
  else if parent.isEmpty then segment
  else parent ++ "." ++ segment

/-- A character that can stand in a package: letters in lower case,
digits and underscores, and an underscore for everything else. -/
def safeSegmentChar (c : Char) : Char :=
  if c.isAlphanum || c == '_' then c.toLower else '_'

/-- A name made safe for a package. -/
def safeSegment (cs : List Char) : List Char :=
  let safe := cs.map safeSegmentChar
  if (safe.head?.map Char.isDigit).getD false then '_' :: safe else safe

/-- The parts of a module name between slashes that have text. -/
def nameParts (cs : List Char) : List (List Char) := (splitOn '/' cs).filter fun p => !p.isEmpty

/-- What a module adds to the package of its parent. -/
def packageSegment (kind : ModuleKind) (name front : String) : String :=
  match kind with
  | .global => ""
  | .ambient =>
      String.ofList (['.'].intercalate
        ((nameParts (dropFront front.toList name.toList)).map safeSegment))
  | .namespaced => String.ofList (safeSegment name.toList)

/-- Joined at underscores, hyphens and dots, each letter after one in
upper case. `started` says that a character was written before,
`upper` that the next one goes in upper case. -/
def camelFrom (started upper : Bool) : List Char → List Char
  | [] => []
  | c :: cs =>
      if c == '_' || c == '-' || c == '.' then camelFrom started started cs
      else (if upper then c.toUpper else c) :: camelFrom true false cs

/-- A name in camel case. -/
def camelCase (cs : List Char) : List Char := camelFrom false false cs

/-- The stem of a module's file: the last part of an ambient name in
camel case, the name of a namespace as it is. -/
def fileStem (kind : ModuleKind) (name front : String) : String :=
  match kind with
  | .global => "global"
  | .namespaced => name
  | .ambient =>
      let stripped := dropFront front.toList name.toList
      String.ofList (camelCase ((nameParts stripped).getLast?.getD stripped))

end Externals
