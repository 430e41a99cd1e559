import Externals.Mapping.KotlinType
import Externals.Text.Split

/-!
# `Externals.Emit.Artifact`: emitted declarations

A declaration is emitted in parts and put together only when its file
is rendered. Until then the members of an interface can still be
spliced into the class of the same name: the interface then renders
to nothing, and the class lists its own members followed by those it
does not have yet.

Names that are hard keywords of Kotlin are written in backquotes.
-/

set_option autoImplicit false

namespace Externals

open Text

/-- The hard keywords of Kotlin. -/
def kotlinKeywords : List String :=
  ["as", "break", "class", "continue", "do", "else", "false", "for", "fun", "if", "in",
   "interface", "is", "null", "object", "package", "return", "super", "this", "throw", "true",
   "try", "typealias", "typeof", "val", "var", "when", "while"]

/-- A name as Kotlin takes it. -/
def kotlinName (name : String) : String :=
  if kotlinKeywords.contains name then "`" ++ name ++ "`" else name

/-! ### Layout -/

/-- Every line that is not empty moved to the right. -/
def indent (width : Nat) (s : String) : String :=
  "\n".intercalate <| (lines s.toList).map fun line =>
    String.ofList (if line.isEmpty then [] else List.replicate width ' ' ++ line)

/-- Entries two columns in, with a blank line between neighbours. -/
def layEntries (entries : List String) : String :=
  "\n\n".intercalate (entries.map (indent 2))

/-- A body in braces. -/
def block (entries : List String) : String :=
  if entries.isEmpty then "\x7b\x7d" else "\x7b\n" ++ layEntries entries ++ "\n\x7d"

/-! ### Artifacts -/

/-- The signatures of all overloads of one function. -/
structure FunctionArtifact where
  name : String
  signatures : List String
deriving DecidableEq, Inhabited

/-- A class: the parameters of its primary constructor, those of the
others, its base, its static and its instance members. `fused` lists
the instance members once an interface was spliced in. -/
structure ClassArtifact where
  name : String
  primary : String
  secondary : List String
  base : Option String
  statics : List String
  members : List String
  fused : Option (List String) := none
deriving DecidableEq, Inhabited

/-- An interface with the types it extends. When a class of the same
name stands in the scope, its members are rendered there. -/
structure InterfaceArtifact where
  name : String
  bases : List KotlinType
  members : List String
  fusedIntoClass : Bool
deriving DecidableEq, Inhabited

/-- What is emitted for a declaration. It is kept in the scope until all
files are rendered, since fusion may still add to it. -/
inductive Artifact where
  | function (a : FunctionArtifact)
  | classType (a : ClassArtifact)
  | interfaceType (a : InterfaceArtifact)
deriving DecidableEq, Inhabited

/-- The signatures of a function, with blank lines between them. -/
def FunctionArtifact.render (a : FunctionArtifact) : String := "\n\n".intercalate a.signatures

namespace ClassArtifact

/-- The instance members, those of a spliced interface included. -/
def instanceMembers (a : ClassArtifact) : List String := a.fused.getD a.members

/-- Append each member that is not there yet. -/
def addMissing (members : List String) : List String → List String
  | [] => members
  | extra :: extras =>
      addMissing (if members.contains extra then members else members ++ [extra]) extras

/-- Splice members in after the class's own. -/
def fuse (a : ClassArtifact) (extras : List String) : ClassArtifact :=
  { a with fused := some (addMissing a.members extras) }

/-- What stands in the body: the companion with the static members,
the further constructors, the instance members. -/
def entries (a : ClassArtifact) : List String :=
  (if a.statics.isEmpty then [] else ["companion object " ++ block a.statics])
    ++ a.secondary.map (fun params => "constructor(" ++ params ++ ")")
    ++ a.instanceMembers

/-- The text of a class: its heading, and its members in braces. -/
def render (a : ClassArtifact) : String :=
  let head := "open external class " ++ a.name ++ "(" ++ a.primary ++ ")"
  let head := match a.base with
    | some base => head ++ " : " ++ base
    | none => head
  head ++ " " ++ block a.entries

end ClassArtifact

namespace InterfaceArtifact

/-- The text of an interface, or nothing when a class renders it. -/
def render? (a : InterfaceArtifact) : Option String :=
  if a.fusedIntoClass then none
  else
    let head := "external interface " ++ a.name
    let head :=
      if a.bases.isEmpty then head
      else head ++ " : " ++ ", ".intercalate (a.bases.map KotlinType.render)
    some (head ++ " " ++ block a.members)

end InterfaceArtifact

/-- The text of an artifact, if it renders at all. -/
def Artifact.render? : Artifact → Option String
  | function a => some a.render
  | classType a => some a.render
  | interfaceType a => a.render?

end Externals
