import Externals.Text.Blank

/-!
# `Externals.Mapping.KotlinType`: the Kotlin type of a position

A type position becomes a Kotlin type and, where that type says less
than the source did, a comment with the text of the source type. The
comment stands in one block comment on one line: blanks are collapsed
and every comment terminator inside is broken up.
-/

set_option autoImplicit false

namespace Externals

open Text

/-- A Kotlin type: its base, whether `null` is allowed, and the
source text it stands for when the base does not say it. -/
structure KotlinType where
  base : String
  nullable : Bool := false
  comment : Option String := none
deriving DecidableEq, Inhabited

/-- Break up every comment terminator by a backslash. -/
def breakTerminators : List Char → List Char
  | '*' :: '/' :: cs => '*' :: '\\' :: '/' :: breakTerminators cs
  | c :: cs => c :: breakTerminators cs
  | [] => []

/-- A text as the content of a block comment. -/
def commentText (s : String) : String := String.ofList (breakTerminators (collapse s.toList))

namespace KotlinType

/-- The type without its comment. -/
def bare (t : KotlinType) : String := if t.nullable then t.base ++ "?" else t.base

/-- The type, followed by its comment. -/
def render (t : KotlinType) : String :=
  match t.comment with
  | some comment => t.bare ++ " /* " ++ comment ++ " */"
  | none => t.bare

end KotlinType

end Externals
