/-!
# `Externals.Settings.Basic`: what a run can be told

`Conventions` are the settings that the names and types of the
generated code depend on. `Settings` adds where the files go and
which formatter sees them. Every setting has a default.
-/

set_option autoImplicit false

namespace Externals

/-- When a number is an identifier, judged by the name it is bound
to: `positional` asks for an `Id` after the first character,
`contains` for an `Id` anywhere. -/
inductive IdRule where
  | positional
  | contains
deriving DecidableEq, Inhabited

namespace IdRule

/-- The text `Id` occurs in the name. -/
def occurs : List Char → Bool
  | [] => false
  | c :: cs => (c == 'I' && cs.head? == some 'd') || occurs cs

/-- Whether a number bound to a name is an identifier. For
`positional` it is the first `Id` that must not stand at the start. -/
def holds (rule : IdRule) (name : String) : Bool :=
  match rule with
  | positional => occurs name.toList && !"Id".toList.isPrefixOf name.toList
  | contains => occurs name.toList

/-- The word for a rule in a settings file. -/
def word : IdRule → String
  | positional => "positional"
  | contains => "contains"

/-- The rule a word stands for, as written. -/
def ofWord? (s : String) : Option IdRule :=
  [positional, contains].find? fun rule => rule.word == s

/-- The rule a word stands for in any case. The two words are ASCII,
and no other character has an ASCII letter for its lower case, except
the Kelvin sign, whose letter occurs in neither. -/
def ofWordAnyCase? (s : String) : Option IdRule :=
  ofWord? (String.ofList (s.toList.map Char.toLower))

end IdRule

/-- The settings that names and types depend on. -/
structure Conventions where
  /-- The package every generated scope lives under. -/
  rootPackage : String := "org.node"
  /-- The extension of generated files, without the dot. -/
  extension : String := "kt"
  /-- What ambient module names lose at their front. -/
  modulePrefix : String := "node:"
  /-- The package `Promise` is imported from. -/
  promisePackage : String := "kotlin.js"
  idRule : IdRule := .positional
deriving DecidableEq, Inhabited

/-- A program that tidies a file in place, with the arguments that
come before the file's path. -/
structure Formatter where
  program : String
  args : List String := []
deriving DecidableEq, Inhabited

/-- All settings of a run. -/
structure Settings where
  conventions : Conventions := {}
  /-- The directory generated files are written under. -/
  outDir : String := "generated"
  /-- A second directory every finished file is copied to. -/
  mirrorDir : Option String := none
  formatter : Option Formatter := none
deriving DecidableEq, Inhabited

end Externals
