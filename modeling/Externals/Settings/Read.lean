import Externals.Settings.Basic
import Externals.Toml.Document

/-!
# `Externals.Settings.Read`: settings files

Settings are read from a TOML document. Every key may be left out and
keys that mean nothing are ignored, but a key that means something
must have a value of the right kind.
-/

set_option autoImplicit false

namespace Externals

open Toml (Value)

namespace Settings

/-- The value under a key. -/
def find? (entries : List (String × Value)) (key : String) : Option Value :=
  (entries.find? fun e => e.1 == key).map Prod.snd

/-- The text of a value that is one. -/
def string? : Value → Option String
  | .string s => some s
  | _ => none

/-- The text under a key, or a default if there is none. A value of
another kind is an error. -/
def text? (entries : List (String × Value)) (key default : String) : Option String :=
  match find? entries key with
  | some v => string? v
  | none => some default

/-- The rule for identifiers: its word, or a table that has its word
for the only key and nothing under it. -/
def idRule? : Value → Option IdRule
  | .string s => IdRule.ofWord? s
  | .table [(word, .table [])] => IdRule.ofWord? word
  | _ => none

/-- The arguments of a formatter. -/
def args? : Value → Option (List String)
  | .array items => items.mapM string?
  | _ => none

/-- A formatter: a table with its parts by name, or an array with its
parts in order. -/
def formatter? : Value → Option Formatter
  | .table entries => do
      let program ← find? entries "program" >>= string?
      let args ← match find? entries "args" with
        | some v => args? v
        | none => some []
      return ⟨program, args⟩
  | .array [program] => do return ⟨← string? program, []⟩
  | .array (program :: args :: _) => do return ⟨← string? program, ← args? args⟩
  | _ => none

/-- The conventions in a document. -/
def conventions? (entries : List (String × Value)) : Option Conventions := do
  let defaults : Conventions := {}
  let idRule ← match find? entries "id-heuristic" with
    | some v => idRule? v
    | none => some defaults.idRule
  return {
    rootPackage := ← text? entries "root-package" defaults.rootPackage
    extension := ← text? entries "extension" defaults.extension
    modulePrefix := ← text? entries "strip-module-prefix" defaults.modulePrefix
    promisePackage := ← text? entries "promise-package" defaults.promisePackage
    idRule := idRule }

/-- The settings in a text. -/
def ofText? (text : String) : Option Settings := do
  let entries ← Toml.parse? text
  let defaults : Settings := {}
  let mirrorDir ← match find? entries "mirror-dir" with
    | some v => (string? v).map some
    | none => some none
  let formatter ← match find? entries "formatter" with
    | some v => (formatter? v).map some
    | none => some none
  return {
    conventions := ← conventions? entries
    outDir := ← text? entries "out-dir" defaults.outDir
    mirrorDir := mirrorDir
    formatter := formatter }

end Settings

end Externals
