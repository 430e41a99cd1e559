import Externals.Data.Table

/-!
# `Externals.Imports.Headers`: the imports of generated files

Every generated file has a *header*, the set of its import lines.
The header of a file is a tree: each declaration that is emitted into
the file collects its imports in a child of its own, so that emitting
it again refills the same child.

All headers of a run live in one arena and are named by number. A
child is numbered after its parent, and the labels of siblings
differ.

* `subtree` lists a header and its descendants in preorder.
* `lookup` finds the first line of a key along the subtree.
* `flatten` merges the subtree, the last line of a key winning, and
  sorts by the rendered line.
-/

set_option autoImplicit false

namespace Externals

/-- One import: a name from a package, perhaps under another name. -/
structure ImportLine where
  package : String
  name : String
  rename : Option String := none
deriving DecidableEq, Inhabited

namespace ImportLine

/-- The name the import makes visible. -/
def key (line : ImportLine) : String := line.rename.getD line.name

/-- A line as it is written in a file. -/
def render (line : ImportLine) : String :=
  match line.rename with
  | some rename => "import " ++ line.package ++ "." ++ line.name ++ " as " ++ rename
  | none => "import " ++ line.package ++ "." ++ line.name

end ImportLine

/-- One header: its own import lines by key, and the numbers of its
children. -/
structure Header where
  label : String
  imports : Table String ImportLine := .empty
  children : List Nat := []
deriving Inhabited

/-- All headers of a run, by number. -/
structure Headers where
  headers : List Header := []
deriving Inhabited

namespace Headers

/-- The number of headers, and the number of the next one. -/
def size (h : Headers) : Nat := h.headers.length

/-- The label of a header. -/
def label? (h : Headers) (id : Nat) : Option String := h.headers[id]?.map Header.label

/-- The import lines of a header itself. -/
def importsOf (h : Headers) (id : Nat) : Table String ImportLine :=
  (h.headers[id]?.map Header.imports).getD .empty

/-- The children of a header, in the order they were made. Children
have greater numbers than their parent. -/
def childrenOf (h : Headers) (id : Nat) : List Nat :=
  ((h.headers[id]?.map Header.children).getD []).filter fun c => id < c && c < h.size

/-- A new header without parent. -/
def addRoot (h : Headers) (label : String) : Headers × Nat :=
  (⟨h.headers ++ [⟨label, .empty, []⟩]⟩, h.size)

/-- The child of a header with a label, made if there is none. -/
def child (h : Headers) (parent : Nat) (label : String) : Headers × Nat :=
  match (h.childrenOf parent).find? fun c => h.label? c == some label with
  | some c => (h, c)
  | none =>
      let (h', c) := h.addRoot label
      (⟨h'.headers.modify parent fun p => { p with children := p.children ++ [c] }⟩, c)

/-- Record an import line under its key; the last line wins. -/
def addImport (h : Headers) (id : Nat) (line : ImportLine) : Headers :=
  ⟨h.headers.modify id fun p => { p with imports := p.imports.insert line.key line }⟩

/-- Record import lines one after the other. -/
def addImports (h : Headers) (id : Nat) (lines : List ImportLine) : Headers :=
  lines.foldl (fun h line => h.addImport id line) h

/-- A header and all its descendants, parents before their children
and children in order. -/
def subtree (h : Headers) (id : Nat) : List Nat :=
  id :: (h.childrenOf id).attach.flatMap fun ⟨c, _hc⟩ => subtree h c
termination_by h.size - id
decreasing_by
  simp only [childrenOf, List.mem_filter, Bool.and_eq_true, decide_eq_true_eq] at _hc
  omega

/-- The import line of a key in a header or its descendants. -/
def lookup (h : Headers) (id : Nat) (key : String) : Option ImportLine :=
  (h.subtree id).findSome? fun c => (h.importsOf c).get? key

/-- Whether a header or one of its descendants makes a name visible. -/
def hasName (h : Headers) (id : Nat) (key : String) : Bool := (h.lookup id key).isSome

/-- The lines of a header and its descendants, one for each key. -/
def merged (h : Headers) (id : Nat) : Table String ImportLine :=
  (h.subtree id).foldl (fun t c => t.insertAll (h.importsOf c).entries) .empty

/-- The merged lines in the order of their text. -/
def flatten (h : Headers) (id : Nat) : List ImportLine :=
  (h.merged id).values.mergeSort fun a b => !decide (b.render < a.render)

/-- The import section, one line for each import. -/
def render (h : Headers) (id : Nat) : String :=
  "\n".intercalate ((h.flatten id).map ImportLine.render)

end Headers

end Externals
