import Externals.Imports.Headers
import Externals.Scope.Basic
import Externals.Scope.Naming
import Externals.Settings.Basic

/-!
# `Externals.Scope.Index`: the scopes of a run and the names in them

All scopes of a run are numbered in the order of their registration.
Number 0 is the global scope, the root; every other scope has a
parent with a smaller number. A scope is told apart by the path of
the file it is generated into, so opening a module a second time,
under whatever spelling of its name, finds the same scope.

A name is looked up along the *chain* of a scope: the scope itself,
its parent, and so on to the root.

* `register` finds or makes the scope of a module.
* `packageOf` and `outputPath` name the generated file.
* `locate` resolves a name to the scope that declares it, through
  declarations and named imports, nearest scope first.
* `namespacePackage` resolves the namespace of a dotted name.
-/

set_option autoImplicit false

namespace Externals

/-- Where a name was found: the scope, and the name it has there. -/
structure Location where
  scope : Nat
  name : String
deriving DecidableEq, Inhabited

/-- The scopes of a run, by number and by output path. -/
structure SymbolIndex where
  conventions : Conventions
  scopes : List Scope
  byPath : Table String Nat
deriving Inhabited

/-- The output path of a file with the given package and stem. -/
def Conventions.pathOf (c : Conventions) (package stem : String) : String :=
  package.map (fun ch => if ch == '.' then '/' else ch) ++ "/" ++ stem ++ "." ++ c.extension

namespace SymbolIndex

/-- The number of the global scope. -/
def root : Nat := 0

/-- The number of scopes, and the number of the next one. -/
def size (ix : SymbolIndex) : Nat := ix.scopes.length

/-- The numbers of all scopes, in order. -/
def ids (ix : SymbolIndex) : List Nat := List.range ix.size

/-! ### The chain -/

/-- The parent of a scope, which always has a smaller number. -/
def parent? (ix : SymbolIndex) (id : Nat) : Option Nat :=
  (ix.scopes[id]?.bind Scope.parent).filter fun p => p < id

/-- A scope, its parent, and so on to the root. -/
def chain (ix : SymbolIndex) (id : Nat) : List Nat :=
  match _h : ix.parent? id with
  | some p => id :: chain ix p
  | none => [id]
termination_by id
decreasing_by
  have := (Option.filter_eq_some_iff.mp _h).2
  simpa using this

/-! ### Naming -/

/-- What a scope adds to the package of its parent. -/
def segmentOf (ix : SymbolIndex) (id : Nat) : String :=
  (ix.scopes[id]?.map Scope.segment).getD ""

/-- The package of a scope: the root package and the segments along
the chain, the root's first. -/
def packageOf (ix : SymbolIndex) (id : Nat) : String :=
  (ix.chain id).foldr (fun i package => joinPackage package (ix.segmentOf i))
    ix.conventions.rootPackage

/-- The relative path of the file a scope is generated into. -/
def outputPath (ix : SymbolIndex) (id : Nat) : String :=
  ix.conventions.pathOf (ix.packageOf id) ((ix.scopes[id]?.map Scope.stem).getD "")

/-- The module name in effect for a scope: its own, or that of the
nearest scope on its chain that has one. -/
def jsModuleOf (ix : SymbolIndex) (id : Nat) : Option String :=
  (ix.chain id).findSome? fun i => ix.scopes[i]?.bind Scope.jsModule

/-- The scopes generated into a package. -/
def scopesIn (ix : SymbolIndex) (package : String) : List Nat :=
  ix.ids.filter fun id => ix.packageOf id == package

/-! ### Growth -/

/-- The index that holds only the global scope, and the header of
that scope. -/
def initial (c : Conventions) (h : Headers) : SymbolIndex × Headers :=
  let (h, header) := h.addRoot "global"
  let scope : Scope :=
    { rawName := "global", kind := .global, stem := "global", segment := "", parent := none,
      jsModule := none, header := header }
  (⟨c, [scope], Table.empty.insert (c.pathOf c.rootPackage "global") root⟩, h)

/-- The segment, the stem and the path a module has under a parent. A
namespace inside a module or a namespace adds no segment. -/
def placeOf (ix : SymbolIndex) (name : String) (kind : ModuleKind) (parent : Nat) :
    String × String × String :=
  let front := ix.conventions.modulePrefix
  let segment :=
    if kind == .namespaced && parent != root then "" else packageSegment kind name front
  let stem := fileStem kind name front
  (segment, stem, ix.conventions.pathOf (joinPackage (ix.packageOf parent) segment) stem)

/-- The scope of a module, made if its path is new. A global block is
the root. -/
def register (ix : SymbolIndex) (h : Headers) (name : String) (kind : ModuleKind)
    (parent : Option Nat) : SymbolIndex × Headers × Nat :=
  if kind == .global then (ix, h, root)
  else
    let parent := parent.getD root
    let (segment, stem, path) := ix.placeOf name kind parent
    match ix.byPath.get? path with
    | some id => (ix, h, id)
    | none =>
        let (h, header) := h.addRoot path
        let scope : Scope :=
          { rawName := name, kind := kind, stem := stem, segment := segment, parent := some parent,
            jsModule := if kind == .ambient then some name else none, header := header }
        let id := ix.size
        ({ ix with scopes := ix.scopes ++ [scope], byPath := ix.byPath.insert path id }, h, id)

/-- Change one scope. -/
def modifyScope (ix : SymbolIndex) (id : Nat) (f : Scope → Scope) : SymbolIndex :=
  { ix with scopes := ix.scopes.modify id f }

/-- File a declaration; a declaration under the same key is replaced. -/
def declare (ix : SymbolIndex) (id : Nat) (key : DeclKey) (decl : Declaration) : SymbolIndex :=
  ix.modifyScope id fun s => { s with declarations := s.declarations.insert key decl }

/-- Note what a local name was imported as. -/
def addImport (ix : SymbolIndex) (id : Nat) (localName : String) (imp : ScopeImport) :
    SymbolIndex :=
  ix.modifyScope id fun s => { s with imports := s.imports.insert localName imp }

/-- Keep the artifact emitted for a key. -/
def storeArtifact (ix : SymbolIndex) (id : Nat) (key : DeclKey) (a : Artifact) : SymbolIndex :=
  ix.modifyScope id fun s => { s with artifacts := s.artifacts.insert key a }

/-! ### Resolution -/

/-- A scope declares a name itself. -/
def declaresAt (ix : SymbolIndex) (id : Nat) (name : String) : Bool :=
  (ix.scopes[id]?.map fun s => s.declares name).getD false

/-- What a scope itself imported a local name as. -/
def importAt (ix : SymbolIndex) (id : Nat) (name : String) : Option ScopeImport :=
  ix.scopes[id]?.bind fun s => s.imports.get? name

/-- Some scope of the chain declares or imports the name. -/
def hasName (ix : SymbolIndex) (id : Nat) (name : String) : Bool :=
  (ix.chain id).any fun i => ix.declaresAt i name || (ix.importAt i name).isSome

/-- The nearest scope of the chain that declares the name. -/
def declaringScope (ix : SymbolIndex) (id : Nat) (name : String) : Option Nat :=
  (ix.chain id).find? fun i => ix.declaresAt i name

/-- The scope of an ambient module, by the name it is imported under. -/
def resolveModule (ix : SymbolIndex) (name : String) : Option Nat :=
  ix.byPath.get? (ix.placeOf name .ambient root).2.2

/-- What a single scope says about a name: its own declaration, or
what its named import leads to. -/
def locateAt (ix : SymbolIndex) (name : String) (id : Nat) : Option Location :=
  if ix.declaresAt id name then some ⟨id, name⟩
  else
    match ix.importAt id name with
    | some (.named source imported) =>
        match ix.resolveModule source with
        | some target => if ix.declaresAt target imported then some ⟨target, imported⟩ else none
        | none => none
    | _ => none

/-- The location of a name seen from a scope, nearest scope first. -/
def locate (ix : SymbolIndex) (id : Nat) (name : String) : Option Location :=
  (ix.chain id).findSome? (ix.locateAt name)

/-- The module a scope imported as a whole under a name. -/
def wholeImportAt (ix : SymbolIndex) (space : String) (id : Nat) : Option Nat :=
  match ix.importAt id space with
  | some (.whole source) => ix.resolveModule source
  | _ => none

/-- The first registered namespace of a name. -/
def namespace? (ix : SymbolIndex) (space : String) : Option Nat :=
  ix.scopes.findIdx? fun s => s.kind == .namespaced && s.rawName == space

/-- The package the names of a namespace are imported from: that of
the module imported under the name, else that of a namespace of the
name, else the one a namespace at the root would have. -/
def namespacePackage (ix : SymbolIndex) (id : Nat) (space : String) : String :=
  match (ix.chain id).findSome? (ix.wholeImportAt space) with
  | some target => ix.packageOf target
  | none =>
      match ix.namespace? space with
      | some i => ix.packageOf i
      | none =>
          joinPackage ix.conventions.rootPackage (packageSegment .namespaced space "")

end SymbolIndex

end Externals
