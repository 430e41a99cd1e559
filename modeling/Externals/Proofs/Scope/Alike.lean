import Externals.Emit.Declaration

/-!
# `Externals.Proofs.Scope.Alike`: what looking names up depends on

Names are looked up through the tree of scopes, their imports and the
keys they declare. Nothing else of an index matters: neither the
bodies of declarations nor the artifacts emitted from them. Two
indexes that agree in this sense are *alike*, and everything that is
drafted at one is drafted at the other: the same text, the same
imports in the same order, the same events.

* `SymbolIndex.SameOutline`: the same tree of scopes, whatever they hold
  and whatever their headers are.
* `SymbolIndex.Alike` and its lemmas: one for each question an index
  answers.
* `Viewpoint.Alike.draftDeclaration`, `Viewpoint.Alike.draftMembers`:
  drafts agree.
-/

set_option autoImplicit false

namespace Externals

/-! ### The chain -/

namespace SymbolIndex

/-- The chain of a scope with a parent goes on with the chain of the
parent. -/
theorem chain_of_parent? {ix : SymbolIndex} {id parent : Nat} (h : ix.parent? id = some parent) :
    ix.chain id = id :: ix.chain parent := by
  rw [chain]
  split
  · rename_i p hp
    rw [h] at hp
    cases hp
    rfl
  · rename_i hp
    rw [h] at hp
    cases hp

/-- The chain of a scope without a parent is that scope alone. It is
where every induction along chains ends. -/
theorem chain_of_root {ix : SymbolIndex} {id : Nat} (h : ix.parent? id = none) :
    ix.chain id = [id] := by
  rw [chain]
  split
  · rename_i p hp
    rw [h] at hp
    cases hp
  · rfl

/-- A parent is older than its child. The tree is a list in which every
scope points to an earlier one, and chains end for this reason. -/
theorem parent?_lt {ix : SymbolIndex} {id parent : Nat} (h : ix.parent? id = some parent) :
    parent < id := by
  have := (Option.filter_eq_some_iff.mp h).2
  simpa using this

/-- The chain of a scope is fixed by the parents of the scopes up to it.
Scopes that come later cannot be on it, so an index may grow without
changing a chain. -/
theorem chain_congr {a b : SymbolIndex} (id : Nat) (h : ∀ i ≤ id, a.parent? i = b.parent? i) :
    a.chain id = b.chain id := by
  -- A parent has the smaller number, so the chain is a recursion on numbers.
  induction id using Nat.strongRecOn with
  | ind id ih =>
      cases hp : a.parent? id with
      | none =>
          rw [chain_of_root hp, chain_of_root ((h id (Nat.le_refl _)).symm.trans hp)]
      | some parent =>
          have hlt := parent?_lt hp
          rw [chain_of_parent? hp, chain_of_parent? ((h id (Nat.le_refl _)).symm.trans hp),
            ih parent hlt fun i hi => h i (Nat.le_trans hi (Nat.le_of_lt hlt))]

/-- Nothing on the chain of a scope is younger than the scope, since a
parent is registered before its children. -/
theorem le_of_mem_chain {ix : SymbolIndex} {id i : Nat} (h : i ∈ ix.chain id) : i ≤ id := by
  -- Going up, the numbers get smaller.
  induction id using Nat.strongRecOn with
  | ind id ih =>
      cases hp : ix.parent? id with
      | none =>
          rw [chain_of_root hp, List.mem_singleton] at h
          exact Nat.le_of_eq h
      | some parent =>
          rw [chain_of_parent? hp, List.mem_cons] at h
          rcases h with rfl | hmem
          · exact Nat.le_refl _
          · exact Nat.le_trans (ih parent (parent?_lt hp) hmem) (Nat.le_of_lt (parent?_lt hp))

/-- The package of a scope is fixed by the parents and segments of the
scopes up to it, since it is joined from the segments along its chain. -/
theorem packageOf_congr {a b : SymbolIndex} (hc : a.conventions = b.conventions) (id : Nat)
    (hp : ∀ i ≤ id, a.parent? i = b.parent? i) (hs : ∀ i ≤ id, a.segmentOf i = b.segmentOf i) :
    a.packageOf id = b.packageOf id := by
  -- Stated for any list of scopes up to the given one, so that the induction is on the list.
  have hfold : ∀ ids : List Nat, (∀ i ∈ ids, i ≤ id) →
      ids.foldr (fun i package => joinPackage package (a.segmentOf i)) b.conventions.rootPackage
        = ids.foldr (fun i package => joinPackage package (b.segmentOf i))
            b.conventions.rootPackage := by
    intro ids hids
    induction ids with
    | nil => rfl
    | cons i ids ih =>
        rw [List.foldr_cons, List.foldr_cons, ih fun j hj => hids j (.tail _ hj),
          hs i (hids i (.head _))]
  rw [packageOf, packageOf, hc, chain_congr id hp]
  exact hfold _ fun i hi => le_of_mem_chain hi

end SymbolIndex

/-! ### Outlines -/

/-- A scope without what it holds: its place in the tree, its names and
its header. -/
def Scope.bare (s : Scope) : Scope :=
  { s with imports := .empty, declarations := .empty, artifacts := .empty }

/-- The place of a scope in the tree: neither what it holds nor the
number of its header. Two indexes whose headers were made in different
arenas can still share it. -/
def Scope.outline (s : Scope) : Scope := { s.bare with header := 0 }

namespace SymbolIndex

/-- Two indexes with the same tree of scopes. Whatever is computed from
places and names alone is the same for both. -/
structure SameOutline (a b : SymbolIndex) : Prop where
  conventions : a.conventions = b.conventions
  outline : a.scopes.map Scope.outline = b.scopes.map Scope.outline

/-- Scopes that are equal when bare have equal outlines: an outline
leaves out the header in addition. -/
theorem map_outline_of_bare {a b : SymbolIndex}
    (h : a.scopes.map Scope.bare = b.scopes.map Scope.bare) :
    a.scopes.map Scope.outline = b.scopes.map Scope.outline := by
  have hmap := congrArg (List.map Scope.outline) h
  rw [List.map_map, List.map_map] at hmap
  exact hmap

namespace SameOutline

variable {a b : SymbolIndex}

/-- An index has its own outline. -/
theorem refl (a : SymbolIndex) : a.SameOutline a := ⟨rfl, rfl⟩

/-- The relation is symmetric, as an equation of outlines. -/
theorem symm (h : a.SameOutline b) : b.SameOutline a := ⟨h.conventions.symm, h.outline.symm⟩

/-- And transitive, likewise. -/
theorem trans {c : SymbolIndex} (h : a.SameOutline b) (h' : b.SameOutline c) : a.SameOutline c :=
  ⟨h.conventions.trans h'.conventions, h.outline.trans h'.outline⟩

/-- The same tree has the same number of scopes, so a number is a scope
in both or in neither. -/
theorem size (h : a.SameOutline b) : a.size = b.size := by
  have := congrArg List.length h.outline
  simpa [SymbolIndex.size] using this

/-- Whatever does not look into a scope gives the same answer. All the
answers below are instances of it. -/
theorem map_scope {α : Type} (h : a.SameOutline b) (f : Scope → α)
    (hf : ∀ s : Scope, f s.outline = f s) (id : Nat) :
    a.scopes[id]?.map f = b.scopes[id]?.map f := by
  -- The answer is computed from the list of outlines, which both share.
  have houtline : ∀ ix : SymbolIndex,
      ix.scopes[id]?.map f = (ix.scopes.map Scope.outline)[id]?.map f := by
    intro ix
    rw [List.getElem?_map, Option.map_map]
    exact congrArg (ix.scopes[id]?.map ·) (funext fun s => (hf s).symm)
  rw [houtline a, houtline b, h.outline]

/-- The same for answers that may be missing, such as the parent of a
scope or the name of its module. -/
theorem bind_scope {α : Type} (h : a.SameOutline b) (f : Scope → Option α)
    (hf : ∀ s : Scope, f s.outline = f s) (id : Nat) :
    a.scopes[id]?.bind f = b.scopes[id]?.bind f := by
  have hbind := congrArg (Option.bind · fun x => x) (h.map_scope f hf id)
  rw [Option.bind_map, Option.bind_map] at hbind
  exact hbind

/-- The same parents. The walk skips a parent that is not older than its
child, and the ages are numbers of the same tree. -/
theorem parent? (h : a.SameOutline b) (i : Nat) : a.parent? i = b.parent? i := by
  rw [SymbolIndex.parent?, SymbolIndex.parent?, h.bind_scope Scope.parent fun _ => rfl]

/-- Hence the same chains, by induction on the number of the scope. All
look-ups of names go along a chain. -/
theorem chain (h : a.SameOutline b) (id : Nat) : a.chain id = b.chain id :=
  chain_congr id fun i _ => h.parent? i

/-- The same segments of packages. -/
theorem segmentOf (h : a.SameOutline b) (id : Nat) : a.segmentOf id = b.segmentOf id :=
  congrArg (·.getD "") (h.map_scope Scope.segment (fun _ => rfl) id)

/-- Hence the same packages, as a package is put together from the
segments along the chain. -/
theorem packageOf (h : a.SameOutline b) (id : Nat) : a.packageOf id = b.packageOf id :=
  packageOf_congr h.conventions id (fun i _ => h.parent? i) fun i _ => h.segmentOf i

/-- Hence the same paths of generated files: a path is made of the
package, the stem and the conventions. -/
theorem outputPath (h : a.SameOutline b) (id : Nat) : a.outputPath id = b.outputPath id := by
  rw [SymbolIndex.outputPath, h.conventions, h.packageOf, h.map_scope Scope.stem (fun _ => rfl)]
  rfl

/-- The same modules that files are bound to: the nearest one along the
chain. -/
theorem jsModuleOf (h : a.SameOutline b) (id : Nat) : a.jsModuleOf id = b.jsModuleOf id := by
  rw [SymbolIndex.jsModuleOf, SymbolIndex.jsModuleOf, h.chain]
  exact congrArg (List.findSome? · _)
    (funext fun i => h.bind_scope Scope.jsModule (fun _ => rfl) i)

/-- The same namespace for a name, the first scope of the list that is
one. -/
theorem namespace? (h : a.SameOutline b) (space : String) :
    a.namespace? space = b.namespace? space := by
  have houtline : ∀ ix : SymbolIndex, ix.namespace? space
      = (ix.scopes.map Scope.outline).findIdx? fun s =>
          s.kind == .namespaced && s.rawName == space := by
    intro ix
    rw [List.findIdx?_map]
    rfl
  rw [houtline a, houtline b, h.outline]

/-- The same scopes in a package, in the order of their numbers. Fusion
looks through them for an interface. -/
theorem scopesIn (h : a.SameOutline b) (package : String) :
    a.scopesIn package = b.scopesIn package := by
  simp only [SymbolIndex.scopesIn, ids, h.size, h.packageOf]

end SameOutline

/-! ### Alike indexes -/

/-- A scope declares something under a key. What it declares does not
matter to a look-up. -/
def declaresKey (ix : SymbolIndex) (id : Nat) (key : DeclKey) : Bool :=
  (ix.scopes[id]?.map fun s => s.declarations.contains key).getD false

/-- A scope declares a name if it declares a key with this name, of
whichever kind. -/
theorem declaresAt_eq (ix : SymbolIndex) (id : Nat) (name : String) :
    ix.declaresAt id name = DeclKind.all.any fun kind => ix.declaresKey id ⟨kind, name⟩ := by
  rw [declaresAt]
  cases hs : ix.scopes[id]? with
  | none => simp [declaresKey, hs]
  | some s => simp [declaresKey, hs, Scope.declares]

/-- A scope declares a class of a name. Drafting an interface asks for
this. -/
def hasClass (ix : SymbolIndex) (id : Nat) (name : String) : Bool :=
  (ix.scopes[id]?.bind fun s => s.class? name).isSome

/-- Two indexes with the same tree of scopes, the same imports and the
same declared keys. These are the questions that drafting asks, so alike
indexes cannot be told apart by a draft. -/
structure Alike (a b : SymbolIndex) : Prop extends SameOutline a b where
  byPath : ∀ path, a.byPath.get? path = b.byPath.get? path
  importAt : ∀ id name, a.importAt id name = b.importAt id name
  declaresKey : ∀ id key, a.declaresKey id key = b.declaresKey id key
  hasClass : ∀ id name, a.hasClass id name = b.hasClass id name

namespace Alike

variable {a b : SymbolIndex}

/-- An index is like itself. -/
theorem refl (a : SymbolIndex) : a.Alike a :=
  ⟨.refl a, fun _ => rfl, fun _ _ => rfl, fun _ _ => rfl, fun _ _ => rfl⟩

/-- The relation is symmetric, question by question: each field is an
equation of two answers. -/
theorem symm (h : a.Alike b) : b.Alike a where
  toSameOutline := h.toSameOutline.symm
  byPath := fun path => (h.byPath path).symm
  importAt := fun id name => (h.importAt id name).symm
  declaresKey := fun id key => (h.declaresKey id key).symm
  hasClass := fun id name => (h.hasClass id name).symm

/-- And transitive. -/
theorem trans {c : SymbolIndex} (h : a.Alike b) (h' : b.Alike c) : a.Alike c where
  toSameOutline := h.toSameOutline.trans h'.toSameOutline
  byPath := fun path => (h.byPath path).trans (h'.byPath path)
  importAt := fun id name => (h.importAt id name).trans (h'.importAt id name)
  declaresKey := fun id key => (h.declaresKey id key).trans (h'.declaresKey id key)
  hasClass := fun id name => (h.hasClass id name).trans (h'.hasClass id name)

/-- The same names are declared at a scope, whatever the kinds of their
declarations. -/
theorem declaresAt (h : a.Alike b) (id : Nat) (name : String) :
    a.declaresAt id name = b.declaresAt id name := by
  rw [declaresAt_eq, declaresAt_eq]
  simp only [h.declaresKey]

/-- The same names are known along its chain, whether by a declaration
or by any import. -/
theorem hasName (h : a.Alike b) (id : Nat) (name : String) :
    a.hasName id name = b.hasName id name := by
  simp only [SymbolIndex.hasName, h.chain, h.declaresAt, h.importAt]

/-- The same scope declares a name first. It is found by its number,
which both indexes share. -/
theorem declaringScope (h : a.Alike b) (id : Nat) (name : String) :
    a.declaringScope id name = b.declaringScope id name := by
  simp only [SymbolIndex.declaringScope, h.chain, h.declaresAt]

/-- A module name leads to the same scope, since places and paths
agree. -/
theorem resolveModule (h : a.Alike b) (name : String) :
    a.resolveModule name = b.resolveModule name := by
  simp only [SymbolIndex.resolveModule, placeOf, h.conventions, h.packageOf, h.byPath]

/-- A scope gives the same answer for a name: a declaration of its own,
or an import that is followed. -/
theorem locateAt (h : a.Alike b) (name : String) (id : Nat) :
    a.locateAt name id = b.locateAt name id := by
  simp only [SymbolIndex.locateAt, h.declaresAt, h.importAt, h.resolveModule]

/-- Hence a name is located at the same place. At each scope of the
chain, declarations and imports answer alike, and an import leads to the
same module. -/
theorem locate (h : a.Alike b) (id : Nat) (name : String) :
    a.locate id name = b.locate id name := by
  rw [SymbolIndex.locate, SymbolIndex.locate, h.chain]
  exact congrArg (List.findSome? · _) (funext fun i => h.locateAt name i)

/-- The same modules are imported as a whole, under the same names, and
they lead to the same scopes. -/
theorem wholeImportAt (h : a.Alike b) (space : String) (id : Nat) :
    a.wholeImportAt space id = b.wholeImportAt space id := by
  simp only [SymbolIndex.wholeImportAt, h.importAt, h.resolveModule]

/-- The package that a qualified name points to is the same, whether a
module imported as a whole gives it, a namespace or the conventions. -/
theorem namespacePackage (h : a.Alike b) (id : Nat) (space : String) :
    a.namespacePackage id space = b.namespacePackage id space := by
  have hwhole : a.wholeImportAt space = b.wholeImportAt space :=
    funext fun i => h.wholeImportAt space i
  simp only [SymbolIndex.namespacePackage, h.chain, hwhole, h.packageOf, h.namespace?,
    h.conventions]

end Alike

end SymbolIndex

/-! ### Alike viewpoints -/

namespace Viewpoint

/-- The same two scopes of alike indexes: one that is drafted for, and
one that names are looked up from. -/
structure Alike (v w : Viewpoint) : Prop where
  index : v.index.Alike w.index
  home : v.home = w.home
  origin : v.origin = w.origin

namespace Alike

variable {v w : Viewpoint}

/-- The same names are located from alike viewpoints. -/
theorem locate (h : v.Alike w) (name : String) : v.locate name = w.locate name := by
  simp only [Viewpoint.locate, h.origin, h.index.hasName, h.index.locate]

/-- The same import is needed for what was located. It depends on the
packages of the two scopes and on the name that is written. -/
theorem importFor? (h : v.Alike w) (name : String) (l : Location) :
    v.importFor? name l = w.importFor? name l := by
  simp only [Viewpoint.importFor?, h.home, h.index.packageOf]

/-- So a name is resolved with the same text and the same import, and
nothing is reported in either case. -/
theorem resolve (h : v.Alike w) (name : String) : v.resolve name = w.resolve name := by
  simp only [Viewpoint.resolve, h.locate, h.importFor?]

/-- The import of promises depends on the conventions only. -/
theorem promiseImport (h : v.Alike w) : v.promiseImport = w.promiseImport := by
  simp only [Viewpoint.promiseImport, h.index.conventions]

/-- An atom is mapped alike. Qualified names ask the index for a
package, numbers and promises for the conventions, and the others for
nothing. -/
theorem mapAtom (h : v.Alike w) (p : Position) (text : String) (atom : Atom) :
    v.mapAtom p text atom = w.mapAtom p text atom := by
  cases atom <;> simp only [Viewpoint.mapAtom, h.origin, h.index.namespacePackage,
    h.index.conventions, h.promiseImport]

/-- A name in front of a rule is mapped alike: it is located in both or
in neither, and the rule is the same. -/
theorem symbolOr (h : v.Alike w) (p : Position) (text : String) (symbol : Option String)
    (rule : Draft KotlinType) : v.symbolOr p text symbol rule = w.symbolOr p text symbol rule := by
  cases symbol <;> simp only [Viewpoint.symbolOr, h.resolve]

/-- A reading is mapped alike, by induction on its parts. The position
changes on the way in, so the statement is for all of them. -/
theorem mapReading (h : v.Alike w) (p : Position) (r : Reading) :
    v.mapReading p r = w.mapReading p r := by
  induction r generalizing p with
  | nullable text inner ih => simp only [Viewpoint.mapReading, ih]
  | array text symbol element ih =>
      simp only [Viewpoint.mapReading, ih, h.symbolOr, h.index.conventions]
  | promise text symbol argument ih =>
      simp only [Viewpoint.mapReading, ih, h.symbolOr, h.promiseImport]
  | atom text symbol atom => simp only [Viewpoint.mapReading, h.symbolOr, h.mapAtom]

/-- So type positions are mapped alike. It is stated as an equation of
functions, which rewrites under binders. -/
theorem map (h : v.Alike w) : v.map = w.map :=
  funext fun p => funext fun type => h.mapReading p (Reading.of type)

/-- Parameters are drafted alike, with the comma between each two of
them. -/
theorem draftParams (h : v.Alike w) : v.draftParams = w.draftParams := by
  have hparam : v.draftParam = w.draftParam := by
    funext self param
    simp only [Viewpoint.draftParam, h.map]
  funext self params
  simp only [Viewpoint.draftParams, hparam]

/-- Return types are drafted alike, also where a promise is added around
them. -/
theorem draftReturn (h : v.Alike w) : v.draftReturn = w.draftReturn := by
  funext p type isAsync
  simp only [Viewpoint.draftReturn, h.map, promiseOf, h.promiseImport]

/-- Members are drafted alike: methods, properties and accessors. -/
theorem draftMembers (h : v.Alike w) : v.draftMembers = w.draftMembers := by
  -- From the inside out: what a member is drafted from is alike in both, so the members are.
  have hmethod : v.draftMethod = w.draftMethod := by
    funext self name m
    simp only [Viewpoint.draftMethod, h.draftParams, h.draftReturn]
  have hvalue : v.draftValue = w.draftValue := by
    funext self name type isOverride writable
    simp only [Viewpoint.draftValue, h.map]
  have hmember : v.draftMember = w.draftMember := by
    funext self member
    simp only [Viewpoint.draftMember, hmethod, hvalue]
  funext self members
  simp only [Viewpoint.draftMembers, hmember]

/-- Functions are drafted alike, all overloads of them. -/
theorem draftFunction (h : v.Alike w) : v.draftFunction = w.draftFunction := by
  have hsignature : v.draftSignature = w.draftSignature := by
    funext name decl
    simp only [Viewpoint.draftSignature, h.draftParams, h.draftReturn]
  funext name overloads
  simp only [Viewpoint.draftFunction, hsignature]

/-- Classes are drafted alike: the base, the constructors, the members
and the companion. -/
theorem draftClass (h : v.Alike w) : v.draftClass = w.draftClass := by
  funext decl
  simp only [Viewpoint.draftClass, h.draftParams, h.map, h.draftMembers]

/-- Interfaces are drafted alike: their bases, their members, and
whether a class takes them. -/
theorem draftInterface (h : v.Alike w) : v.draftInterface = w.draftInterface := by
  funext decl fused
  simp only [Viewpoint.draftInterface, h.map, h.draftMembers]

/-- Drafting a declaration depends on the other declarations only
through their keys. An interface asks in addition whether there is a
class of its name. -/
theorem draftDeclaration (h : v.Alike w) (key : DeclKey) (decl : Declaration) :
    v.draftDeclaration key decl = w.draftDeclaration key decl := by
  have hpaired := h.index.hasClass w.home key.name
  rw [SymbolIndex.hasClass, SymbolIndex.hasClass] at hpaired
  cases decl <;>
    simp only [Viewpoint.draftDeclaration, h.draftFunction, h.draftClass, h.draftInterface, h.home,
      hpaired]

end Alike

end Viewpoint

end Externals
