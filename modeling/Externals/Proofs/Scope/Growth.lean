import Externals.Proofs.Data.Table
import Externals.Proofs.Scope.Alike

/-!
# `Externals.Proofs.Scope.Growth`: how an index changes

An index is its tree of scopes and, for each scope, three tables: what
it imports, what it declares and what was emitted from it
(`ext_contents`). Every operation touches one of these at one scope,
except for registration, which adds a scope with three empty tables.

Registration only ever adds. What an index says about the packages and
paths of its scopes is therefore still said by every index that grew
out of it, and a module that is registered again is found.

* `register_kept`, `register_made`: the two things registration does.
* `Grown`: one index grew out of another.
* `Grown.scopeOf`: the scope of a module stays the same.
* `register_spec`: the module is registered after either.
-/

set_option autoImplicit false

namespace Externals.SymbolIndex

/-! ### Contents -/

/-- What a scope imports, by local name. A scope that does not exist
imports nothing. -/
def importsOf (ix : SymbolIndex) (id : Nat) : Table String ScopeImport :=
  (ix.scopes[id]?.map Scope.imports).getD .empty

/-- What a scope declares, by kind and name, in the order of
declaration. -/
def declarationsOf (ix : SymbolIndex) (id : Nat) : Table DeclKey Declaration :=
  (ix.scopes[id]?.map Scope.declarations).getD .empty

/-- What was emitted from a scope, under the keys of the declarations. -/
def artifactsOf (ix : SymbolIndex) (id : Nat) : Table DeclKey Artifact :=
  (ix.scopes[id]?.map Scope.artifacts).getD .empty

/-- A number is that of a scope if it is below the size of the index:
scopes are numbered without gaps. -/
theorem getElem?_isSome_iff {ix : SymbolIndex} {id : Nat} :
    ix.scopes[id]?.isSome ↔ id < ix.size := by
  simp [size]

/-- Below the size there is a scope. Proofs take a number apart by this
and go on with the scope itself. -/
theorem exists_scope {ix : SymbolIndex} {id : Nat} (h : id < ix.size) :
    ∃ s, ix.scopes[id]? = some s :=
  ⟨ix.scopes[id], List.getElem?_eq_getElem h⟩

/-- Looking up an import of a scope is looking into the table of its
imports. -/
theorem importAt_eq (ix : SymbolIndex) (id : Nat) (name : String) :
    ix.importAt id name = (ix.importsOf id).get? name := by
  rw [importAt, importsOf]
  cases ix.scopes[id]? <;> rfl

/-- A scope declares a key if the table of its declarations has it. A
number that is no scope has an empty table. -/
theorem declaresKey_eq (ix : SymbolIndex) (id : Nat) (key : DeclKey) :
    ix.declaresKey id key = (ix.declarationsOf id).contains key := by
  rw [declaresKey, declarationsOf]
  cases ix.scopes[id]? <;> rfl

/-- The class a table of declarations holds under a name. The key alone
does not say that the entry is a class. -/
def classIn (t : Table DeclKey Declaration) (name : String) : Option ClassDecl :=
  match t.get? ⟨.classType, name⟩ with
  | some (.classType decl) => some decl
  | _ => none

/-- The interface a table of declarations holds under a name. What else
is filed under the key of an interface does not count. -/
def interfaceIn (t : Table DeclKey Declaration) (name : String) : Option InterfaceDecl :=
  match t.get? ⟨.interfaceType, name⟩ with
  | some (.interfaceType decl) => some decl
  | _ => none

/-- The class of a scope is the one in its table, so two scopes with the
same table have the same classes. -/
theorem class?_eq (ix : SymbolIndex) (id : Nat) (name : String) :
    (ix.scopes[id]?.bind fun s => s.class? name) = classIn (ix.declarationsOf id) name := by
  rw [declarationsOf]
  cases ix.scopes[id]? <;> rfl

/-- The interface of a scope is the one in its table, likewise. -/
theorem interface?_eq (ix : SymbolIndex) (id : Nat) (name : String) :
    (ix.scopes[id]?.bind fun s => s.interface? name) = interfaceIn (ix.declarationsOf id) name := by
  rw [declarationsOf]
  cases ix.scopes[id]? <;> rfl

/-- A scope is known by its place in the tree and its contents: there
are no other fields. -/
theorem scope_ext_contents {s t : Scope} (hb : s.bare = t.bare) (hi : s.imports = t.imports)
    (hd : s.declarations = t.declarations) (ha : s.artifacts = t.artifacts) : s = t := by
  cases s
  cases t
  simp only [Scope.bare, Scope.mk.injEq] at hb hi hd ha ⊢
  exact ⟨hb.1, hb.2.1, hb.2.2.1, hb.2.2.2.1, hb.2.2.2.2.1, hb.2.2.2.2.2.1, hb.2.2.2.2.2.2.1, hi, hd,
    ha⟩

/-- An index is known by its tree and its contents. Equality of two
indexes is therefore proved table by table, and the list of scopes need
not be looked at. -/
theorem ext_contents {a b : SymbolIndex} (hc : a.conventions = b.conventions)
    (hp : a.byPath = b.byPath) (hb : a.scopes.map Scope.bare = b.scopes.map Scope.bare)
    (hi : ∀ id, a.importsOf id = b.importsOf id)
    (hd : ∀ id, a.declarationsOf id = b.declarationsOf id)
    (ha : ∀ id, a.artifactsOf id = b.artifactsOf id) : a = b := by
  have hscopes : a.scopes = b.scopes := by
    refine List.ext_getElem? fun id => ?_
    have hbare := congrArg (·[id]?) hb
    have hi := hi id
    have hd := hd id
    have ha := ha id
    simp only [List.getElem?_map] at hbare
    simp only [importsOf, declarationsOf, artifactsOf] at hi hd ha
    -- Both have a scope under the number or neither has, because the bare scopes agree.
    cases hs : a.scopes[id]? with
    | none =>
        rw [hs] at hbare
        cases ht : b.scopes[id]? with
        | none => rfl
        | some t =>
            rw [ht] at hbare
            cases hbare
    | some s =>
        rw [hs] at hbare hi hd ha
        cases ht : b.scopes[id]? with
        | none =>
            rw [ht] at hbare
            cases hbare
        | some t =>
            rw [ht] at hbare hi hd ha
            simp only [Option.map_some, Option.getD_some, Option.some.injEq] at hbare hi hd ha
            rw [scope_ext_contents hbare hi hd ha]
  cases a
  cases b
  simp only at hc hp hscopes
  rw [hc, hp, hscopes]

/-- Two indexes that differ in artifacts only are alike, since no
look-up asks for an artifact. -/
theorem Alike.of_contents {a b : SymbolIndex} (hc : a.conventions = b.conventions)
    (hp : a.byPath = b.byPath) (hb : a.scopes.map Scope.bare = b.scopes.map Scope.bare)
    (hi : ∀ id, a.importsOf id = b.importsOf id)
    (hd : ∀ id, a.declarationsOf id = b.declarationsOf id) : a.Alike b where
  conventions := hc
  outline := map_outline_of_bare hb
  byPath := fun path => by rw [hp]
  importAt := fun id name => by rw [importAt_eq, importAt_eq, hi]
  declaresKey := fun id key => by rw [declaresKey_eq, declaresKey_eq, hd]
  hasClass := fun id name => by
    rw [SymbolIndex.hasClass, SymbolIndex.hasClass, class?_eq, class?_eq, hd]

/-! ### Changing one scope -/

/-- Changing one scope leaves the others as they were, and no scope is
made for a number that has none. -/
theorem getElem?_modifyScope (ix : SymbolIndex) (id : Nat) (f : Scope → Scope) (i : Nat) :
    (ix.modifyScope id f).scopes[i]? = if id = i then ix.scopes[i]?.map f else ix.scopes[i]? := by
  rw [modifyScope, List.getElem?_modify]
  split <;> simp

/-- A change of what a scope holds does not change the tree. The three
operations that file something are all of this kind. -/
theorem bare_modifyScope (ix : SymbolIndex) (id : Nat) {f : Scope → Scope}
    (hf : ∀ s, (f s).bare = s.bare) :
    (ix.modifyScope id f).scopes.map Scope.bare = ix.scopes.map Scope.bare := by
  refine List.ext_getElem? fun i => ?_
  rw [List.getElem?_map, List.getElem?_map, getElem?_modifyScope]
  split
  · rw [Option.map_map]
    exact congrArg (ix.scopes[i]?.map ·) (funext hf)
  · rfl

/-- The same bare scopes are the same number of scopes, because the
lists have the same length. -/
theorem size_of_bare {a b : SymbolIndex} (h : a.scopes.map Scope.bare = b.scopes.map Scope.bare) :
    a.size = b.size := by
  have := congrArg List.length h
  simpa [size] using this

/-- A part of a scope that a change does not touch. The frame lemmas
below are instances of it. -/
theorem map_modifyScope_of_eq {α : Type} (ix : SymbolIndex) (id : Nat) (f : Scope → Scope)
    (g : Scope → α) (hg : ∀ s, g (f s) = g s) (i : Nat) :
    (ix.modifyScope id f).scopes[i]?.map g = ix.scopes[i]?.map g := by
  rw [getElem?_modifyScope]
  split
  · rw [Option.map_map]
    exact congrArg (ix.scopes[i]?.map ·) (funext hg)
  · rfl

/-- A part of a scope that a change touches, in a scope that exists. The
three tables of a scope are read off like this. -/
theorem getD_modifyScope {α : Type} (ix : SymbolIndex) {id : Nat} (hid : id < ix.size)
    {f : Scope → Scope} (g : Scope → α) (u : α → α) (hg : ∀ s, g (f s) = u (g s)) (d : α)
    (i : Nat) :
    ((ix.modifyScope id f).scopes[i]?.map g).getD d
      = if id = i then u ((ix.scopes[i]?.map g).getD d) else (ix.scopes[i]?.map g).getD d := by
  rw [getElem?_modifyScope]
  split
  · rename_i heq
    obtain ⟨s, hs⟩ := exists_scope (heq ▸ hid)
    rw [hs]
    exact hg s
  · rfl

section

variable (ix : SymbolIndex)

/-- Adding an import sets one entry in the imports of one scope. If the
name was bound before, the binding is replaced. -/
theorem importsOf_addImport {id : Nat} (hid : id < ix.size) (localName : String)
    (imp : ScopeImport) (i : Nat) :
    (ix.addImport id localName imp).importsOf i
      = if id = i then (ix.importsOf i).insert localName imp else ix.importsOf i := by
  rw [importsOf, importsOf, addImport]
  exact ix.getD_modifyScope hid Scope.imports (·.insert localName imp) (fun _ => rfl) .empty i

/-- A declaration sets one entry in the declarations of one scope. What
was declared under the key before is gone. -/
theorem declarationsOf_declare {id : Nat} (hid : id < ix.size) (key : DeclKey)
    (decl : Declaration) (i : Nat) :
    (ix.declare id key decl).declarationsOf i
      = if id = i then (ix.declarationsOf i).insert key decl else ix.declarationsOf i := by
  rw [declarationsOf, declarationsOf, declare]
  exact ix.getD_modifyScope hid Scope.declarations (·.insert key decl) (fun _ => rfl) .empty i

/-- Storing an artifact sets one entry in the artifacts of one scope. An
artifact of an earlier emission is replaced. -/
theorem artifactsOf_storeArtifact {id : Nat} (hid : id < ix.size) (key : DeclKey) (a : Artifact)
    (i : Nat) :
    (ix.storeArtifact id key a).artifactsOf i
      = if id = i then (ix.artifactsOf i).insert key a else ix.artifactsOf i := by
  rw [artifactsOf, artifactsOf, storeArtifact]
  exact ix.getD_modifyScope hid Scope.artifacts (·.insert key a) (fun _ => rfl) .empty i

variable (id : Nat)

/-- Adding an import leaves the tree as it was. -/
theorem bare_addImport (localName : String) (imp : ScopeImport) :
    (ix.addImport id localName imp).scopes.map Scope.bare = ix.scopes.map Scope.bare :=
  ix.bare_modifyScope id fun _ => rfl

/-- It leaves all declarations as they were. -/
theorem declarationsOf_addImport (localName : String) (imp : ScopeImport) (i : Nat) :
    (ix.addImport id localName imp).declarationsOf i = ix.declarationsOf i := by
  rw [declarationsOf, addImport, map_modifyScope_of_eq]
  · rfl
  · exact fun _ => rfl

/-- It leaves all artifacts as they were. -/
theorem artifactsOf_addImport (localName : String) (imp : ScopeImport) (i : Nat) :
    (ix.addImport id localName imp).artifactsOf i = ix.artifactsOf i := by
  rw [artifactsOf, addImport, map_modifyScope_of_eq]
  · rfl
  · exact fun _ => rfl

/-- A declaration leaves the tree as it was. -/
theorem bare_declare (key : DeclKey) (decl : Declaration) :
    (ix.declare id key decl).scopes.map Scope.bare = ix.scopes.map Scope.bare :=
  ix.bare_modifyScope id fun _ => rfl

/-- It leaves all imports as they were. -/
theorem importsOf_declare (key : DeclKey) (decl : Declaration) (i : Nat) :
    (ix.declare id key decl).importsOf i = ix.importsOf i := by
  rw [importsOf, declare, map_modifyScope_of_eq]
  · rfl
  · exact fun _ => rfl

/-- It leaves all artifacts as they were. -/
theorem artifactsOf_declare (key : DeclKey) (decl : Declaration) (i : Nat) :
    (ix.declare id key decl).artifactsOf i = ix.artifactsOf i := by
  rw [artifactsOf, declare, map_modifyScope_of_eq]
  · rfl
  · exact fun _ => rfl

/-- Storing an artifact leaves the tree as it was. -/
theorem bare_storeArtifact (key : DeclKey) (a : Artifact) :
    (ix.storeArtifact id key a).scopes.map Scope.bare = ix.scopes.map Scope.bare :=
  ix.bare_modifyScope id fun _ => rfl

/-- It leaves all imports as they were. -/
theorem importsOf_storeArtifact (key : DeclKey) (a : Artifact) (i : Nat) :
    (ix.storeArtifact id key a).importsOf i = ix.importsOf i := by
  rw [importsOf, storeArtifact, map_modifyScope_of_eq]
  · rfl
  · exact fun _ => rfl

/-- It leaves all declarations as they were. -/
theorem declarationsOf_storeArtifact (key : DeclKey) (a : Artifact) (i : Nat) :
    (ix.storeArtifact id key a).declarationsOf i = ix.declarationsOf i := by
  rw [declarationsOf, storeArtifact, map_modifyScope_of_eq]
  · rfl
  · exact fun _ => rfl

end

/-! ### Changing scopes entry by entry -/

section

variable {β : Type} (step : SymbolIndex → β → SymbolIndex)

/-- What no step changes is as it was at the end. All frame properties
of loops come from this one. -/
theorem foldl_step_eq {γ : Type} (f : SymbolIndex → γ) (h : ∀ ix b, f (step ix b) = f ix)
    (bs : List β) (ix : SymbolIndex) : f (bs.foldl step ix) = f ix := by
  induction bs generalizing ix with
  | nil => rfl
  | cons b bs ih => rw [List.foldl_cons, ih, h]

/-- Steps that each set one entry in a table of one scope. At the end,
every scope has the entries that were meant for it, in the order of the
steps. -/
theorem foldl_step_insertAll {κ ν : Type} [DecidableEq κ] (f : SymbolIndex → Nat → Table κ ν)
    (e : β → Nat × κ × ν)
    (hbare : ∀ ix b, (step ix b).scopes.map Scope.bare = ix.scopes.map Scope.bare)
    (h : ∀ ix b, (e b).1 < ix.size → ∀ id, f (step ix b) id
      = if (e b).1 = id then (f ix id).insert (e b).2.1 (e b).2.2 else f ix id)
    (bs : List β) {ix : SymbolIndex} (hlt : ∀ b ∈ bs, (e b).1 < ix.size) (id : Nat) :
    f (bs.foldl step ix) id = (f ix id).insertAll
      (bs.filterMap fun b => if (e b).1 = id then some (e b).2 else none) := by
  induction bs generalizing ix with
  | nil => rfl
  | cons b bs ih =>
      -- A step makes no scope, so the other entries still belong to scopes of the index.
      have hsize : (step ix b).size = ix.size := size_of_bare (hbare ix b)
      rw [List.foldl_cons, ih fun b' hb' => Nat.lt_of_lt_of_eq (hlt b' (.tail _ hb')) hsize.symm,
        h ix b (hlt b (.head _)), List.filterMap_cons]
      split <;> rfl

/-- Steps that each set one entry in the table of one and the same
scope. -/
theorem foldl_step_insertAll_at {κ ν : Type} [DecidableEq κ] (f : SymbolIndex → Nat → Table κ ν)
    (scope : Nat) (e : β → κ × ν)
    (hbare : ∀ ix b, (step ix b).scopes.map Scope.bare = ix.scopes.map Scope.bare)
    (h : ∀ ix b, scope < ix.size → ∀ id, f (step ix b) id
      = if scope = id then (f ix id).insert (e b).1 (e b).2 else f ix id)
    (bs : List β) {ix : SymbolIndex} (hscope : scope < ix.size) (id : Nat) :
    f (bs.foldl step ix) id
      = if scope = id then (f ix id).insertAll (bs.map e) else f ix id := by
  rw [foldl_step_insertAll step f (fun b => (scope, e b)) hbare h bs fun _ _ => hscope]
  split
  · rw [List.filterMap_eq_map']
  · rw [List.filterMap_eq_nil_iff.mpr fun _ _ => rfl]
    rfl

end

/-! ### Registration -/

/-- The scope a registered module stands for: the one its path leads to.
A module that is not registered has none, and the root stands in for
it. -/
def scopeOf (ix : SymbolIndex) (name : String) (kind : ModuleKind) (parent : Option Nat) : Nat :=
  if kind == .global then root
  else (ix.byPath.get? (ix.placeOf name kind (parent.getD root)).2.2).getD root

/-- The module was registered before: its path leads somewhere. The
global scope always is. -/
def HasModule (ix : SymbolIndex) (name : String) (kind : ModuleKind) (parent : Option Nat) : Prop :=
  kind = .global ∨ (ix.byPath.get? (ix.placeOf name kind (parent.getD root)).2.2).isSome

/-- There is a global scope, and every path leads to a scope. Without
this, a look-up could give the number of a scope that does not exist. -/
structure Rooted (ix : SymbolIndex) : Prop where
  nonempty : 0 < ix.size
  byPath_lt : ∀ path id, ix.byPath.get? path = some id → id < ix.size

/-- Rootedness is about the tree and the paths only, so it outlives any
change of contents. -/
theorem Rooted.of_bare {a b : SymbolIndex} (h : a.Rooted) (hp : b.byPath = a.byPath)
    (hb : b.scopes.map Scope.bare = a.scopes.map Scope.bare) : b.Rooted := by
  have hsize : b.size = a.size := size_of_bare hb
  refine ⟨?_, fun path id hid => ?_⟩
  · rw [hsize]
    exact h.nonempty
  · rw [hsize]
    rw [hp] at hid
    exact h.byPath_lt path id hid

/-- So the scope of a module always exists: it is the one its path leads
to, or else the root. -/
theorem Rooted.scopeOf_lt {ix : SymbolIndex} (h : ix.Rooted) (name : String) (kind : ModuleKind)
    (parent : Option Nat) : ix.scopeOf name kind parent < ix.size := by
  rw [scopeOf]
  split
  · exact h.nonempty
  · cases hpath : ix.byPath.get? (ix.placeOf name kind (parent.getD root)).2.2 with
    | none => exact h.nonempty
    | some id => exact h.byPath_lt _ id hpath

/-- A registered module is found, and nothing changes: neither the index
nor the headers. -/
theorem register_kept {ix : SymbolIndex} {name : String} {kind : ModuleKind} {parent : Option Nat}
    (hm : ix.HasModule name kind parent) (h : Headers) :
    ix.register h name kind parent = (ix, h, ix.scopeOf name kind parent) := by
  by_cases hglobal : kind = .global
  · simp [register, scopeOf, hglobal]
  · have hsome := hm.resolve_left hglobal
    obtain ⟨id, hid⟩ := Option.isSome_iff_exists.mp hsome
    simp [register, scopeOf, hglobal, hid]

/-- The scope made for a new module: its place under the parent, the
module it is bound to if it is an ambient one, and three empty tables. -/
def newScope (ix : SymbolIndex) (name : String) (kind : ModuleKind) (parent header : Nat) : Scope :=
  { rawName := name, kind := kind, stem := (ix.placeOf name kind parent).2.1,
    segment := (ix.placeOf name kind parent).1, parent := some parent,
    jsModule := if kind == .ambient then some name else none, header := header }

/-- The index with one more scope, at the end, and with its path. It is
what registering a new module comes down to. -/
def withScope (ix : SymbolIndex) (scope : Scope) (path : String) : SymbolIndex :=
  { ix with scopes := ix.scopes ++ [scope], byPath := ix.byPath.insert path ix.size }

/-- A new module gets a new scope with a new header. Together with
`register_kept` this is all that registration does. -/
theorem register_made {ix : SymbolIndex} {name : String} {kind : ModuleKind} {parent : Option Nat}
    (hm : ¬ ix.HasModule name kind parent) (h : Headers) :
    ix.register h name kind parent
      = (ix.withScope (ix.newScope name kind (parent.getD root) h.size)
            (ix.placeOf name kind (parent.getD root)).2.2,
          (h.addRoot (ix.placeOf name kind (parent.getD root)).2.2).1, ix.size) := by
  rw [HasModule, not_or, Option.not_isSome_iff_eq_none] at hm
  simp [register, hm.1, hm.2, withScope, newScope, Headers.addRoot]

/-- There is one scope more, so the next number is that of the new
scope. -/
theorem size_withScope (ix : SymbolIndex) (scope : Scope) (path : String) :
    (ix.withScope scope path).size = ix.size + 1 := by
  simp [size, withScope]

/-- A new scope is where its path leads, and the other paths lead where
they led. -/
theorem Rooted.withScope {ix : SymbolIndex} (h : ix.Rooted) (scope : Scope) (path : String) :
    (ix.withScope scope path).Rooted where
  nonempty := by
    rw [size_withScope]
    exact Nat.succ_pos _
  byPath_lt := fun path' id hid => by
    rw [size_withScope]
    -- The path is new or it was there: the new one leads to the scope just added.
    replace hid : (ix.byPath.insert path ix.size).get? path' = some id := hid
    rw [Table.get?_insert] at hid
    split at hid
    · cases hid
      exact Nat.lt_succ_self _
    · exact Nat.lt_succ_of_lt (h.byPath_lt path' id hid)

/-- Registration keeps look-ups within the index: a path is added only
together with the scope it leads to. -/
theorem Rooted.register {ix : SymbolIndex} (h : ix.Rooted) (hs : Headers) (name : String)
    (kind : ModuleKind) (parent : Option Nat) : (ix.register hs name kind parent).1.Rooted := by
  by_cases hm : ix.HasModule name kind parent
  · rw [register_kept hm]
    exact h
  · rw [register_made hm]
    exact h.withScope _ _

/-- The new scope has the last number, and all others keep theirs. -/
theorem getElem?_withScope (ix : SymbolIndex) (scope : Scope) (path : String) (i : Nat) :
    (ix.withScope scope path).scopes[i]? = if i = ix.size then some scope else ix.scopes[i]? :=
  getElem?_concat ix.scopes _ i

/-- A part that is empty in a new scope is as it was, for every number:
where there was no scope before, it was empty by default. -/
theorem getD_withScope {α : Type} (ix : SymbolIndex) {scope : Scope} (path : String)
    (g : Scope → α) (d : α) (hg : g scope = d) (i : Nat) :
    ((ix.withScope scope path).scopes[i]?.map g).getD d = (ix.scopes[i]?.map g).getD d := by
  rw [getElem?_withScope]
  split
  · rename_i heq
    rw [List.getElem?_eq_none (by simp [heq, size])]
    exact hg
  · rfl

/-! ### Growth -/

/-- One index grew out of another: every scope and every path of the
first is one of the second. What the scopes hold may have changed. -/
structure Grown (a b : SymbolIndex) : Prop where
  conventions : b.conventions = a.conventions
  bare : ∀ id, id < a.size → b.scopes[id]?.map Scope.bare = a.scopes[id]?.map Scope.bare
  size_le : a.size ≤ b.size
  byPath : ∀ path id, a.byPath.get? path = some id → b.byPath.get? path = some id

namespace Grown

variable {a b : SymbolIndex}

/-- An index grew out of itself. -/
theorem refl (a : SymbolIndex) : a.Grown a :=
  ⟨rfl, fun _ _ => rfl, Nat.le_refl _, fun _ _ => id⟩

/-- Growth is transitive. A scope of the first index is one of the
second, so the second step keeps it. -/
theorem trans {c : SymbolIndex} (h : a.Grown b) (h' : b.Grown c) : a.Grown c where
  conventions := h'.conventions.trans h.conventions
  bare := fun id hid => (h'.bare id (Nat.lt_of_lt_of_le hid h.size_le)).trans (h.bare id hid)
  size_le := Nat.le_trans h.size_le h'.size_le
  byPath := fun path id hid => h'.byPath path id (h.byPath path id hid)

/-- A new scope under a new path. A path that was in use would lead
elsewhere now, so it has to be new. -/
theorem withScope (ix : SymbolIndex) (scope : Scope) {path : String}
    (hpath : ix.byPath.get? path = none) : ix.Grown (ix.withScope scope path) where
  conventions := rfl
  bare := fun id hid => by rw [getElem?_withScope, if_neg (Nat.ne_of_lt hid)]
  size_le := by
    rw [size_withScope]
    exact Nat.le_succ _
  byPath := fun path' id hid => by
    -- The path was free, so it is not one that already led somewhere.
    show (ix.byPath.insert path ix.size).get? path' = some id
    rw [Table.get?_insert, if_neg, hid]
    rintro rfl
    rw [hpath] at hid
    cases hid

/-- Whatever does not look into a scope is kept, for the scopes that
were there. -/
theorem map_scope {α : Type} (h : a.Grown b) (f : Scope → α) (hf : ∀ s : Scope, f s.bare = f s)
    {id : Nat} (hid : id < a.size) : b.scopes[id]?.map f = a.scopes[id]?.map f := by
  have hbare : ∀ ix : SymbolIndex,
      ix.scopes[id]?.map f = (ix.scopes[id]?.map Scope.bare).map f := by
    intro ix
    rw [Option.map_map]
    exact congrArg (ix.scopes[id]?.map ·) (funext fun s => (hf s).symm)
  rw [hbare b, hbare a, h.bare id hid]

/-- The same for answers that may be missing, such as a noted parent or
the name of a module. -/
theorem bind_scope {α : Type} (h : a.Grown b) (f : Scope → Option α)
    (hf : ∀ s : Scope, f s.bare = f s) {id : Nat} (hid : id < a.size) :
    b.scopes[id]?.bind f = a.scopes[id]?.bind f := by
  have hbind := congrArg (Option.bind · fun x => x) (h.map_scope f hf hid)
  rw [Option.bind_map, Option.bind_map] at hbind
  exact hbind

/-- Packages stay: the chain of a scope has only scopes that are as old
as itself, and all of them were kept. -/
theorem packageOf (h : a.Grown b) {id : Nat} (hid : id < a.size) :
    b.packageOf id = a.packageOf id := by
  refine packageOf_congr h.conventions id (fun i hi => ?_) fun i hi => ?_
  · rw [parent?, parent?,
      h.bind_scope Scope.parent (fun _ => rfl) (Nat.lt_of_le_of_lt hi hid)]
  · exact congrArg (·.getD "")
      (h.map_scope Scope.segment (fun _ => rfl) (Nat.lt_of_le_of_lt hi hid))

/-- So the place of a module under a scope stays: its segment, its stem
and its path depend on the parent's package alone. -/
theorem placeOf (h : a.Grown b) (name : String) (kind : ModuleKind) {parent : Nat}
    (hparent : parent < a.size) : b.placeOf name kind parent = a.placeOf name kind parent := by
  simp only [SymbolIndex.placeOf, h.conventions, h.packageOf hparent]

/-- A registered module stays registered, since its path stays and is
never taken away. -/
theorem hasModule (h : a.Grown b) {name : String} {kind : ModuleKind} (parent : Option Nat)
    (hparent : parent.getD root < a.size) (hm : a.HasModule name kind parent) :
    b.HasModule name kind parent := by
  refine hm.imp_right fun hsome => ?_
  obtain ⟨id, hid⟩ := Option.isSome_iff_exists.mp hsome
  rw [h.placeOf name kind hparent, h.byPath _ id hid]
  rfl

/-- A registered module keeps its scope: the path to it is kept, and so
is where it leads. -/
theorem scopeOf (h : a.Grown b) {name : String} {kind : ModuleKind} (parent : Option Nat)
    (hparent : parent.getD root < a.size) (hm : a.HasModule name kind parent) :
    b.scopeOf name kind parent = a.scopeOf name kind parent := by
  rw [SymbolIndex.scopeOf, SymbolIndex.scopeOf]
  split
  · rfl
  · rename_i hglobal
    obtain ⟨id, hid⟩ := Option.isSome_iff_exists.mp
      (hm.resolve_left fun hk => hglobal (by simp [hk]))
    rw [h.placeOf name kind hparent, hid, h.byPath _ id hid]

/-- A change of contents alone is growth. So filing declarations,
imports and artifacts is covered by all that is said of growth. -/
theorem of_bare {a b : SymbolIndex} (hc : b.conventions = a.conventions) (hp : b.byPath = a.byPath)
    (hb : b.scopes.map Scope.bare = a.scopes.map Scope.bare) : a.Grown b where
  conventions := hc
  bare := fun id _ => by
    have := congrArg (·[id]?) hb
    simpa using this
  size_le := Nat.le_of_eq (size_of_bare hb).symm
  byPath := fun path id hid => by rw [hp, hid]

end Grown

/-- A scope made for a module is where the module is found afterwards:
it does not move the place it was made for. -/
theorem byPath_withScope {ix : SymbolIndex} {parent : Nat} (hparent : parent < ix.size)
    (name : String) (kind : ModuleKind) (scope : Scope)
    (hpath : ix.byPath.get? (ix.placeOf name kind parent).2.2 = none) :
    (ix.withScope scope (ix.placeOf name kind parent).2.2).byPath.get?
        ((ix.withScope scope (ix.placeOf name kind parent).2.2).placeOf name kind parent).2.2
      = some ix.size := by
  rw [(Grown.withScope ix scope hpath).placeOf name kind hparent]
  exact Table.get?_insert_self _ _ _

/-- Whether registration finds the module or makes a scope for it, the
module is registered afterwards, under the number that is given. -/
theorem register_spec {ix : SymbolIndex} (h : Headers) (name : String) (kind : ModuleKind)
    {parent : Option Nat} (hparent : parent.getD root < ix.size) :
    ix.Grown (ix.register h name kind parent).1
      ∧ (ix.register h name kind parent).1.HasModule name kind parent
      ∧ (ix.register h name kind parent).2.2
          = (ix.register h name kind parent).1.scopeOf name kind parent := by
  -- A module that is there is kept; one that is not is added at the end, where its path now
  -- leads.
  by_cases hm : ix.HasModule name kind parent
  · rw [register_kept hm]
    exact ⟨.refl ix, hm, rfl⟩
  · rw [register_made hm]
    rw [HasModule, not_or, Option.not_isSome_iff_eq_none] at hm
    have hfound := byPath_withScope hparent name kind
      (ix.newScope name kind (parent.getD root) h.size) hm.2
    refine ⟨.withScope ix _ hm.2, .inr ?_, ?_⟩
    · rw [hfound]
      rfl
    · rw [scopeOf, if_neg (by simpa using hm.1), hfound]
      rfl

end Externals.SymbolIndex
