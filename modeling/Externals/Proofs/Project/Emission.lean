import Externals.Project.Emission
import Externals.Proofs.Project.Walk

/-!
# `Externals.Proofs.Project.Emission`: what emitting declarations does

Every declaration is drafted at an index that differs from the one at
the start only in artifacts, so all drafts are those of the start
(`draftOf`). Emitting a project files the imports of each draft under
the label of its key and stores the artifact of each draft under its
key, scope by scope.

Labels of different keys are different, so on an empty shelf every
label holds the imports of one draft (`get?_emittedShelf`). Emitting
again finds all of them filed (`emittedShelf_eq_self`).

* `emitAll_emitted`: the shelves and artifacts of all scopes after an
  emission.
-/

set_option autoImplicit false

namespace Externals

/-! ### Labels -/

/-- A label is the kind of its key and the name, with a colon between
them. -/
theorem DeclKey.toList_label (key : DeclKey) :
    key.label.toList = key.kind.label.toList ++ ':' :: key.name.toList := by
  simp [DeclKey.label]

/-- Different keys have different labels. The kind has no colon in it,
so the first colon of a label ends the kind, whatever the name looks
like. -/
theorem DeclKey.label_injective {key key' : DeclKey} (h : key.label = key'.label) : key = key' := by
  obtain ⟨kind, name⟩ := key
  obtain ⟨kind', name'⟩ := key'
  have hlist := congrArg String.toList h
  simp only [DeclKey.toList_label] at hlist
  cases kind <;> cases kind' <;>
    simp [DeclKind.label, String.toList_inj] at hlist <;> rw [hlist]

/-- The label of the imports that fusion adds for a class. There is one
for each class, however many interfaces are spliced into it. -/
def fuseLabel (name : String) : String := "fuse:" ++ name

/-- Classes of different names have different labels. -/
theorem fuseLabel_injective {name name' : String} (h : fuseLabel name = fuseLabel name') :
    name = name' := by
  have hlist := congrArg String.toList h
  simpa [fuseLabel, String.toList_inj] using hlist

/-- Declarations and fusions use different labels, so neither replaces
the imports of the other. No kind is called `fuse`. -/
theorem DeclKey.label_ne_fuseLabel (key : DeclKey) (name : String) :
    key.label ≠ fuseLabel name := by
  intro h
  have hlist := congrArg String.toList h
  rw [DeclKey.toList_label] at hlist
  cases hk : key.kind <;> simp [hk, fuseLabel, DeclKind.label] at hlist

/-! ### Drafts -/

namespace SymbolIndex

/-- The draft of a declaration of a scope, as it is seen from within
this scope. -/
def draftOf (ix : SymbolIndex) (scope : Nat) (e : DeclKey × Declaration) :
    Draft (Option Artifact) :=
  (Viewpoint.within ix scope).draftDeclaration e.1 e.2

/-- Indexes that look alike give the same drafts. -/
theorem Alike.draftOf {a b : SymbolIndex} (h : a.Alike b) (scope : Nat)
    (e : DeclKey × Declaration) : a.draftOf scope e = b.draftOf scope e := by
  have hv : (Viewpoint.within a scope).Alike (Viewpoint.within b scope) := ⟨h, rfl, rfl⟩
  exact hv.draftDeclaration e.1 e.2

/-- A shelf after the drafts of declarations were put down, one after
the other, each under the label of its key. -/
def fileDrafts (ix : SymbolIndex) (scope : Nat) (T : Shelf) (es : List (DeclKey × Declaration)) :
    Shelf :=
  es.foldl (fun T e => T.file e.1.label (ix.draftOf scope e).imports) T

/-- The artifacts of declarations, with their keys. A declaration
without a name has none. -/
def draftedArtifacts (ix : SymbolIndex) (scope : Nat) (es : List (DeclKey × Declaration)) :
    List (DeclKey × Artifact) :=
  es.filterMap fun e => (ix.draftOf scope e).value.map (e.1, ·)

/-- The shelf of a scope after it was emitted, from what it was before. -/
def emittedShelf (ix : SymbolIndex) (scope : Nat) (T : Shelf) : Shelf :=
  ix.fileDrafts scope T (ix.declarationsOf scope).entries

/-- The artifacts of a scope, in the order of its declarations. -/
def emittedArtifacts (ix : SymbolIndex) (scope : Nat) : List (DeclKey × Artifact) :=
  ix.draftedArtifacts scope (ix.declarationsOf scope).entries

/-- A scope that declares the same in indexes that look alike is emitted
to the same shelf. -/
theorem Alike.emittedShelf {a b : SymbolIndex} (h : a.Alike b) {scope : Nat}
    (hd : a.declarationsOf scope = b.declarationsOf scope) (T : Shelf) :
    a.emittedShelf scope T = b.emittedShelf scope T := by
  simp only [SymbolIndex.emittedShelf, fileDrafts, hd, h.draftOf]

/-- And to the same artifacts. -/
theorem Alike.emittedArtifacts {a b : SymbolIndex} (h : a.Alike b) {scope : Nat}
    (hd : a.declarationsOf scope = b.declarationsOf scope) :
    a.emittedArtifacts scope = b.emittedArtifacts scope := by
  simp only [SymbolIndex.emittedArtifacts, draftedArtifacts, hd, h.draftOf]

/-- Every key is drafted once, so the artifact of a key is that of its
declaration. A key whose draft has no artifact has none. -/
theorem latest?_emittedArtifacts (ix : SymbolIndex) (scope : Nat) (key : DeclKey) :
    Table.latest? key (ix.emittedArtifacts scope)
      = ((ix.declarationsOf scope).get? key).bind fun decl =>
          (ix.draftOf scope (key, decl)).value := by
  have hall : ∀ es : List (DeclKey × Declaration), (es.map Prod.fst).Nodup →
      Table.latest? key (ix.draftedArtifacts scope es)
        = (Table.latest? key es).bind fun decl => (ix.draftOf scope (key, decl)).value := by
    intro es hnodup
    induction es with
    | nil => rfl
    | cons e es ih =>
        obtain ⟨key', decl⟩ := e
        rw [List.map_cons, List.nodup_cons] at hnodup
        have hsplit : ix.draftedArtifacts scope ((key', decl) :: es)
            = ((ix.draftOf scope (key', decl)).value.map (key', ·)).toList
              ++ ix.draftedArtifacts scope es := by
          rw [draftedArtifacts, List.filterMap_cons]
          cases (ix.draftOf scope (key', decl)).value <;> rfl
        rw [hsplit, Table.latest?_append, ih hnodup.2, Table.latest?]
        by_cases hkey : key' = key
        · -- The key does not come up again.
          subst hkey
          rw [Table.latest?_eq_none_iff.mpr hnodup.1]
          cases hvalue : (ix.draftOf scope (key', decl)).value <;> simp [Table.latest?, hvalue]
        · cases (ix.draftOf scope (key', decl)).value <;> simp [Table.latest?, hkey]
  rw [emittedArtifacts, hall _ (ix.declarationsOf scope).nodup_keys, Table.latest?_entries]

/-! ### The shelf after an emission -/

section

variable (ix : SymbolIndex) (scope : Nat)

/-- Drafts are put down from the first on. -/
theorem fileDrafts_cons (T : Shelf) (e : DeclKey × Declaration)
    (es : List (DeclKey × Declaration)) :
    ix.fileDrafts scope T (e :: es)
      = ix.fileDrafts scope (T.file e.1.label (ix.draftOf scope e).imports) es := rfl

/-- A label that no key has is left alone. -/
theorem get?_fileDrafts_of_not_mem {es : List (DeclKey × Declaration)} {label : String}
    (h : ∀ e ∈ es, e.1.label ≠ label) (T : Shelf) :
    (ix.fileDrafts scope T es).get? label = T.get? label := by
  induction es generalizing T with
  | nil => rfl
  | cons e es ih =>
      rw [fileDrafts_cons, ih (fun e' he' => h e' (.tail _ he')),
        T.get?_file_of_ne (h e (.head _))]

/-- On an empty shelf each label holds the imports of its draft. The
keys are different, and so are their labels: what was filed under one is
not touched again. -/
theorem get?_fileDrafts {es : List (DeclKey × Declaration)} (hnodup : (es.map Prod.fst).Nodup)
    {T : Shelf} (hT : ∀ e ∈ es, T.get? e.1.label = none) :
    ∀ e ∈ es, (ix.fileDrafts scope T es).get? e.1.label
      = some (Table.empty.insertAll (keyed (ix.draftOf scope e).imports)) := by
  induction es generalizing T with
  | nil => exact nofun
  | cons e es ih =>
      rw [List.map_cons, List.nodup_cons] at hnodup
      -- The draft of the head is not touched again: labels of different keys differ.
      have hne : ∀ e' ∈ es, e'.1.label ≠ e.1.label := by
        intro e' he' heq
        exact hnodup.1 (DeclKey.label_injective heq ▸ List.mem_map_of_mem he')
      intro e' he'
      rw [fileDrafts_cons]
      rcases List.mem_cons.mp he' with rfl | hmem
      · rw [get?_fileDrafts_of_not_mem ix scope hne, T.get?_file_self, hT e' (.head _)]
        rfl
      · refine ih hnodup.2 (fun e'' he'' => ?_) e' hmem
        rw [T.get?_file_of_ne (hne e'' he'').symm]
        exact hT e'' (.tail _ he'')

/-- So it is for a whole scope, since no key is declared twice. -/
theorem get?_emittedShelf :
    ∀ e ∈ (ix.declarationsOf scope).entries, (ix.emittedShelf scope .empty).get? e.1.label
      = some (Table.empty.insertAll (keyed (ix.draftOf scope e).imports)) :=
  get?_fileDrafts ix scope (ix.declarationsOf scope).nodup_keys fun _ _ => rfl

/-- An emission does not touch what fusion has filed. -/
theorem get?_emittedShelf_fuseLabel (T : Shelf) (name : String) :
    (ix.emittedShelf scope T).get? (fuseLabel name) = T.get? (fuseLabel name) :=
  get?_fileDrafts_of_not_mem ix scope (fun e _ => e.1.label_ne_fuseLabel name) T

/-- A shelf that holds the imports of all drafts is not changed by an
emission. Filing replaces what is under a label, here by itself. -/
theorem emittedShelf_eq_self {T : Shelf}
    (h : ∀ e ∈ (ix.declarationsOf scope).entries, T.get? e.1.label
      = some (Table.empty.insertAll (keyed (ix.draftOf scope e).imports))) :
    ix.emittedShelf scope T = T := by
  rw [emittedShelf]
  generalize (ix.declarationsOf scope).entries = es at h
  induction es with
  | nil => rfl
  | cons e es ih =>
      rw [fileDrafts_cons, Shelf.file_eq_self (h e (.head _)) (Table.insertAll_insertAll_self _ _)]
      exact ih fun e' he' => h e' (.tail _ he')

end

end SymbolIndex

/-! ### Keys of artifacts -/

/-- An artifact is of the kind of its key and carries its name. Fusion
looks for classes and interfaces by their keys, and for members by the
names in them; the two are the same if this holds. -/
def Artifact.FitsKey (key : DeclKey) : Artifact → Prop
  | .function a => key.kind = .function ∧ a.name = key.name
  | .classType a => key.kind = .classType ∧ a.name = key.name
  | .interfaceType a => key.kind = .interfaceType ∧ a.name = key.name

/-- A class keeps its name; its instance members are those that are not
static, and nothing is fused yet. -/
theorem Viewpoint.draftClass_value (v : Viewpoint) {decl : ClassDecl} {name : String}
    (h : decl.name = some name) :
    ∃ a, (v.draftClass decl).value = some a ∧ a.name = name
      ∧ a.members = (v.draftMembers name (decl.members.filter fun m => !m.isStatic)).value
      ∧ a.fused = none := by
  simp only [Viewpoint.draftClass, h]
  cases decl.base <;> exact ⟨_, rfl, rfl, rfl, rfl⟩

/-- An interface keeps its name and its members; its bases are the
mapped types of its extends clause. -/
theorem Viewpoint.draftInterface_value (v : Viewpoint) {decl : InterfaceDecl} {name : String}
    (h : decl.name = some name) (paired : Bool) :
    ∃ a, (v.draftInterface decl paired).value = some a ∧ a.name = name
      ∧ a.bases = (Draft.each (v.map { self := some name }) decl.bases).value
      ∧ a.members = (v.draftMembers name decl.members).value
      ∧ a.fusedIntoClass = paired := by
  simp only [Viewpoint.draftInterface, h]
  exact ⟨_, rfl, rfl, rfl, rfl, rfl⟩

/-- A declaration that fits its key has an artifact that fits it. In
particular it has one: it was filed under a name, so it has a name. -/
theorem Declaration.FitsKey.draft {key : DeclKey} {decl : Declaration} (h : decl.FitsKey key)
    (ix : SymbolIndex) (scope : Nat) :
    ∃ a : Artifact, (ix.draftOf scope (key, decl)).value = some a ∧ a.FitsKey key := by
  cases decl with
  | functions overloads => exact ⟨_, rfl, h, rfl⟩
  | classType decl =>
      obtain ⟨a, hvalue, hname, -⟩ := (Viewpoint.within ix scope).draftClass_value h.2
      exact ⟨.classType a, congrArg (Option.map Artifact.classType) hvalue, h.1, hname⟩
  | interfaceType decl =>
      obtain ⟨a, hvalue, hname, -⟩ := (Viewpoint.within ix scope).draftInterface_value h.2 _
      exact ⟨.interfaceType a, congrArg (Option.map Artifact.interfaceType) hvalue, h.1, hname⟩

/-! ### Emission of a project -/

namespace Project

/-- Two indexes that differ at most in artifacts. Emission and fusion
change nothing else in an index, so whatever is read off from the source
can be read off at any time. -/
structure SameSource (a b : SymbolIndex) : Prop where
  conventions : b.conventions = a.conventions
  byPath : b.byPath = a.byPath
  bare : b.scopes.map Scope.bare = a.scopes.map Scope.bare
  imports : ∀ id, b.importsOf id = a.importsOf id
  declarations : ∀ id, b.declarationsOf id = a.declarationsOf id

namespace SameSource

variable {a b : SymbolIndex}

/-- An index has the same source as itself. -/
theorem refl (a : SymbolIndex) : SameSource a a :=
  ⟨rfl, rfl, rfl, fun _ => rfl, fun _ => rfl⟩

/-- Phases can follow each other. -/
theorem trans {c : SymbolIndex} (h : SameSource a b) (h' : SameSource b c) : SameSource a c :=
  ⟨h'.conventions.trans h.conventions, h'.byPath.trans h.byPath, h'.bare.trans h.bare,
    fun id => (h'.imports id).trans (h.imports id),
    fun id => (h'.declarations id).trans (h.declarations id)⟩

/-- And the comparison goes both ways. -/
theorem symm (h : SameSource a b) : SameSource b a :=
  ⟨h.conventions.symm, h.byPath.symm, h.bare.symm, fun id => (h.imports id).symm,
    fun id => (h.declarations id).symm⟩

/-- Names mean the same in both, so drafts are the same. -/
theorem alike (h : SameSource a b) : a.Alike b :=
  .of_contents h.conventions.symm h.byPath.symm h.bare.symm (fun id => (h.imports id).symm)
    fun id => (h.declarations id).symm

/-- They have the same scopes. -/
theorem size (h : SameSource a b) : b.size = a.size := SymbolIndex.size_of_bare h.bare

/-- A consistent index stays so, as this is said of its bare scopes. -/
theorem consistent (h : SameSource a b) (ha : a.Consistent) : b.Consistent :=
  ha.of_bare h.conventions h.byPath h.bare

/-- A scope is emitted to the same shelf from both. -/
theorem emittedShelf (h : SameSource a b) (scope : Nat) (T : Shelf) :
    b.emittedShelf scope T = a.emittedShelf scope T :=
  (h.alike.emittedShelf (h.declarations scope).symm T).symm

/-- And to the same artifacts. -/
theorem emittedArtifacts (h : SameSource a b) (scope : Nat) :
    b.emittedArtifacts scope = a.emittedArtifacts scope :=
  (h.alike.emittedArtifacts (h.declarations scope).symm).symm

/-- With the same artifacts they are equal, since this is all in which
they may differ. -/
theorem eq_of_artifacts (h : SameSource a b) (ha : ∀ id, b.artifactsOf id = a.artifactsOf id) :
    b = a :=
  SymbolIndex.ext_contents h.conventions h.byPath h.bare h.imports h.declarations ha

/-- Files that are collected in one are collected in the other. -/
theorem hasCollected (h : SameSource a b) {files : List SourceFile} (hc : HasCollected a files) :
    HasCollected b files :=
  hc.of_contents h.conventions h.byPath h.bare h.imports h.declarations

end SameSource

/-- Storing artifacts changes what was emitted from one scope, and
nothing of the source. -/
theorem storeArtifacts_spec (p : Project) {scope : Nat} (hscope : scope < p.index.size)
    (as : List (DeclKey × Artifact)) :
    SameSource p.index (p.storeArtifacts scope as).index
      ∧ ∀ id, (p.storeArtifacts scope as).index.artifactsOf id
          = if scope = id then (p.index.artifactsOf id).insertAll as
            else p.index.artifactsOf id := by
  let step : SymbolIndex → DeclKey × Artifact → SymbolIndex := fun ix e =>
    ix.storeArtifact scope e.1 e.2
  have hbare : ∀ ix e, (step ix e).scopes.map Scope.bare = ix.scopes.map Scope.bare :=
    fun ix e => ix.bare_storeArtifact scope _ _
  -- Storing writes to the artifacts of one scope: what it leaves alone is kept by every
  -- step, and what it writes is a run of insertions.
  have hkept := fun {γ : Type} (f : SymbolIndex → γ) (h : ∀ ix e, f (step ix e) = f ix) =>
    SymbolIndex.foldl_step_eq step f h as p.index
  have hinsert := SymbolIndex.foldl_step_insertAll_at step SymbolIndex.artifactsOf scope id hbare
    (fun ix e hix i => ix.artifactsOf_storeArtifact hix _ _ i) as hscope
  rw [List.map_id] at hinsert
  exact ⟨⟨hkept (·.conventions) fun _ _ => rfl, hkept (·.byPath) fun _ _ => rfl,
    hkept (·.scopes.map Scope.bare) hbare,
    fun id => hkept (·.importsOf id) fun ix e => ix.importsOf_storeArtifact scope _ _ id,
    fun id => hkept (·.declarationsOf id) fun ix e => ix.declarationsOf_storeArtifact scope _ _ id⟩,
    hinsert⟩

/-- Drafting declarations of a scope files their imports on its shelf,
one label after the other. The index is the same throughout, so every
draft is the one of the start. -/
theorem emitEntries_spec {p : Project} {F : Nat → Shelf} (h : p.Shelved F) {scope : Nat}
    (hscope : scope < p.index.size) (es : List (DeclKey × Declaration)) :
    (p.emitEntries scope es).1.index = p.index
      ∧ (p.emitEntries scope es).1.Shelved
          (setShelf F scope (p.index.fileDrafts scope (F scope) es))
      ∧ (p.emitEntries scope es).2 = p.index.draftedArtifacts scope es := by
  induction es generalizing p F with
  | nil =>
      refine ⟨rfl, ?_, rfl⟩
      rw [SymbolIndex.fileDrafts, List.foldl_nil, setShelf_eq_self]
      exact h
  | cons e es ih =>
      obtain ⟨key, decl⟩ := e
      -- Drafting reads the index alone, so the tail is drafted as if it came first.
      have hsettled := h.settle hscope key.label (p.index.draftOf scope (key, decl))
      obtain ⟨hindex, hshelved, harts⟩ := ih hsettled hscope
      refine ⟨hindex, ?_, ?_⟩
      · rw [setShelf_setShelf, setShelf_self] at hshelved
        exact hshelved
      · show ((p.index.draftOf scope (key, decl)).value.map (key, ·)).toList
            ++ ((p.settle scope key.label (p.index.draftOf scope (key, decl))).1.emitEntries scope
              es).2 = _
        rw [harts, SymbolIndex.draftedArtifacts, SymbolIndex.draftedArtifacts, List.filterMap_cons]
        cases (p.index.draftOf scope (key, decl)).value <;> rfl

/-- What emitting some scopes does to a project: their artifacts and
shelves are those of the drafts at the start, added to what was there,
and nothing else changes. -/
structure Emitted (ids : List Nat) (F : Nat → Shelf) (p q : Project) : Prop where
  source : SameSource p.index q.index
  artifacts : ∀ id, q.index.artifactsOf id
    = if id ∈ ids then (p.index.artifactsOf id).insertAll (p.index.emittedArtifacts id)
      else p.index.artifactsOf id
  shelved : q.Shelved fun id => if id ∈ ids then p.index.emittedShelf id (F id) else F id

/-- Emitting one scope. -/
theorem emitScope_emitted {p : Project} {F : Nat → Shelf} (h : p.Shelved F) {scope : Nat}
    (hscope : scope < p.index.size) : Emitted [scope] F p (p.emitScope scope) := by
  have hentries : (p.index.scopes[scope]?.map fun s => s.declarations.entries).getD []
      = (p.index.declarationsOf scope).entries := by
    rw [SymbolIndex.declarationsOf]
    cases p.index.scopes[scope]? <;> rfl
  obtain ⟨hindex, hshelved, harts⟩ :=
    emitEntries_spec h hscope (p.index.declarationsOf scope).entries
  have hscope' : scope
      < (p.emitEntries scope (p.index.declarationsOf scope).entries).1.index.size := by
    rw [hindex]
    exact hscope
  obtain ⟨hsource, hstored⟩ := storeArtifacts_spec _ hscope'
    (p.emitEntries scope (p.index.declarationsOf scope).entries).2
  rw [hindex] at hsource hstored
  have hemit : p.emitScope scope
      = (p.emitEntries scope (p.index.declarationsOf scope).entries).1.storeArtifacts scope
          (p.emitEntries scope (p.index.declarationsOf scope).entries).2 := by
    rw [emitScope, hentries]
  -- Drafting changes the shelf and storing changes the artifacts; neither sees what the other
  -- did.
  rw [hemit]
  refine ⟨hsource, fun id => ?_, ?_⟩
  · rw [hstored, harts]
    simp only [List.mem_singleton, eq_comm, SymbolIndex.emittedArtifacts]
    split
    · rename_i heq
      rw [heq]
    · rfl
  · refine Shelved.of_bare (p := (p.emitEntries scope (p.index.declarationsOf scope).entries).1)
      ?_ rfl (by rw [hindex]; exact hsource.bare)
    have hF : (fun id => if id ∈ [scope] then p.index.emittedShelf id (F id) else F id)
        = setShelf F scope (p.index.fileDrafts scope (F scope)
            (p.index.declarationsOf scope).entries) := by
      funext id
      simp only [setShelf, List.mem_singleton]
      split
      · rename_i heq
        rw [heq]
        rfl
      · rfl
    rw [hF]
    exact hshelved

/-- Emitting more scopes. They have to be others: a scope that was
emitted twice would be drafted from the shelf of the first time. -/
theorem Emitted.trans {ids ids' : List Nat} {F : Nat → Shelf} {p q r : Project}
    (h : Emitted ids F p q)
    (h' : Emitted ids' (fun id => if id ∈ ids then p.index.emittedShelf id (F id) else F id) q r)
    (hdisjoint : ∀ id ∈ ids, id ∉ ids') : Emitted (ids ++ ids') F p r := by
  refine ⟨h.source.trans h'.source, fun id => ?_, ?_⟩
  · rw [h'.artifacts, h.artifacts, h.source.emittedArtifacts]
    by_cases hid : id ∈ ids
    · rw [if_neg (hdisjoint id hid), if_pos hid, if_pos (List.mem_append_left _ hid)]
    · simp only [hid, if_false, List.mem_append, false_or]
  · -- The second emission sees the index of the first run, but shelves that are filled already.
    have hF : (fun id => if id ∈ ids ++ ids' then p.index.emittedShelf id (F id) else F id)
        = fun id => if id ∈ ids' then
            q.index.emittedShelf id (if id ∈ ids then p.index.emittedShelf id (F id) else F id)
          else if id ∈ ids then p.index.emittedShelf id (F id) else F id := by
      funext id
      by_cases hid : id ∈ ids
      · rw [if_neg (hdisjoint id hid), if_pos hid, if_pos (List.mem_append_left _ hid)]
      · simp only [hid, if_false, List.mem_append, false_or, h.source.emittedShelf]
    rw [hF]
    exact h'.shelved

/-- Emitting any number of different scopes, by induction on them. Each
is drafted after the others, at an index that has the same source. -/
theorem foldl_emitScope_emitted {p : Project} {F : Nat → Shelf} (h : p.Shelved F) {ids : List Nat}
    (hids : ∀ id ∈ ids, id < p.index.size) (hnodup : ids.Nodup) :
    Emitted ids F p (ids.foldl emitScope p) := by
  induction ids generalizing p F with
  | nil => exact ⟨.refl _, fun _ => rfl, h⟩
  | cons id ids ih =>
      rw [List.nodup_cons] at hnodup
      -- One scope first, then the others; their artifacts do not meet because no scope comes
      -- twice.
      have hhead := emitScope_emitted h (hids id (.head _))
      have htail := ih hhead.shelved (fun id' hid' => by
        rw [hhead.source.size]
        exact hids id' (.tail _ hid')) hnodup.2
      refine hhead.trans htail ?_
      intro id' hid' hmem
      rw [List.mem_singleton] at hid'
      rw [hid'] at hmem
      exact hnodup.1 hmem

/-- The shelves and artifacts of all scopes after an emission. It is
said for every number, also for those that are no scopes: nothing is
declared there, so nothing is added. -/
theorem emitAll_emitted {p : Project} {F : Nat → Shelf} (h : p.Shelved F) :
    SameSource p.index p.emitAll.index
      ∧ (∀ id, p.emitAll.index.artifactsOf id
          = (p.index.artifactsOf id).insertAll (p.index.emittedArtifacts id))
      ∧ p.emitAll.Shelved fun id => p.index.emittedShelf id (F id) := by
  have hall : Emitted p.index.ids F p p.emitAll :=
    foldl_emitScope_emitted h (fun id hid => List.mem_range.mp hid) List.nodup_range
  -- A number that is no scope declares nothing, so the case that it is not emitted makes no
  -- difference.
  have hmem : ∀ id, id ∉ p.index.ids → p.index.declarationsOf id = .empty := by
    intro id hid
    rw [SymbolIndex.ids, List.mem_range, Nat.not_lt] at hid
    rw [SymbolIndex.declarationsOf, List.getElem?_eq_none hid]
    rfl
  refine ⟨hall.source, fun id => ?_, ?_⟩
  · rw [hall.artifacts]
    split
    · rfl
    · rename_i hid
      rw [SymbolIndex.emittedArtifacts, hmem id hid]
      rfl
  · have hF : (fun id => p.index.emittedShelf id (F id))
        = fun id => if id ∈ p.index.ids then p.index.emittedShelf id (F id) else F id := by
      funext id
      split
      · rfl
      · rename_i hid
        rw [SymbolIndex.emittedShelf, hmem id hid]
        rfl
    rw [hF]
    exact hall.shelved

end Project

end Externals
