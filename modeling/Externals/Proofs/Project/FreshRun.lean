import Externals.Project.Render
import Externals.Proofs.Project.Refusion

/-!
# `Externals.Proofs.Project.FreshRun`: the phases of a first run

A project that starts with nothing, collects files and emits them is
`Fresh`: every shelf holds the imports of the drafts and nothing else,
every artifact is the one of its draft, and everything is filed under
its own key. Most of what follows needs less than that. In a project
that is `Drafted`, the artifacts are those of the drafts, but the
shelves may hold imports of earlier runs.

Fusion then splices members into class artifacts. In terms of the
artifacts of one scope this is a fold of `fuseTable` over the classes
of that scope. It changes no key, and no artifact but the `fused` list
of classes.

* `Drafted.fits`, `nodup_fusedInterfaces`: artifacts are kept under
  their own names, so every class is fused with one interface.
* `fresh_emitAll`: the project after a first emission is fresh.
* `Fresh.resolved`: the index, the artifacts and the shelves after the
  fusion of a fresh project.
-/

set_option autoImplicit false

namespace Externals

/-! ### Splicing into the artifacts of a scope -/

/-- Artifacts with members spliced into the class of a name. Where there
is no such class nothing is done. -/
def fuseTable (t : Table DeclKey Artifact) (f : String × List String) : Table DeclKey Artifact :=
  match t.get? ⟨.classType, f.1⟩ with
  | some (.classType a) => t.insert ⟨.classType, f.1⟩ (.classType (a.fuse f.2))
  | _ => t

/-- The case that the class is there. -/
theorem fuseTable_of_class {t : Table DeclKey Artifact} {f : String × List String}
    {a : ClassArtifact} (h : t.get? ⟨.classType, f.1⟩ = some (.classType a)) :
    fuseTable t f = t.insert ⟨.classType, f.1⟩ (.classType (a.fuse f.2)) := by
  rw [fuseTable, h]

/-- A splice replaces one class, or changes nothing. -/
theorem fuseTable_cases (t : Table DeclKey Artifact) (f : String × List String) :
    fuseTable t f = t
      ∨ ∃ a, t.get? ⟨.classType, f.1⟩ = some (.classType a)
          ∧ fuseTable t f = t.insert ⟨.classType, f.1⟩ (.classType (a.fuse f.2)) := by
  cases hget : t.get? ⟨.classType, f.1⟩ with
  | none => exact .inl (by rw [fuseTable, hget])
  | some artifact =>
      cases artifact with
      | classType a => exact .inr ⟨a, rfl, fuseTable_of_class hget⟩
      | function a => exact .inl (by rw [fuseTable, hget])
      | interfaceType a => exact .inl (by rw [fuseTable, hget])

/-- A splice changes no key, and not their order. -/
theorem keys_fuseTable (t : Table DeclKey Artifact) (f : String × List String) :
    (fuseTable t f).keys = t.keys := by
  rcases fuseTable_cases t f with heq | ⟨a, hget, heq⟩
  · rw [heq]
  · rw [heq, Table.keys_insert, if_pos (Table.mem_keys_of_get? hget)]

/-- It leaves all other artifacts alone. -/
theorem get?_fuseTable_of_ne {t : Table DeclKey Artifact} {f : String × List String} {key : DeclKey}
    (h : key ≠ ⟨.classType, f.1⟩) : (fuseTable t f).get? key = t.get? key := by
  rcases fuseTable_cases t f with heq | ⟨a, -, heq⟩
  · rw [heq]
  · rw [heq, Table.get?_insert_of_ne _ (Ne.symm h)]

/-- An artifact as it was emitted: a class without what was spliced into
it. -/
def Artifact.unfused : Artifact → Artifact
  | .classType a => .classType { a with fused := none }
  | artifact => artifact

/-- Splicing does not rename. -/
theorem Artifact.fitsKey_unfused (a : Artifact) (key : DeclKey) :
    a.unfused.FitsKey key ↔ a.FitsKey key := by
  cases a <;> exact Iff.rfl

/-- A splice changes no artifact beyond what it splices. So an artifact
can be compared with the one that emission kept by leaving out what is
fused. -/
theorem unfused_get?_fuseTable (t : Table DeclKey Artifact) (f : String × List String)
    (key : DeclKey) :
    ((fuseTable t f).get? key).map Artifact.unfused = (t.get? key).map Artifact.unfused := by
  rcases fuseTable_cases t f with heq | ⟨a, hget, heq⟩
  · rw [heq]
  · rw [heq, Table.get?_insert]
    split
    · rename_i hkey
      rw [← hkey, hget]
      rfl
    · rfl

section

variable (fs : List (String × List String)) (t : Table DeclKey Artifact)

/-- Any number of splices change no key. -/
theorem keys_foldl_fuseTable : (fs.foldl fuseTable t).keys = t.keys := by
  induction fs generalizing t with
  | nil => rfl
  | cons f fs ih => rw [List.foldl_cons, ih, keys_fuseTable]

/-- And no artifact beyond what they splice. -/
theorem unfused_get?_foldl_fuseTable (key : DeclKey) :
    ((fs.foldl fuseTable t).get? key).map Artifact.unfused
      = (t.get? key).map Artifact.unfused := by
  induction fs generalizing t with
  | nil => rfl
  | cons f fs ih => rw [List.foldl_cons, ih, unfused_get?_fuseTable]

/-- What no splice is for is left alone. -/
theorem get?_foldl_fuseTable_of_ne {key : DeclKey} (h : ∀ f ∈ fs, key ≠ ⟨.classType, f.1⟩) :
    (fs.foldl fuseTable t).get? key = t.get? key := by
  induction fs generalizing t with
  | nil => rfl
  | cons f fs ih =>
      rw [List.foldl_cons, ih _ fun g hg => h g (.tail _ hg), get?_fuseTable_of_ne (h f (.head _))]

end

/-- Where every class is spliced into once, it receives exactly its own
members. A second splice would replace them, hence the condition on the
names. -/
theorem get?_foldl_fuseTable {fs : List (String × List String)} (hnames : (fs.map Prod.fst).Nodup)
    {f : String × List String} (hf : f ∈ fs) {t : Table DeclKey Artifact} {a : ClassArtifact}
    (ha : t.get? ⟨.classType, f.1⟩ = some (.classType a)) :
    (fs.foldl fuseTable t).get? ⟨.classType, f.1⟩ = some (.classType (a.fuse f.2)) := by
  induction fs generalizing t with
  | nil => cases hf
  | cons g fs ih =>
      rw [List.map_cons, List.nodup_cons] at hnames
      rw [List.foldl_cons]
      -- The members are spliced in at one step; the steps before and after it are for others.
      rcases List.mem_cons.mp hf with rfl | hmem
      · have hlater : ∀ g ∈ fs, (⟨.classType, f.1⟩ : DeclKey) ≠ ⟨.classType, g.1⟩ := by
          intro g hg heq
          rw [DeclKey.mk.injEq] at heq
          exact hnames.1 (heq.2 ▸ List.mem_map_of_mem hg)
        rw [get?_foldl_fuseTable_of_ne _ _ hlater, fuseTable_of_class ha,
          Table.get?_insert_self]
      · have hne : (⟨.classType, f.1⟩ : DeclKey) ≠ ⟨.classType, g.1⟩ := by
          intro heq
          rw [DeclKey.mk.injEq] at heq
          exact hnames.1 (heq.2 ▸ List.mem_map_of_mem hmem)
        exact ih hnames.2 hmem (by rw [get?_fuseTable_of_ne hne]; exact ha)

namespace Project

/-! ### Splicing into an index -/

/-- An index with members spliced into classes of its scopes, one class
after the other. -/
def spliceAll (ix : SymbolIndex) (all : List (Nat × String × List String)) : SymbolIndex :=
  all.foldl (fun ix f => ix.modifyScope f.1 fun s => fuseClass s f.2.1 f.2.2) ix

/-- A fusion performs all its tasks and splices all that they found at
the end. The tasks do not touch the index, so the splices are those of
the index of the start. -/
theorem resolveFusions_eq (p : Project) :
    p.resolveFusions
      = { p.fusionTasks.foldl perform p with
          index := spliceAll p.index (p.fusions p.index.ids).2 } := by
  have hfst := p.fusions_fst p.index.ids
  rw [← fusionTasks] at hfst
  rw [resolveFusions]
  simp only [hfst, index_performAll]
  rfl

/-- In a scope, a splice is one of its artifacts. -/
theorem artifacts_fuseClass (s : Scope) (name : String) (members : List String) :
    (fuseClass s name members).artifacts = fuseTable s.artifacts (name, members) := by
  simp only [fuseClass, fuseTable]
  cases s.artifacts.get? ⟨.classType, name⟩ with
  | none => rfl
  | some artifact => cases artifact <;> rfl

/-- Splices are made from the first on. -/
theorem spliceAll_cons (ix : SymbolIndex) (f : Nat × String × List String)
    (all : List (Nat × String × List String)) :
    spliceAll ix (f :: all)
      = spliceAll (ix.modifyScope f.1 fun s => fuseClass s f.2.1 f.2.2) all := rfl

/-- One splice changes the artifacts of its scope. -/
theorem artifactsOf_spliceOne (ix : SymbolIndex) (f : Nat × String × List String) (id : Nat) :
    (ix.modifyScope f.1 fun s => fuseClass s f.2.1 f.2.2).artifactsOf id
      = if f.1 = id then fuseTable (ix.artifactsOf id) f.2 else ix.artifactsOf id := by
  rw [SymbolIndex.artifactsOf, SymbolIndex.getElem?_modifyScope, SymbolIndex.artifactsOf]
  split
  · cases ix.scopes[id]? with
    | none => rfl
    | some s => exact artifacts_fuseClass s f.2.1 f.2.2
  · rfl

/-- Splices only concern artifacts: everything else of the scope is as
before. -/
theorem sameSource_spliceOne (ix : SymbolIndex) (f : Nat × String × List String) :
    SameSource ix (ix.modifyScope f.1 fun s => fuseClass s f.2.1 f.2.2) := by
  -- A splice rewrites artifacts; of a scope's other parts each is the same before and after.
  have hkept : ∀ s : Scope, (fuseClass s f.2.1 f.2.2).bare = s.bare
      ∧ (fuseClass s f.2.1 f.2.2).imports = s.imports
      ∧ (fuseClass s f.2.1 f.2.2).declarations = s.declarations := by
    intro s
    rw [fuseClass]
    split <;> exact ⟨rfl, rfl, rfl⟩
  refine ⟨rfl, rfl, ix.bare_modifyScope f.1 fun s => (hkept s).1, fun id => ?_, fun id => ?_⟩
  · rw [SymbolIndex.importsOf, ix.map_modifyScope_of_eq f.1 _ Scope.imports fun s => (hkept s).2.1]
    rfl
  · rw [SymbolIndex.declarationsOf,
      ix.map_modifyScope_of_eq f.1 _ Scope.declarations fun s => (hkept s).2.2]
    rfl

/-- So do any number of them. -/
theorem sameSource_spliceAll (ix : SymbolIndex) (all : List (Nat × String × List String)) :
    SameSource ix (spliceAll ix all) := by
  induction all generalizing ix with
  | nil => exact .refl ix
  | cons f all ih =>
      rw [spliceAll_cons]
      exact (sameSource_spliceOne ix f).trans (ih _)

/-- The splices of a scope change the artifacts of that scope, in their
order. Those of other scopes can be left out. -/
theorem artifactsOf_spliceAll (ix : SymbolIndex) (all : List (Nat × String × List String))
    (id : Nat) :
    (spliceAll ix all).artifactsOf id
      = ((all.filter fun f => f.1 = id).map Prod.snd).foldl fuseTable (ix.artifactsOf id) := by
  induction all generalizing ix with
  | nil => rfl
  | cons f all ih =>
      rw [spliceAll_cons, ih, artifactsOf_spliceOne, List.filter_cons]
      by_cases hid : f.1 = id
      · simp [hid]
      · simp [hid]

/-- The members spliced into the classes of a scope: for each interface
that is fused, its own members and what was found for its bases. -/
def splicesOf (p : Project) (id : Nat) : List (String × List String) :=
  (p.fusedInterfaces id).map fun pair =>
    (pair.1, p.interfaceMembers id pair.1
      ++ p.index.additions (p.findings p.fusionTasks) id pair.1)

/-- There is one splice for each interface that is fused. -/
theorem map_fst_splicesOf (p : Project) (id : Nat) :
    (p.splicesOf id).map Prod.fst = (p.fusedInterfaces id).map Prod.fst := by
  rw [splicesOf, List.map_map]
  rfl

/-- The index, the artifacts and the shelves after a fusion, from those
before. Every class must be fused with one interface at most. -/
theorem Shelved.resolveFusions {p : Project} {F : Nat → Shelf} (h : p.Shelved F)
    (hnames : ∀ id, ((p.fusedInterfaces id).map Prod.fst).Nodup) :
    SameSource p.index p.resolveFusions.index
      ∧ (∀ id, p.resolveFusions.index.artifactsOf id
          = (p.splicesOf id).foldl fuseTable (p.index.artifactsOf id))
      ∧ p.resolveFusions.Shelved fun id =>
          p.index.splicedShelf (F id) (tasksFor id (p.fusedInterfaces id)) := by
  have hsource := sameSource_spliceAll p.index (p.fusions p.index.ids).2
  rw [resolveFusions_eq]
  refine ⟨hsource, fun id => ?_, h.fuseAll.1.of_bare rfl ?_⟩
  · show (spliceAll p.index (p.fusions p.index.ids).2).artifactsOf id = _
    -- The splices of all scopes are made in one run; those that touch `id` are the ones of its
    -- own interfaces.
    rw [artifactsOf_spliceAll, p.fusions_snd hnames p.index.nodup_ids, ← fusionTasks,
      p.index.filter_ids_flatMap Prod.fst]
    · rw [List.map_map]
      rfl
    · intro i f hf
      obtain ⟨pair, -, rfl⟩ := List.mem_map.mp hf
      rfl
    · intro i hi
      rw [fusedInterfaces_of_size_le hi, List.map_nil]
  · rw [index_performAll]
    exact hsource.bare

/-! ### The start -/

/-- A new project has its global scope, and no module leads anywhere
else. -/
theorem rooted_initial (c : Conventions) : (Project.initial c).index.Rooted where
  nonempty := Nat.zero_lt_one
  byPath_lt := fun path id h => by
    have hmem := Table.mem_entries_of_get? h
    simp only [Project.initial, SymbolIndex.initial, Table.insert, Table.put, Table.empty,
      List.mem_singleton, Prod.mk.injEq] at hmem
    rw [hmem.2]
    exact Nat.zero_lt_one

/-- Its shelves are empty. -/
theorem shelved_initial (c : Conventions) : (Project.initial c).Shelved fun _ => .empty where
  tidy := Headers.tidy_empty.addRoot "global"
  leaves := fun id s hs => by
    cases id with
    | zero =>
        cases hs
        rfl
    | succ id => cases hs
  outside := fun _ _ => rfl

/-- The global scope starts empty: nothing is declared, and nothing
emitted. -/
theorem contents_initial (c : Conventions) (id : Nat) :
    (Project.initial c).index.declarationsOf id = .empty
      ∧ (Project.initial c).index.artifactsOf id = .empty := by
  cases id <;> exact ⟨rfl, rfl⟩

/-- Nothing is imported either. -/
theorem importsOf_initial (c : Conventions) (id : Nat) :
    (Project.initial c).index.importsOf id = .empty := by
  cases id <;> rfl

/-! ### Drafted projects -/

/-- The interfaces of a scope that render in a class, from its
artifacts. -/
theorem fusedInterfaces_eq (p : Project) (id : Nat) :
    p.fusedInterfaces id = (p.index.artifactsOf id).values.filterMap fun
      | .interfaceType a =>
          if a.fusedIntoClass then some (a.name, a.bases.map KotlinType.base) else none
      | _ => none := by
  rw [fusedInterfaces, SymbolIndex.artifactsOf]
  cases p.index.scopes[id]? <;> rfl

/-- Where artifacts fit their keys, every class is fused with one
interface. Two interfaces of one name would be kept under one key. -/
theorem nodup_fusedInterfaces {p : Project} {id : Nat}
    (hfits : ∀ key a, (p.index.artifactsOf id).get? key = some a → a.FitsKey key) :
    ((p.fusedInterfaces id).map Prod.fst).Nodup := by
  have hkeys := (p.index.artifactsOf id).nodup_keys
  rw [List.Nodup, List.pairwise_map] at hkeys
  rw [fusedInterfaces_eq, Table.values, List.filterMap_map, List.Nodup, List.pairwise_map,
    List.pairwise_filterMap]
  refine List.Pairwise.imp_of_mem (fun {e e'} he he' hne pair hpair pair' hpair' heq => ?_) hkeys
  -- Both entries are interfaces under the same name, so under the same key.
  have hkey : ∀ e ∈ (p.index.artifactsOf id).entries, ∀ pair : String × List String,
      (match e.2 with
        | .interfaceType a =>
            if a.fusedIntoClass then some (a.name, a.bases.map KotlinType.base) else none
        | _ => none) = some pair → e.1 = ⟨.interfaceType, pair.1⟩ := by
    intro e he pair hpair
    have hentry := hfits _ _ (Table.get?_of_mem_entries he)
    split at hpair
    · rename_i a heq
      split at hpair
      · rw [heq] at hentry
        cases hpair
        obtain ⟨hkind, hname⟩ := hentry
        cases hk : e.1
        simp_all
      · cases hpair
    · cases hpair
  exact hne (by rw [hkey e he pair hpair, hkey e' he' pair' hpair', heq])

/-- A project after an emission: every artifact is that of the
declaration under its key, as it is drafted at the index. -/
structure Drafted (p : Project) : Prop where
  wellKeyed : p.index.WellKeyed
  shelved : ∃ F, p.Shelved F
  artifacts : ∀ id key, (p.index.artifactsOf id).get? key
    = ((p.index.declarationsOf id).get? key).bind fun decl =>
        (p.index.draftOf id (key, decl)).value

namespace Drafted

variable {p : Project}

/-- Every artifact fits the key it is kept under. -/
theorem fits (h : p.Drafted) {id : Nat} {key : DeclKey} {a : Artifact}
    (ha : (p.index.artifactsOf id).get? key = some a) : a.FitsKey key := by
  rw [h.artifacts] at ha
  obtain ⟨decl, hdecl, hdraft⟩ := Option.bind_eq_some_iff.mp ha
  obtain ⟨a', hvalue, hfits⟩ := (h.wellKeyed id key decl hdecl).draft p.index id
  rw [hdraft] at hvalue
  cases hvalue
  exact hfits

/-- What has an artifact is declared, as an artifact is drafted from a
declaration. -/
theorem mem_keys_declarationsOf (h : p.Drafted) {id : Nat} {key : DeclKey}
    (hkey : key ∈ (p.index.artifactsOf id).keys) : key ∈ (p.index.declarationsOf id).keys := by
  by_cases hdecl : key ∈ (p.index.declarationsOf id).keys
  · exact hdecl
  · rw [← Table.get?_eq_none_iff] at hdecl
    refine absurd hkey (Table.get?_eq_none_iff.mp ?_)
    rw [h.artifacts, hdecl]
    rfl

/-- Every class of a drafted project is fused with one interface. -/
theorem nodup_names (h : p.Drafted) (id : Nat) : ((p.fusedInterfaces id).map Prod.fst).Nodup :=
  nodup_fusedInterfaces fun _ _ => h.fits

/-- The index and the artifacts after the fusion of a drafted project.
What the shelves hold does not matter for this. -/
theorem resolved (h : p.Drafted) :
    SameSource p.index p.resolveFusions.index
      ∧ ∀ id, p.resolveFusions.index.artifactsOf id
          = (p.splicesOf id).foldl fuseTable (p.index.artifactsOf id) := by
  obtain ⟨_, hshelved⟩ := h.shelved
  obtain ⟨hsource, hartifacts, -⟩ := hshelved.resolveFusions h.nodup_names
  exact ⟨hsource, hartifacts⟩

end Drafted

/-! ### Fresh projects -/

/-- A project right after its first emission: nothing was filed or
stored before, so every shelf and every artifact comes from this
emission. -/
structure Fresh (p : Project) : Prop where
  shelved : p.Shelved fun id => p.index.emittedShelf id .empty
  artifacts : ∀ id, p.index.artifactsOf id = Table.empty.insertAll (p.index.emittedArtifacts id)
  wellKeyed : p.index.WellKeyed

/-- The project after a first emission is fresh, and has collected the
files. -/
theorem fresh_emitAll (c : Conventions) (files : List SourceFile) :
    Fresh ((Project.initial c).collect files).emitAll
      ∧ HasCollected ((Project.initial c).collect files).emitAll.index files := by
  have hcollected := (Project.initial c).collected files (rooted_initial c)
  obtain ⟨hsource, hartifacts, hshelved⟩ :=
    emitAll_emitted (hcollected.shelved _ (shelved_initial c))
  -- Nothing is declared at the start, so every declaration comes from the files.
  have hkeyed : ((Project.initial c).collect files).index.WellKeyed := by
    refine hcollected.wellKeyed fun id key decl hget => ?_
    rw [(contents_initial c id).1, Table.get?_empty] at hget
    cases hget
  refine ⟨⟨?_, fun id => ?_, fun id key decl hget => ?_⟩,
    hsource.hasCollected hcollected.hasCollected⟩
  · simp only [hsource.emittedShelf]
    exact hshelved
  · rw [hartifacts, hsource.emittedArtifacts, hcollected.artifacts, (contents_initial c id).2]
  · rw [hsource.declarations] at hget
    exact hkeyed id key decl hget

/-- The artifacts of a first emission are those of the drafts. There is
one under each key, since each key is declared once. -/
theorem Fresh.drafted {p : Project} (h : p.Fresh) : p.Drafted where
  wellKeyed := h.wellKeyed
  shelved := ⟨_, h.shelved⟩
  artifacts := fun id key => by
    rw [h.artifacts, Table.get?_insertAll, Table.get?_empty, Option.or_none,
      SymbolIndex.latest?_emittedArtifacts]

/-- An emission alone files nothing for a fusion. -/
theorem fuseLabel_not_mem_emittedShelf (p : Project) (id : Nat) (name : String) :
    fuseLabel name ∉ (p.index.emittedShelf id .empty).keys := by
  rw [← Table.get?_eq_none_iff, SymbolIndex.get?_emittedShelf_fuseLabel, Table.get?_empty]

/-- The shelf of a scope at the end of the first run: the imports of its
drafts, and behind them those of what was spliced into its classes. -/
def finalShelf (p : Project) (id : Nat) : Shelf :=
  p.index.splicedShelf (p.index.emittedShelf id .empty) (tasksFor id (p.fusedInterfaces id))

/-- The index, the artifacts and the shelves after the fusion of a fresh
project. -/
theorem Fresh.resolved {p : Project} (h : p.Fresh) :
    SameSource p.index p.resolveFusions.index
      ∧ (∀ id, p.resolveFusions.index.artifactsOf id
          = (p.splicesOf id).foldl fuseTable (p.index.artifactsOf id))
      ∧ p.resolveFusions.Shelved p.finalShelf :=
  h.shelved.resolveFusions h.drafted.nodup_names

/-- A run collects, emits and fuses. -/
theorem transform_fst (p : Project) (files : List SourceFile) :
    (p.transform files).1 = (p.collect files).emitAll.resolveFusions := by rw [transform]

/-- Then it renders what it has. -/
theorem transform_snd (p : Project) (files : List SourceFile) :
    (p.transform files).2 = (p.collect files).emitAll.resolveFusions.render := by rw [transform]

/-! ### A base that is shadowed -/

/-- A method without parameters. -/
def plainMethod (name : String) (returns : TypeRef) : Member :=
  .method ⟨.identifier name, [], returns, false, false, false, false⟩

/-- A reference to a name without arguments, spelled as the name. -/
def plainReference (name : String) : TypeRef := .resolved (.reference name name [])

/-- The modules `a` and `m` both declare an interface `A`. The class `C`
of `m` has an interface of the given bases; `A` is the one of `m`, but a
member of `B` in `b` speaks of the one of `a`. -/
def shadowedBases (bases : List String) : List SourceFile :=
  [⟨"m.d.ts",
    [⟨"a", .ambient,
      [.interfaceDecl
        ⟨some "A", [], [plainMethod "fromModule" (.resolved (.plain "void" .void))]⟩]⟩,
     ⟨"b", .ambient,
      [.importDecl ⟨"a", [.named "A" none]⟩,
       .interfaceDecl ⟨some "B", [], [plainMethod "make" (plainReference "A")]⟩]⟩,
     ⟨"m", .ambient,
      [.importDecl ⟨"b", [.named "B" none]⟩,
       .interfaceDecl ⟨some "A", [], [plainMethod "own" (.resolved (.plain "void" .void))]⟩,
       .classDecl ⟨some "C", none, [], []⟩,
       .interfaceDecl ⟨some "C", bases.map plainReference, []⟩]⟩]⟩]

end Project

end Externals
