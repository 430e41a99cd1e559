import Externals.Proofs.Project.Collection

/-!
# `Externals.Proofs.Project.Recollection`: collecting files again

Files may be collected into a project that has seen them before. An
index `Records` files if it says already all that they say: each of
their modules has a scope, each name that they bind by an import stands
for what the last binding says, and each key is declared the way they
declare it. What else the index says does not matter.

* `collect_eq_self_iff`: collecting files leaves an index alone exactly
  if it records them.
* `collect_collect`: after files were collected, they are recorded, and
  they still are after any emissions and fusions (`Processed`). So
  collecting them again changes neither the index nor the headers.
-/

set_option autoImplicit false

namespace Externals

/-- The index says already what files say. Their statements are read at
the index itself, so the scopes they belong to are those that it has for
their modules. -/
structure SymbolIndex.Records (ix : SymbolIndex) (files : List SourceFile) : Prop where
  registered : ix.FilesRegistered files
  imports : ∀ id name target,
    Table.latest? name (importsFor id (ix.fileFilings files)) = some target →
      (ix.importsOf id).get? name = some target
  declarations : ∀ id key decl, declaredUnder key (ix.statementsOf files id) = some decl →
    (ix.declarationsOf id).get? key = some decl

namespace Project

/-- The last entry of a key, of all that is gathered from files, is what
their statements declare. -/
theorem latest?_declarationsFor_gatheredFrom (ix : SymbolIndex) (files : List SourceFile)
    (id : Nat) (key : DeclKey) :
    Table.latest? key (declarationsFor id (gatheredFrom ix files).entries)
      = declaredUnder key (ix.statementsOf files id) := by
  have hexact := Gathered.exact_foldl (ix.fileFilings files)
  rw [latest?_declarationsFor, Table.latest?_entries]
  exact hexact.get?_eq id key

/-- Filing what files say changes nothing in an index that records them,
and only there. A table is left alone by entries exactly if it has the
last of each key already. -/
theorem hasCollected_iff_records {ix : SymbolIndex} (hr : ix.Rooted) {files : List SourceFile} :
    HasCollected ix files ↔ ix.Records files := by
  -- A table unchanged by inserting entries already has the last value of every key among
  -- them.
  constructor
  · intro h
    refine ⟨h.registered, fun id => Table.insertAll_eq_self_iff.mp (h.imports id),
      fun id key decl hdecl => ?_⟩
    rw [← latest?_declarationsFor_gatheredFrom] at hdecl
    exact Table.insertAll_eq_self_iff.mp (h.declarations id) key decl hdecl
  · intro h
    refine ⟨hr, h.registered, fun id => Table.insertAll_eq_self (h.imports id), fun id => ?_⟩
    refine Table.insertAll_eq_self fun key decl hdecl => ?_
    rw [latest?_declarationsFor_gatheredFrom] at hdecl
    exact h.declarations id key decl hdecl

/-- Collecting files leaves an index alone exactly if it records them.
If collecting made a scope, the index would have more scopes than
before. -/
theorem collect_eq_self_iff {p : Project} (hr : p.index.Rooted) {files : List SourceFile} :
    (p.collect files).index = p.index ↔ p.index.Records files := by
  rw [← hasCollected_iff_records hr]
  refine ⟨fun h => ?_, fun h => (collect_again h).1⟩
  -- What was collected is recorded, and the index is the one after collecting.
  rw [← h]
  exact (p.collected files hr).hasCollected

/-! ### Emissions and fusions in between -/

/-- Emissions and fusions, in any number and order. These are the phases
that read no files. -/
inductive Processed (p : Project) : Project → Prop
  | refl : Processed p p
  | emitAll {q : Project} (h : Processed p q) : Processed p q.emitAll
  | resolveFusions {q : Project} (h : Processed p q) : Processed p q.resolveFusions

/-- Emission leaves the source alone. -/
theorem Standing.sameSource_emitAll {p : Project} (h : p.Standing) :
    SameSource p.index p.emitAll.index := by
  obtain ⟨F, hF⟩ := h.shelved
  exact (emitAll_emitted hF).1

/-- So does fusion. -/
theorem Standing.sameSource_resolveFusions {p : Project} (h : p.Standing) :
    SameSource p.index p.resolveFusions.index := by
  obtain ⟨F, hF⟩ := h.shelved
  exact (hF.resolveFusions fun id => nodup_fusedInterfaces (h.fits id)).1

/-- They leave alone what was collected, and the project stays in
order. -/
theorem Processed.sameSource {p q : Project} (hp : p.Standing) (h : Processed p q) :
    q.Standing ∧ SameSource p.index q.index := by
  induction h with
  | refl => exact ⟨hp, .refl _⟩
  | emitAll _ ih =>
      obtain ⟨hq, hsource⟩ := ih
      exact ⟨hq.emitAll, hsource.trans hq.sameSource_emitAll⟩
  | resolveFusions _ ih =>
      obtain ⟨hq, hsource⟩ := ih
      exact ⟨hq.resolveFusions, hsource.trans hq.sameSource_resolveFusions⟩

/-- Collecting is idempotent. After files were collected into a project,
whatever it went through before, collecting them again changes neither
the index, with all its tables in their order, nor the headers; and it
does not after any emissions and fusions either. The first time, the
index stays as it is exactly if it recorded the files before. -/
theorem collect_collect {c : Conventions} {p : Project} (h : Reached c p)
    (files : List SourceFile) :
    ((p.collect files).index = p.index ↔ p.index.Records files)
      ∧ ∀ q, Processed (p.collect files) q →
          q.index.Records files
            ∧ (q.collect files).index = q.index ∧ (q.collect files).headers = q.headers := by
  refine ⟨collect_eq_self_iff h.standing.rooted, fun q hq => ?_⟩
  have hcollected := (p.collected files h.standing.rooted).hasCollected
  have hsource := (hq.sameSource (h.collect files).standing).2
  have hagain := hsource.hasCollected hcollected
  exact ⟨(hasCollected_iff_records hagain.rooted).mp hagain, collect_again hagain⟩

/-- One scope from two files, by two names of one path. The first binds
a name twice and holds a namespace and a block of the global scope. -/
def mergedFiles : List SourceFile :=
  [⟨"a.d.ts",
    [⟨"a-b", .ambient,
      [.importDecl ⟨"x", [.named "X" (some "T")]⟩,
       .function ⟨some "f", [], plainReference "T", false⟩,
       .interfaceDecl ⟨some "I", [], [plainMethod "a" (plainReference "T")]⟩,
       .moduleDecl "N" .namespaced [.classDecl ⟨some "C", none, [], []⟩],
       .moduleDecl "global" .global [.function ⟨some "g", [], plainReference "T", false⟩],
       .importDecl ⟨"y", [.whole "T"]⟩]⟩]⟩,
   ⟨"b.d.ts",
    [⟨"a_b", .ambient,
      [.function ⟨some "f", [], plainReference "T", true⟩,
       .interfaceDecl ⟨some "I", [], [plainMethod "b" (plainReference "T")]⟩]⟩]⟩]

/-- The files are new to the project at first. After they were collected
and emitted, they are recorded. -/
theorem collect_collect_mergedFiles :
    let p := (Project.initial {}).collect earlierFiles
    let q := (p.collect mergedFiles).emitAll
    Reached {} p ∧ ¬ p.index.Records mergedFiles
      ∧ (q.index.importsOf 2).get? "T" = some (.whole "y")
      ∧ (q.collect mergedFiles).index = q.index ∧ (q.collect mergedFiles).headers = q.headers := by
  intro p q
  have hp : Reached {} p := .collect earlierFiles .initial
  obtain ⟨hfirst, hagain⟩ := collect_collect hp mergedFiles
  refine ⟨hp, fun hrecords => ?_, ?_, (hagain q (.emitAll .refl)).2⟩
  · -- Two scopes are new.
    have hsize : (p.collect mergedFiles).index.size ≠ p.index.size := by decide +kernel
    exact hsize (congrArg SymbolIndex.size (hfirst.mpr hrecords))
  · decide +kernel

end Project

end Externals
