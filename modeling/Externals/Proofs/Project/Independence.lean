import Externals.Proofs.Project.Phases

/-!
# `Externals.Proofs.Project.Independence`: what an emission depends on

The emission of a declaration looks names up and asks for imports. It
does not look at what the names stand for, nor at the imports that were
asked for before. This module states that for two projects whose indexes
have the `SameNames`: the same tree of scopes, the same imports, and the
same keys declared in every scope. Bodies of declarations, artifacts,
headers and events are free to differ.

The one place where an emission looks at a declaration of another name
is the class that an interface is fused into, and there only whether
there is one. So declarations have to be of the kinds of their keys
(`KeyedByKind`), or a key would not tell.

Two indexes of one tree also answer alike by path. That is no part of
`SameNames`: it holds because paths belong to scopes
(`SymbolIndex.Consistent`).

* `Headers.file_file`: filing the same lines below the same header again
  changes nothing, in any arena that has the header.
* `SymbolIndex.SameNames.alike`: all questions about names have the same
  answers.
* `Project.emitDeclaration_of_sameNames`: one artifact and one sequence of
  requested imports for both projects, and nothing new the second time.
-/

set_option autoImplicit false

namespace Externals

/-! ### Filing again -/

namespace Headers

/-- Two arenas with the same headers at each place are the same. -/
theorem ext_getElem? {h h' : Headers} (hget : ∀ i : Nat, h.headers[i]? = h'.headers[i]?) :
    h = h' := by
  cases h
  cases h'
  congr
  exact List.ext_getElem? hget

/-- Recording lines again changes nothing: each replaces itself, and the
last line of each name is the same. -/
theorem addImports_addImports_self (h : Headers) (id : Nat) (lines : List ImportLine) :
    (h.addImports id lines).addImports id lines = h.addImports id lines := by
  refine ext_getElem? fun i => ?_
  rw [getElem?_addImports, getElem?_addImports]
  split
  · simp only [Option.map_map]
    congr 1
    funext p
    simp [Table.insertAll_insertAll_self]
  · rfl

/-- Lines do not matter to which children a header has. -/
theorem childrenOf_addImports (h : Headers) (id : Nat) (lines : List ImportLine) (parent : Nat) :
    (h.addImports id lines).childrenOf parent = h.childrenOf parent := by
  have hchildren := h.children_addImports id lines parent
  unfold children at hchildren
  rw [childrenOf, childrenOf, hchildren, size_addImports]

/-- The lines of a header do not matter to its children. A child that is
found before some lines were recorded in it is found afterwards. -/
theorem child_addImports (h : Headers) {parent c : Nat} {label : String} (lines : List ImportLine)
    (hc : h.child parent label = (h, c)) :
    (h.addImports c lines).child parent label = (h.addImports c lines, c) := by
  rw [child_eq] at hc ⊢
  rw [childrenOf_addImports]
  simp only [label?_addImports]
  cases hfind : (h.childrenOf parent).find? fun c => h.label? c == some label with
  | some found =>
      simp only [hfind, Prod.mk.injEq, true_and] at hc
      simp [hc]
  | none =>
      -- A child that is made is a header more, so the arena would not be the same.
      simp only [hfind, Prod.mk.injEq] at hc
      have hsize := h.size_addChild parent label
      rw [hc.1] at hsize
      omega

/-- A child that was made is found. It has the label, and no child
before it had one, so it is the first that has. -/
theorem child_addChild (h : Headers) {parent : Nat} (hparent : parent < h.size) {label : String}
    (hnone : (h.childrenOf parent).find? (fun c => h.label? c == some label) = none) :
    (h.addChild parent label).child parent label = (h.addChild parent label, h.size) := by
  have hnoted := h.children_addChild hparent label parent
  rw [if_pos rfl] at hnoted
  have hmem : ∀ c, c ∈ (h.addChild parent label).childrenOf parent
      ↔ (c ∈ h.children parent ∨ c = h.size) ∧ parent < c ∧ c < h.size + 1 := by
    intro c
    unfold children at hnoted
    rw [childrenOf, hnoted, size_addChild]
    simp [children, or_and_right]
  -- Of all children, old or noted too early, only the new number has the label.
  have honly : ∀ c ∈ (h.addChild parent label).childrenOf parent,
      ((h.addChild parent label).label? c == some label) = true → c = h.size := by
    intro c hc hlabel
    obtain ⟨hin, hlt, hle⟩ := (hmem c).mp hc
    refine Classical.byContradiction fun hne => ?_
    have hold : c ∈ h.childrenOf parent := by
      have hin' : c ∈ h.children parent := hin.resolve_right hne
      unfold children at hin'
      simp only [childrenOf, List.mem_filter, hin', true_and, Bool.and_eq_true, decide_eq_true_eq]
      omega
    rw [label?_addChild, if_neg hne] at hlabel
    exact List.find?_eq_none.mp hnone c hold hlabel
  have hfound : ((h.addChild parent label).childrenOf parent).find?
      (fun c => (h.addChild parent label).label? c == some label) = some h.size := by
    cases hfind : ((h.addChild parent label).childrenOf parent).find?
        (fun c => (h.addChild parent label).label? c == some label) with
    | some c =>
        have hlabel := List.find?_some hfind
        rw [honly c (List.mem_of_find?_eq_some hfind) hlabel]
    | none =>
        have hlast := List.find?_eq_none.mp hfind h.size ((hmem h.size).mpr ⟨.inr rfl, by omega⟩)
        rw [label?_addChild, if_pos rfl] at hlast
        simp at hlast
  rw [child_eq, hfound]

/-- Opening a child again finds it, whether the first time made it or
found it. -/
theorem child_child (h : Headers) {parent : Nat} (hparent : parent < h.size) (label : String) :
    (h.child parent label).1.child parent label = h.child parent label := by
  -- The first call finds the child or makes it; in both cases the second one finds it.
  cases hfind : (h.childrenOf parent).find? fun c => h.label? c == some label with
  | some c =>
      have hopened : h.child parent label = (h, c) := by rw [child_eq, hfind]
      rw [hopened]
      exact hopened
  | none =>
      have hmade : h.child parent label = (h.addChild parent label, h.size) := by
        rw [child_eq, hfind]
      rw [hmade]
      exact h.child_addChild hparent hfind

/-- Filing lines again changes nothing: the child is found, and it holds
the lines. -/
theorem file_file (h : Headers) {parent : Nat} (hparent : parent < h.size) (label : String)
    (lines : List ImportLine) :
    (h.file parent label lines).file parent label lines = h.file parent label lines := by
  have hfound : (h.child parent label).1.child parent label
      = ((h.child parent label).1, (h.child parent label).2) := h.child_child hparent label
  unfold file
  rw [child_addImports _ lines hfound]
  exact addImports_addImports_self _ _ lines

end Headers

/-! ### The same names -/

namespace SymbolIndex

/-- Two indexes with the same conventions, the same tree of scopes, the
same imports, and the same keys declared in every scope. What is
declared under a key is left open, and so is the order of the keys. -/
structure SameNames (a b : SymbolIndex) : Prop extends SameOutline a b where
  imports : ∀ id name, (a.importsOf id).get? name = (b.importsOf id).get? name
  keys : ∀ id key, key ∈ (a.declarationsOf id).keys ↔ key ∈ (b.declarationsOf id).keys

/-- A tree of scopes determines which paths lead to them: the index by
path is not independent data. -/
theorem Consistent.byPath_eq {a b : SymbolIndex} (ha : a.Consistent) (hb : b.Consistent)
    (h : a.SameOutline b) (path : String) : a.byPath.get? path = b.byPath.get? path := by
  refine Option.ext fun id => ?_
  show a.byPath.get? path = some id ↔ b.byPath.get? path = some id
  rw [ha.byPath_iff, hb.byPath_iff, h.size, h.outputPath]

namespace SameNames

variable {a b : SymbolIndex}

/-- Having the same names goes both ways. -/
theorem symm (h : a.SameNames b) : b.SameNames a where
  toSameOutline := h.toSameOutline.symm
  imports := fun id name => (h.imports id name).symm
  keys := fun id key => (h.keys id key).symm

/-- And it can be carried on. -/
theorem trans {c : SymbolIndex} (h : a.SameNames b) (h' : b.SameNames c) : a.SameNames c where
  toSameOutline := h.toSameOutline.trans h'.toSameOutline
  imports := fun id name => (h.imports id name).trans (h'.imports id name)
  keys := fun id key => (h.keys id key).trans (h'.keys id key)

/-- What an index answers about names is determined by them. The kinds
of the declarations are needed for one question only, whether a class of
a name is there. -/
theorem alike (h : a.SameNames b) (ha : a.Consistent) (hb : b.Consistent) (hka : a.KeyedByKind)
    (hkb : b.KeyedByKind) : a.Alike b where
  toSameOutline := h.toSameOutline
  byPath := ha.byPath_eq hb h.toSameOutline
  importAt := fun id name => by rw [importAt_eq, importAt_eq, h.imports]
  declaresKey := fun id key => by
    rw [declaresKey_eq, declaresKey_eq, Bool.eq_iff_iff, Table.contains_iff, Table.contains_iff,
      h.keys]
  hasClass := fun id name => by
    rw [Bool.eq_iff_iff, hka.hasClass_iff, hkb.hasClass_iff, h.keys]

end SameNames

/-! ### What may change -/

section

variable (ix : SymbolIndex) {id : Nat} {key : DeclKey}

/-- Another declaration under a key that is there leaves all names as
they are. -/
theorem sameNames_declare (hid : id < ix.size) (hkey : key ∈ (ix.declarationsOf id).keys)
    (decl : Declaration) : ix.SameNames (ix.declare id key decl) where
  conventions := rfl
  outline := (map_outline_of_bare (ix.bare_declare id key decl)).symm
  imports := fun i name => by rw [importsOf_declare]
  -- The key is declared already, so only its value is replaced.
  keys := fun i key' => by
    rw [ix.declarationsOf_declare hid]
    split
    · rename_i heq
      subst heq
      rw [Table.keys_insert, if_pos hkey]
    · exact Iff.rfl

/-- Another artifact leaves them as they are too. -/
theorem sameNames_storeArtifact (id : Nat) (key : DeclKey) (a : Artifact) :
    ix.SameNames (ix.storeArtifact id key a) where
  conventions := rfl
  outline := (map_outline_of_bare (ix.bare_storeArtifact id key a)).symm
  imports := fun i name => by rw [importsOf_storeArtifact]
  keys := fun i key' => by rw [declarationsOf_storeArtifact]

/-- Declarations stay keyed by their kinds if the new one is of the kind
of its key. -/
theorem KeyedByKind.declare {ix : SymbolIndex} (h : ix.KeyedByKind) (hid : id < ix.size)
    {decl : Declaration} (hkind : decl.kind = key.kind) : (ix.declare id key decl).KeyedByKind := by
  intro i key' decl' hget
  rw [ix.declarationsOf_declare hid] at hget
  -- Elsewhere, and under other keys, the declarations are the old ones.
  split at hget
  · rw [Table.get?_insert] at hget
    split at hget
    · rename_i heq
      cases hget
      rw [← heq]
      exact hkind
    · exact h i key' decl' hget
  · exact h i key' decl' hget

/-- Artifacts are no declarations. -/
theorem KeyedByKind.storeArtifact {ix : SymbolIndex} (h : ix.KeyedByKind) (id : Nat)
    (key : DeclKey) (a : Artifact) : (ix.storeArtifact id key a).KeyedByKind := by
  intro i key' decl hget
  rw [declarationsOf_storeArtifact] at hget
  exact h i key' decl hget

end

end SymbolIndex

/-! ### Emission -/

namespace Project

/-- What an emission does: it files the imports of a draft and reports
its events. The draft depends on the index alone. -/
theorem emitDeclaration_eq (p : Project) (scope : Nat) (key : DeclKey) (decl : Declaration) :
    let d := (Viewpoint.within p.index scope).draftDeclaration key decl
    p.emitDeclaration scope key decl
      = ({ p with headers := p.headers.file (p.headerOf scope) key.label d.imports,
                  events := p.events ++ d.events }, d.value) := rfl

/-- A second emission reports the events again and does nothing else.
The index is the same, so the draft is, and filing the same lines
changes nothing. -/
theorem emitDeclaration_again (p : Project) {scope : Nat}
    (hheader : p.headerOf scope < p.headers.size) (key : DeclKey) (decl : Declaration) :
    let d := (Viewpoint.within p.index scope).draftDeclaration key decl
    let once := (p.emitDeclaration scope key decl).1
    once.emitDeclaration scope key decl = (once.report d.events, d.value) := by
  intro d once
  have hfile := p.headers.file_file hheader key.label d.imports
  have honce : once.headers.file (once.headerOf scope) key.label d.imports = once.headers := hfile
  rw [emitDeclaration_eq]
  show ({ once with headers := once.headers.file (once.headerOf scope) key.label d.imports,
                    events := once.events ++ d.events }, d.value) = _
  rw [honce]
  rfl

/-- The emission of a declaration depends on other declarations only
through their names. Take two projects whose indexes have the same tree
of scopes, the same imports and the same keys, with whatever bodies and
artifacts, and whatever in their headers. Emitting one declaration for
one key of one scope gives the same artifact in both and files the same
imports in the same order, each in the child of the key below the header
that its own project has for the scope. Emitting it a second time gives
the artifact again and leaves headers and index as they are. -/
theorem emitDeclaration_of_sameNames {p q : Project} (hnames : p.index.SameNames q.index)
    (hp : p.index.Consistent) (hq : q.index.Consistent) (hkp : p.index.KeyedByKind)
    (hkq : q.index.KeyedByKind) {scope : Nat} (hheader : p.headerOf scope < p.headers.size)
    (hheader' : q.headerOf scope < q.headers.size) (key : DeclKey) (decl : Declaration) :
    let d := (Viewpoint.within p.index scope).draftDeclaration key decl
    let once := (p.emitDeclaration scope key decl).1
    let once' := (q.emitDeclaration scope key decl).1
    (Viewpoint.within q.index scope).draftDeclaration key decl = d
      ∧ p.emitDeclaration scope key decl
        = ({ p with headers := p.headers.file (p.headerOf scope) key.label d.imports,
                    events := p.events ++ d.events }, d.value)
      ∧ q.emitDeclaration scope key decl
        = ({ q with headers := q.headers.file (q.headerOf scope) key.label d.imports,
                    events := q.events ++ d.events }, d.value)
      ∧ once.emitDeclaration scope key decl = (once.report d.events, d.value)
      ∧ once'.emitDeclaration scope key decl = (once'.report d.events, d.value) := by
  intro d once once'
  have hviews : (Viewpoint.within p.index scope).Alike (Viewpoint.within q.index scope) :=
    ⟨hnames.alike hp hq hkp hkq, rfl, rfl⟩
  -- Everything that happens to the second project is said with its own draft, which is the same.
  have hdraft : (Viewpoint.within q.index scope).draftDeclaration key decl = d :=
    (hviews.draftDeclaration key decl).symm
  have hfiled := q.emitDeclaration_eq scope key decl
  have hagain := q.emitDeclaration_again hheader' key decl
  rw [hdraft] at hfiled hagain
  exact ⟨hdraft, p.emitDeclaration_eq scope key decl, hfiled,
    p.emitDeclaration_again hheader key decl, hagain⟩

/-- A global class `A` and, in a module, a class `B`. -/
def twoClasses : Project :=
  (Project.initial {}).collect
    [⟨"m.d.ts", [⟨"global", .global, [.classDecl ⟨some "A", none, [], []⟩]⟩,
      ⟨"m", .ambient, [.classDecl ⟨some "B", none, [], []⟩]⟩]⟩]

/-- The same names in a project that has come further: the class `A` has
a base, `B` was emitted, and from an earlier emission the header of the
interface `B` holds an import. -/
def twoClassesLater : Project :=
  { index := (twoClasses.index.declare SymbolIndex.root ⟨.classType, "A"⟩
      (.classType ⟨some "A", some (plainReference "Base"), [], []⟩)).storeArtifact 1
        ⟨.classType, "B"⟩ (.classType ⟨"B", "", [], none, [], [], none⟩),
    headers := twoClasses.headers.file 1 "interface:B" [⟨"org.other", "A", none⟩] }

/-- An interface for the class `B`, with a member that speaks of `A`. -/
def interfaceOfB : Declaration :=
  .interfaceType ⟨some "B", [], [plainMethod "other" (plainReference "A")]⟩

/-- Both projects ask for the import of `A` and for nothing else, though
the second one filed another import under that name before. -/
theorem emitDeclaration_twoClasses :
    let key : DeclKey := ⟨.interfaceType, "B"⟩
    let d := (Viewpoint.within twoClasses.index 1).draftDeclaration key interfaceOfB
    d.imports = [⟨"org.node", "A", none⟩]
      ∧ (twoClassesLater.emitDeclaration 1 key interfaceOfB).2
        = (twoClasses.emitDeclaration 1 key interfaceOfB).2
      ∧ (twoClassesLater.emitDeclaration 1 key interfaceOfB).1.headers
        = twoClassesLater.headers.file 1 "interface:B" [⟨"org.node", "A", none⟩]
      ∧ ((twoClassesLater.emitDeclaration 1 key interfaceOfB).1.emitDeclaration 1 key
          interfaceOfB).1.headers
        = (twoClassesLater.emitDeclaration 1 key interfaceOfB).1.headers := by
  intro key d
  have hstanding : twoClasses.Standing := (Reached.collect _ .initial).standing
  have hkeyed := hstanding.wellKeyed.keyedByKind
  have hroot : SymbolIndex.root < twoClasses.index.size := hstanding.consistent.root_lt
  have hkey : (⟨.classType, "A"⟩ : DeclKey)
      ∈ (twoClasses.index.declarationsOf SymbolIndex.root).keys := by decide +kernel
  -- The later project redeclares `A` and stores an artifact, which changes no name.
  have hlater : twoClasses.index.Later twoClassesLater.index :=
    .tail (.single (.declare _ _ _)) (.storeArtifact _ _ _)
  have himports : d.imports = [⟨"org.node", "A", none⟩] := by decide +kernel
  obtain ⟨-, hfirst, hsecond, -, hagain⟩ := emitDeclaration_of_sameNames
    ((twoClasses.index.sameNames_declare hroot hkey _).trans
      (SymbolIndex.sameNames_storeArtifact _ 1 ⟨.classType, "B"⟩ _))
    hstanding.consistent (hlater.consistent hstanding.consistent).1 hkeyed
    ((hkeyed.declare hroot rfl).storeArtifact 1 ⟨.classType, "B"⟩ _)
    (show twoClasses.headerOf 1 < twoClasses.headers.size by decide +kernel)
    (show twoClassesLater.headerOf 1 < twoClassesLater.headers.size by decide +kernel)
    key interfaceOfB
  refine ⟨himports, ?_, ?_, ?_⟩
  · rw [hfirst, hsecond]
  · rw [hsecond]
    show twoClassesLater.headers.file (twoClassesLater.headerOf 1) key.label d.imports = _
    rw [himports, show twoClassesLater.headerOf 1 = 1 by decide +kernel,
      show key.label = "interface:B" by decide +kernel]
  · rw [hagain]
    rfl

end Project

end Externals
