import Externals.Proofs.Project.Founders
import Externals.Proofs.Project.Recollection
import Externals.Proofs.Project.Rendering
import Externals.Proofs.Scope.Paths

/-!
# `Externals.Proofs.Project.TypeNames`: the types of a package

A file declares the classes of its scope, and those interfaces that are
not fused into a class. Within one file no type comes up twice, and its
types are those that the statements of the scope name.

A package can have several files. A namespace in a module or in another
namespace has the package of its parent, at any depth, and names that
differ can become the same segment. Nothing keeps the types of such
files apart: a type is declared twice in a package exactly if two of its
scopes declare it.

* `Reached.allNamed`: scopes are named for their modules throughout.
* `types_of_package`: the types of each file and of each package.
* `not_uniqueTypes_outerInner`: a module and a namespace in it that
  declare one class.
-/

set_option autoImplicit false

namespace Externals

/-! ### Packages of namespaces -/

namespace Project

/-- In every project that can be reached, scopes are named for the
modules they were made for. Only collecting makes scopes; the other
phases leave them alone. -/
theorem Reached.allNamed {c : Conventions} {p : Project} (h : Reached c p) :
    p.index.AllNamed := by
  induction h with
  | initial => exact SymbolIndex.allNamed_initial c {}
  | @collect p files h ih =>
      -- The walk is a run of operations, and the last part of collecting makes no scopes.
      have hr := h.standing.rooted
      have htree := p.sameTree_collect files hr
      have hwalk := (p.gatherFiles_filed files hr).1.later.allNamed ih
      exact hwalk.of_bare htree.conventions htree.bare
  | emitAll h ih =>
      have hsource := h.standing.sameSource_emitAll
      exact ih.of_bare hsource.conventions hsource.bare
  | resolveFusions h ih =>
      have hsource := h.standing.sameSource_resolveFusions
      exact ih.of_bare hsource.conventions hsource.bare

end Project

/-- A namespace that stands in a module or in a namespace has the
package of its parent. So has a namespace in that one, and so on. Only a
namespace at the top has a package of its own. -/
theorem SymbolIndex.AllNamed.packageOf_namespaced {ix : SymbolIndex} (h : ix.AllNamed)
    (hix : ix.Consistent) {id parent : Nat} {s : Scope} (hs : ix.scopes[id]? = some s)
    (hkind : s.kind = .namespaced) (hparent : s.parent = some parent) (hne : parent ≠ root) :
    ix.packageOf id = ix.packageOf parent := by
  have hup : ix.parent? id = some parent := by
    rw [hix.parent?_eq, notedParent, hs]
    exact hparent
  -- The namespace stands inside another module, and then it has no segment.
  have hsegment : ix.segmentOf id = "" := by
    have hnamed := (h s (List.mem_of_getElem? hs)).segment_eq
    rw [hkind, hparent, if_pos (by simpa using hne)] at hnamed
    rw [segmentOf, hs]
    exact hnamed
  rw [packageOf_of_parent? hup, hsegment]
  exact if_pos rfl

/-! ### The types of a file -/

/-- The type that a statement declares: a class or an interface, if it
has a name. -/
def Statement.typeName? : Statement → Option String
  | .classDecl decl => decl.name
  | .interfaceDecl decl => decl.name
  | .function _ | .importDecl _ | .moduleDecl _ _ _ => none

/-- The type that an artifact declares in its file. An interface that is
fused declares none, as the class does it. -/
def Artifact.typeName? : Artifact → Option String
  | .function _ => none
  | .classType a => some a.name
  | .interfaceType a => if a.fusedIntoClass then none else some a.name

/-- A type is declared under one of two keys. -/
theorem Statement.typeName?_eq_some_iff {s : Statement} {name : String} :
    s.typeName? = some name
      ↔ s.key? = some ⟨.classType, name⟩ ∨ s.key? = some ⟨.interfaceType, name⟩ := by
  cases s <;> simp [typeName?, key?]

/-- What the declaration of a type begins with. -/
def typeHeads (name : String) : List String :=
  ["open external class " ++ name ++ "(", "external interface " ++ name ++ " "]

/-- The text of a class begins with its name and an opening bracket. -/
theorem ClassArtifact.exists_text (a : ClassArtifact) :
    ∃ rest, "\n".intercalate (declarationLines a.heading a.parts)
      = "open external class " ++ a.name ++ "(" ++ rest := by
  rw [intercalate_declarationLines]
  refine ⟨a.primary ++ ")" ++ (a.base.elim "" fun base => " : " ++ base) ++ " " ++ block a.parts,
    ?_⟩
  unfold heading
  simp only [String.append_assoc]

/-- The text of an interface begins with its name and a blank. -/
theorem InterfaceArtifact.exists_text (a : InterfaceArtifact) :
    ∃ rest, "\n".intercalate (declarationLines a.heading a.members)
      = "external interface " ++ a.name ++ " " ++ rest := by
  rw [intercalate_declarationLines]
  unfold heading
  split
  · exact ⟨block a.members, rfl⟩
  · -- With bases, a colon is what follows the blank.
    refine ⟨": " ++ ", ".intercalate (a.bases.map KotlinType.render) ++ " " ++ block a.members, ?_⟩
    simp only [String.append_assoc, show " : " = " " ++ ": " by decide]

namespace Project

/-- The types that the file of a scope declares, in the order of its
artifacts. -/
def typesIn (p : Project) (id : Nat) : List String :=
  (p.index.artifactsOf id).values.filterMap Artifact.typeName?

/-- No two files of a package declare the same type. In Kotlin the types
of a package share one space of names, so this is what the output has to
satisfy. -/
def UniqueTypes (p : Project) : Prop :=
  ∀ id id' name, p.index.packageOf id = p.index.packageOf id' →
    name ∈ p.typesIn id → name ∈ p.typesIn id' → id = id'

/-- A type of a file is the type of one of its artifacts. -/
theorem mem_typesIn {p : Project} {id : Nat} {name : String} :
    name ∈ p.typesIn id
      ↔ ∃ key a, (p.index.artifactsOf id).get? key = some a ∧ a.typeName? = some name := by
  rw [typesIn, List.mem_filterMap]
  constructor
  · rintro ⟨a, ha, hname⟩
    obtain ⟨key, hkey⟩ := Table.mem_values_iff.mp ha
    exact ⟨key, a, hkey, hname⟩
  · rintro ⟨key, a, hkey, hname⟩
    exact ⟨a, Table.mem_values_iff.mpr ⟨key, hkey⟩, hname⟩

namespace Settled

variable {p : Project} (h : p.Settled) {id : Nat} {name : String}

include h

/-- An artifact that declares a type is the class of its name, or the
interface if there is no class. So the name tells which artifact it is. -/
theorem key_of_typeName? {key : DeclKey} {a : Artifact}
    (ha : (p.index.artifactsOf id).get? key = some a) (hname : a.typeName? = some name) :
    key ∈ (p.index.declarationsOf id).keys
      ∧ key = if ⟨.classType, name⟩ ∈ (p.index.declarationsOf id).keys then ⟨.classType, name⟩
          else ⟨.interfaceType, name⟩ := by
  have hkey : key ∈ (p.index.declarationsOf id).keys := by
    rw [← h.keys]
    exact Table.mem_keys_of_get? ha
  refine ⟨hkey, ?_⟩
  obtain ⟨decl, hdecl⟩ := Table.exists_of_mem_keys hkey
  obtain ⟨b, hb, hfits, -⟩ := h.artifact hdecl
  rw [ha, Option.some.injEq] at hb
  subst hb
  obtain ⟨kind, keyName⟩ := key
  cases a with
  | function a => cases hname
  | classType a =>
      obtain ⟨rfl, rfl⟩ := hfits
      cases hname
      rw [if_pos hkey]
  | interfaceType a =>
      obtain ⟨rfl, rfl⟩ := hfits
      obtain ⟨b, hb, -, htext⟩ := h.text?_interface (SymbolIndex.mem_namesOf.mpr hkey)
      rw [ha, Option.some.injEq, Artifact.interfaceType.injEq] at hb
      subst hb
      -- An interface that declares a type renders, so there is no class.
      rw [Artifact.typeName?, Option.ite_none_left_eq_some, Option.some.injEq] at hname
      obtain ⟨hfused, rfl⟩ := hname
      rw [text?_of_get? ha] at htext
      have hrender : (Artifact.interfaceType a).render?
          = some ("\n".intercalate (declarationLines a.heading a.members)) := by
        show a.render? = _
        rw [a.render?_eq_lines, if_neg hfused]
      rw [hrender] at htext
      split at htext
      · cases htext
      · rename_i hclass
        rw [if_neg hclass]

/-- A file declares no type twice, because a type has one artifact. -/
theorem nodup_typesIn (id : Nat) : (p.typesIn id).Nodup := by
  have hkeys := (p.index.artifactsOf id).nodup_keys
  rw [List.Nodup, List.pairwise_map] at hkeys
  rw [typesIn, Table.values, List.filterMap_map, List.Nodup, List.pairwise_filterMap]
  refine List.Pairwise.imp_of_mem (fun {e e'} he he' hne name hname name' hname' heq => ?_) hkeys
  -- The name of a type determines its key.
  subst heq
  have hkey := (h.key_of_typeName? (Table.get?_of_mem_entries he) hname).2
  have hkey' := (h.key_of_typeName? (Table.get?_of_mem_entries he') hname').2
  exact hne (hkey.trans hkey'.symm)

/-- A type that a scope declares stands in its file, under its name: one
of the items begins with its head. -/
theorem exists_block (hkey : ⟨.classType, name⟩ ∈ (p.index.declarationsOf id).keys
      ∨ ⟨.interfaceType, name⟩ ∈ (p.index.declarationsOf id).keys) :
    name ∈ p.typesIn id
      ∧ ∃ text ∈ p.itemsOf id, ∃ head ∈ typeHeads name, ∃ rest, text = head ++ rest := by
  by_cases hclass : ⟨.classType, name⟩ ∈ (p.index.declarationsOf id).keys
  · have hmem := SymbolIndex.mem_namesOf.mpr hclass
    obtain ⟨a, ha, rfl, htext⟩ := h.text?_class hmem
    refine ⟨mem_typesIn.mpr ⟨_, _, ha, rfl⟩, _,
      List.mem_append_left _ (List.mem_append_right _ (List.mem_map_of_mem hmem)), _, .head _, ?_⟩
    rw [blockOf_of_text? htext]
    exact a.exists_text
  -- Without a class the interface stands for itself, and it is not fused, for then it would
  -- render nothing.
  · have hmem := SymbolIndex.mem_namesOf.mpr (hkey.resolve_left hclass)
    have hlone : name ∈ p.index.loneInterfaces id :=
      List.mem_filter.mpr ⟨hmem, decide_eq_true hclass⟩
    obtain ⟨a, ha, rfl, htext⟩ := h.text?_interface hmem
    rw [if_neg hclass] at htext
    have hfused : ¬ a.fusedIntoClass = true := by
      intro hfused
      rw [text?_of_get? ha] at htext
      have hnone : (Artifact.interfaceType a).render? = none := if_pos hfused
      rw [hnone] at htext
      cases htext
    refine ⟨mem_typesIn.mpr ⟨_, _, ha, if_neg hfused⟩, _,
      List.mem_append_right _ (List.mem_map_of_mem hlone), _, .tail _ (.head _), ?_⟩
    rw [blockOf_of_text? htext]
    exact a.exists_text

/-- The types of a file are the classes and interfaces of its scope. An
interface with a class of its name is a type of the file through the
class. -/
theorem mem_typesIn_iff :
    name ∈ p.typesIn id ↔ ⟨.classType, name⟩ ∈ (p.index.declarationsOf id).keys
      ∨ ⟨.interfaceType, name⟩ ∈ (p.index.declarationsOf id).keys := by
  refine ⟨fun hname => ?_, fun hkey => (h.exists_block hkey).1⟩
  obtain ⟨key, a, ha, htype⟩ := mem_typesIn.mp hname
  obtain ⟨hkey, heq⟩ := h.key_of_typeName? ha htype
  split at heq
  · exact .inl (heq ▸ hkey)
  · exact .inr (heq ▸ hkey)

/-- A scope with a type has a file, since it declares something. -/
theorem unitOf_mem_render (hname : name ∈ p.typesIn id) : p.unitOf id ∈ p.render := by
  have hkeys : (p.index.declarationsOf id).keys ≠ [] := by
    rcases h.mem_typesIn_iff.mp hname with hkey | hkey
    · exact List.ne_nil_of_mem hkey
    · exact List.ne_nil_of_mem hkey
  -- A scope that declares something is one of the index, and every such scope is printed.
  have hlt : id < p.index.size := by
    by_contra hge
    have hnone : p.index.scopes[id]? = none :=
      List.getElem?_eq_none (Nat.le_of_not_lt hge)
    exact hkeys (by rw [SymbolIndex.declarationsOf, hnone]; rfl)
  rw [h.render_eq]
  exact List.mem_map_of_mem
    (List.mem_filter.mpr ⟨List.mem_range.mpr hlt, decide_eq_true hkeys⟩)

end Settled

/-! ### The types of a package -/

/-- Once files are collected, a scope declares the keys of its
statements. In a new project nothing else was declared. -/
theorem mem_keys_collect_initial (c : Conventions) (files : List SourceFile) {id : Nat}
    {key : DeclKey} :
    key ∈ (((Project.initial c).collect files).index.declarationsOf id).keys
      ↔ ∃ s ∈ ((Project.initial c).collect files).index.statementsOf files id,
          s.key? = some key := by
  rw [((Project.initial c).collected files (rooted_initial c)).keys_declarationsOf,
    (contents_initial c id).1, mem_appendNew, List.mem_filterMap]
  exact or_iff_right List.not_mem_nil

/-- It still does so after a first run. The project at the end is a
variable here, so that it need not be unfolded. -/
theorem mem_keys_transform_initial (c : Conventions) (files : List SourceFile) {q : Project}
    (hq : ((Project.initial c).transform files).1 = q) {id : Nat} {key : DeclKey} :
    key ∈ (q.index.declarationsOf id).keys
      ↔ ∃ s ∈ q.index.statementsOf files id, s.key? = some key := by
  rw [transform_fst] at hq
  have hcollected := (Project.initial c).collected files (rooted_initial c)
  have hsource : SameSource ((Project.initial c).collect files).index q.index := by
    rw [← hq]
    exact (Processed.refl.emitAll.resolveFusions.sameSource
      (Reached.initial.collect files).standing).2
  -- Emission and fusion leave the scopes of statements alone.
  have hgrown : ((Project.initial c).collect files).index.Grown q.index :=
    .of_bare hsource.conventions hsource.byPath hsource.bare
  have hfilings := (hgrown.filesRegistered hcollected.rooted hcollected.registered).2
  rw [hsource.declarations, mem_keys_collect_initial, SymbolIndex.statementsOf,
    SymbolIndex.statementsOf, hfilings]

/-- The types of the generated files, for any files transformed by a new
project. A file declares no type twice, and its types are the classes
and interfaces that the statements of its scope name; each of them
begins one item of the file. So no two files of a package declare the
same type exactly if no two scopes of a package have statements that
name the same type. That is not so of itself: a namespace has the
package of the module or namespace it stands in. -/
theorem types_of_package (c : Conventions) (files : List SourceFile) :
    let q := ((Project.initial c).transform files).1
    (∀ id, (q.typesIn id).Nodup)
      ∧ (∀ id name, name ∈ q.typesIn id
          ↔ ∃ s ∈ q.index.statementsOf files id, s.typeName? = some name)
      ∧ (∀ id, ∀ name ∈ q.typesIn id, q.unitOf id ∈ ((Project.initial c).transform files).2
          ∧ ∃ text ∈ q.itemsOf id, ∃ head ∈ typeHeads name, ∃ rest, text = head ++ rest)
      ∧ (q.UniqueTypes ↔ ∀ id id', q.index.packageOf id = q.index.packageOf id' →
          ∀ s ∈ q.index.statementsOf files id, ∀ s' ∈ q.index.statementsOf files id',
            ∀ name, s.typeName? = some name → s'.typeName? = some name → id = id')
      ∧ ∀ id parent s, q.index.scopes[id]? = some s → s.kind = .namespaced →
          s.parent = some parent → parent ≠ SymbolIndex.root →
            q.index.packageOf id = q.index.packageOf parent := by
  intro q
  have hreached : Reached c q := Reached.initial.transform files
  have hsettled : q.Settled := Reached.initial.settled_transform files
  have hunits : ((Project.initial c).transform files).2 = q.render := by
    show _ = ((Project.initial c).transform files).1.render
    rw [transform_snd, transform_fst]
  -- The types of a scope are the classes and interfaces declared in it, so what is known of
  -- keys becomes a fact about statements.
  have htypes : ∀ id name, name ∈ q.typesIn id
      ↔ ∃ s ∈ q.index.statementsOf files id, s.typeName? = some name := by
    intro id name
    rw [hsettled.mem_typesIn_iff, mem_keys_transform_initial c files rfl,
      mem_keys_transform_initial c files rfl, ← exists_or]
    refine exists_congr fun s => ?_
    rw [Statement.typeName?_eq_some_iff, and_or_left]
  refine ⟨hsettled.nodup_typesIn, htypes, fun id name hname => ⟨?_, ?_⟩, ?_,
    fun id parent s hs hkind hparent hne =>
      hreached.allNamed.packageOf_namespaced hreached.standing.consistent hs hkind hparent hne⟩
  · rw [hunits]
    exact hsettled.unitOf_mem_render hname
  · exact (hsettled.exists_block (hsettled.mem_typesIn_iff.mp hname)).2
  · simp only [UniqueTypes, htypes]
    constructor
    · intro hunique id id' hpackage s hs s' hs' name hname hname'
      exact hunique id id' name hpackage ⟨s, hs, hname⟩ ⟨s', hs', hname'⟩
    · rintro hunique id id' name hpackage ⟨s, hs, hname⟩ ⟨s', hs', hname'⟩
      exact hunique id id' hpackage s hs s' hs' name hname hname'

/-- A class in a module, and a class of the same name in a namespace of
the module. -/
def outerInner : List SourceFile :=
  [⟨"m.d.ts",
    [⟨"m", .ambient,
      [.classDecl ⟨some "A", none, [], []⟩,
       .moduleDecl "N" .namespaced [.classDecl ⟨some "A", none, [], []⟩]]⟩]⟩]

/-- Both files have the same package line and declare the same class. -/
theorem not_uniqueTypes_outerInner :
    ((Project.initial {}).transform outerInner).2
        = [⟨"org/node/m/m.kt",
              "@file:JsModule(\"m\")\n\npackage org.node.m\n\nopen external class A() \x7b\x7d\n"⟩,
           ⟨"org/node/m/N.kt",
              "@file:JsModule(\"m\")\n\npackage org.node.m\n\nopen external class A() \x7b\x7d\n"⟩]
      ∧ ¬ ((Project.initial {}).transform outerInner).1.UniqueTypes := by
  refine ⟨by decide +kernel, fun hunique => ?_⟩
  have hsame := hunique 1 2 "A" (by decide +kernel) (by decide +kernel) (by decide +kernel)
  exact absurd hsame (by decide)

end Project

end Externals
