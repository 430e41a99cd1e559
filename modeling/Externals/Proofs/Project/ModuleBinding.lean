import Externals.Proofs.Project.Founders
import Externals.Proofs.Project.Rendering
import Externals.Proofs.Scope.Naming

/-!
# `Externals.Proofs.Project.ModuleBinding`: the module a file is bound to

A file begins with the name of the JavaScript module that its
declarations come from. For the declarations of an ambient module one
expects that to be the name of the module, up to the front that the
conventions drop. It is, if the module made its scope. If another module
of the same path came first, the file is bound to that one: `a-b` and
`a_b` share a path, and a file with declarations of `a_b` can be bound to
`a-b`. If what came first was a namespace, the file is bound to whatever
the namespace stands in, and to nothing at the top.

* `mem_keys_collect`: the declarations of a module are declared in its
  scope.
* `transform_binds`: the file of an ambient module, and what it is bound
  to.
-/

set_option autoImplicit false

namespace Externals

/-- The name of a module without the front that names lose, such as
`node:`. Two modules are taken for one if their names agree without it. -/
def Conventions.stripped (c : Conventions) (name : String) : List Char :=
  Text.dropFront c.modulePrefix.toList name.toList

/-! ### Declarations of a module -/

namespace SymbolIndex

/-- Declarations with a name are filed in the scope they stand in.
Blocks of modules have no key, so nothing is nested in such a
statement. -/
theorem filings_of_key (ix : SymbolIndex) (scope : Nat) {s : Statement} {key : DeclKey}
    (h : s.key? = some key) : ix.filings scope s = [(scope, s)] := by
  cases s with
  | moduleDecl name kind body => cases h
  | importDecl decl => cases h
  | _ => rfl

/-- So a named declaration of a body is among the filings of the body. -/
theorem mem_bodyFilings (ix : SymbolIndex) (scope : Nat) {ss : List Statement} {s : Statement}
    (hs : s ∈ ss) {key : DeclKey} (hkey : s.key? = some key) :
    (scope, s) ∈ ix.bodyFilings scope ss := by
  induction ss with
  | nil => cases hs
  | cons t ss ih =>
      rw [bodyFilings, List.mem_append]
      rcases List.mem_cons.mp hs with rfl | hmem
      · exact .inl (by rw [ix.filings_of_key scope hkey]; exact List.mem_singleton_self _)
      · exact .inr (ih hmem)

end SymbolIndex

namespace Project

/-- Emission and fusion do not touch what was collected, so a run leaves
behind the source that its files have made. -/
theorem Reached.sameSource_transform {c : Conventions} {p : Project} (h : Reached c p)
    (files : List SourceFile) :
    SameSource (p.collect files).index (p.transform files).1.index := by
  have hstanding := (h.collect files).standing
  obtain ⟨F, hF⟩ := hstanding.shelved
  rw [transform_fst]
  exact (emitAll_emitted hF).1.trans hstanding.drafted.resolved.1

/-- What a module declares by name is declared in its scope. Other
statements of the name may come later, but a key is never dropped. -/
theorem mem_keys_collect {p : Project} {files : List SourceFile} (hr : p.index.Rooted) {m : Module}
    (hm : m ∈ files.flatMap SourceFile.modules) {s : Statement} (hs : s ∈ m.body) {key : DeclKey}
    (hkey : s.key? = some key) :
    key ∈ ((p.collect files).index.declarationsOf
      ((p.collect files).index.scopeOf m.name m.kind none)).keys := by
  generalize hix : (p.collect files).index = ix
  -- From the module's body to its file, and from there to the statements filed under its
  -- scope.
  have hfiled : (ix.scopeOf m.name m.kind none, s) ∈ ix.moduleFilings m :=
    ix.mem_bodyFilings _ hs hkey
  have hfile : (ix.scopeOf m.name m.kind none, s) ∈ ix.fileFilings files :=
    List.mem_flatMap.mpr ⟨m, hm, hfiled⟩
  have hstatement : s ∈ ix.statementsOf files (ix.scopeOf m.name m.kind none) :=
    List.mem_map_of_mem (List.mem_filter.mpr ⟨hfile, by simp [hkey]⟩)
  have hkeys := (p.collected files hr).keys_declarationsOf (ix.scopeOf m.name m.kind none)
  rw [hix] at hkeys
  rw [hkeys, mem_appendNew]
  exact .inr (List.mem_filterMap.mpr ⟨s, hstatement, hkey⟩)

/-- A file begins with the module it is bound to, and the package comes
next. -/
theorem text_unitOf (p : Project) (id : Nat) :
    ∃ rest, (p.unitOf id).text = moduleLine (p.index.jsModuleOf id) ++ ("package " ++ rest) := by
  rw [unitOf, p.intercalate_frontOf, String.intercalate_cons_append, String.append_assoc,
    String.append_assoc]
  exact ⟨_, rfl⟩

/-! ### The file of an ambient module -/

/-- The file that a first run generates for an ambient module with a
named declaration, and the module it is bound to. The declarations are
declared in the scope of the module, and one file is generated for it.
Let `v` be the first module of the files, in the order of the walk, that
was given this scope. If `v` is ambient, the file begins with its name,
and otherwise with the module name in effect where `v` stands, or with
none. So the file is bound to the module that declares what is in it,
up to the front of its name, exactly if this is so for `v`. -/
theorem transform_binds (c : Conventions) (files : List SourceFile) {m : Module}
    (hm : m ∈ files.flatMap SourceFile.modules) (hkind : m.kind = .ambient) {s : Statement}
    (hs : s ∈ m.body) {key : DeclKey} (hkey : s.key? = some key) :
    let q := ((Project.initial c).transform files).1
    let units := ((Project.initial c).transform files).2
    let id := q.index.scopeOf m.name .ambient none
    let agrees := fun x : Option String =>
      ∃ name, x = some name ∧ c.stripped name = c.stripped m.name
    key ∈ (q.index.declarationsOf id).keys
      ∧ q.unitOf id ∈ units
      ∧ (∀ u ∈ units, u.path = q.index.outputPath id → u = q.unitOf id)
      ∧ (∃ rest, (q.unitOf id).text = moduleLine (q.index.jsModuleOf id) ++ ("package " ++ rest))
      ∧ ∃ v, (q.index.fileVisits files).find? (fun v => v.scope = id) = some v
        ∧ q.index.jsModuleOf id
          = (if v.kind = .ambient then some v.name else q.index.jsModuleOf v.parent)
        ∧ (agrees (q.index.jsModuleOf id)
            ↔ if v.kind = .ambient then c.stripped v.name = c.stripped m.name
              else agrees (q.index.jsModuleOf v.parent)) := by
  intro q units id agrees
  have hr := rooted_initial c
  have hcollected := (Project.initial c).collected files hr
  have hsource : SameSource ((Project.initial c).collect files).index q.index :=
    Reached.initial.sameSource_transform files
  have hgrown : ((Project.initial c).collect files).index.Grown q.index :=
    .of_bare hsource.conventions hsource.byPath hsource.bare
  have hconsistent : q.index.Consistent := (Reached.initial.transform files).standing.consistent
  have hsettled : q.Settled := Reached.initial.settled_transform files
  have hmodule : ((Project.initial c).collect files).index.HasModule m.name .ambient none :=
    hkind ▸ (hcollected.registered m hm).1
  have hid : id = ((Project.initial c).collect files).index.scopeOf m.name .ambient none :=
    hgrown.scopeOf none hcollected.rooted.nonempty hmodule
  -- The scope was found when the files were collected, and it is the same at the end of the
  -- run.
  have hlt : id < q.index.size := hconsistent.rooted.scopeOf_lt m.name .ambient none
  have hdeclared : key ∈ (q.index.declarationsOf id).keys := by
    have hmem := mem_keys_collect hr hm hs hkey
    rw [hkind, ← hid] at hmem
    rw [hsource.declarations]
    exact hmem
  have hrender : units = q.render := by
    show ((Project.initial c).transform files).2 = ((Project.initial c).transform files).1.render
    rw [transform_snd, transform_fst]
  rw [hsettled.render_eq] at hrender
  refine ⟨hdeclared, ?_, ?_, q.text_unitOf id, ?_⟩
  · rw [hrender]
    refine List.mem_map_of_mem (List.mem_filter.mpr ⟨List.mem_range.mpr hlt, ?_⟩)
    exact decide_eq_true (List.ne_nil_of_mem hdeclared)
  · intro u hu hpath
    rw [hrender, List.mem_map] at hu
    obtain ⟨i, hi, rfl⟩ := hu
    have hsize := List.mem_range.mp (List.mem_filter.mp hi).1
    rw [hconsistent.eq_of_outputPath hsize hlt hpath]
  · -- The scope is not the global one, so it was made during the walk.
    have hne : id ≠ SymbolIndex.root :=
      SymbolIndex.scopeOf_ambient_ne_root (hcollected.grown.trans hgrown) hconsistent
        (hgrown.hasModule none hcollected.rooted.nonempty hmodule)
    obtain ⟨v, hfind, hmade⟩ := ((Project.initial c).collected_founded files hr).founder id
      (Nat.one_le_iff_ne_zero.mpr hne) (hsource.size ▸ hlt)
    have hscope : v.scope = id := by simpa using List.find?_some hfind
    have hmarker : q.index.jsModuleOf id
        = (if v.kind = .ambient then some v.name else q.index.jsModuleOf v.parent) := by
      rw [← hscope]
      exact hconsistent.jsModuleOf_founder
        (hmade.grown hgrown (hscope ▸ hsource.size ▸ hlt))
    refine ⟨v, ?_, hmarker, ?_⟩
    · rw [hgrown.fileVisits hcollected.rooted hcollected.registered]
      exact hfind
    -- Both sides ask the same of the founder's name.
    · rw [hmarker]
      split
      · constructor
        · rintro ⟨name, hname, hsame⟩
          cases hname
          exact hsame
        · exact fun hsame => ⟨v.name, rfl, hsame⟩
      · exact Iff.rfl

/-- Two modules of one path, of which only the second declares anything. -/
def sharedPath : List SourceFile :=
  [⟨"m.d.ts",
    [⟨"a-b", .ambient, []⟩,
     ⟨"a_b", .ambient, [.function ⟨some "f", [], .resolved (.plain "void" .void), false⟩]⟩]⟩]

/-- The function of `a_b` is in a file that is bound to `a-b`. -/
theorem transform_binds_sharedPath :
    let q := ((Project.initial {}).transform sharedPath).1
    let id := q.index.scopeOf "a_b" .ambient none
    ⟨.function, "f"⟩ ∈ (q.index.declarationsOf id).keys
      ∧ q.unitOf id ∈ ((Project.initial {}).transform sharedPath).2
      ∧ (∃ rest, (q.unitOf id).text = "@file:JsModule(\"a-b\")\n\npackage " ++ rest)
      ∧ Conventions.stripped {} "a-b" ≠ Conventions.stripped {} "a_b" := by
  have hbinds := transform_binds {} sharedPath (m := ⟨"a_b", .ambient,
      [.function ⟨some "f", [], .resolved (.plain "void" .void), false⟩]⟩)
    (by simp [sharedPath]) rfl List.mem_cons_self rfl
  dsimp only at hbinds ⊢
  obtain ⟨hdeclared, hunit, -, ⟨rest, htext⟩, v, hfind, hmarker, -⟩ := hbinds
  -- Both modules have the path of the first, so the visit found is the first module's and
  -- the marker shows its name.
  have hv : (((Project.initial {}).transform sharedPath).1.index.fileVisits sharedPath).find?
      (fun v => v.scope
        = ((Project.initial {}).transform sharedPath).1.index.scopeOf "a_b" .ambient none)
      = some ⟨"a-b", .ambient, 0, 1⟩ := by decide +kernel
  rw [hv, Option.some.injEq] at hfind
  rw [← hfind, if_pos rfl] at hmarker
  rw [hmarker] at htext
  refine ⟨hdeclared, ?_, ?_, ?_⟩
  · exact hunit
  · refine ⟨rest, htext.trans ?_⟩
    rw [← String.append_assoc]
    rfl
  · decide +kernel

end Project

end Externals
