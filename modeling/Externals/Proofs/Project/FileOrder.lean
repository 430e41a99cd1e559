import Externals.Proofs.Project.Alone
import Externals.Proofs.Project.Collection
import Externals.Proofs.Scope.Mirror

/-!
# `Externals.Proofs.Project.FileOrder`: files in another order

The order of files decides how scopes are numbered, and which of two
imports of one name is the one that counts. If no two files share a
scope, and at most one has imports in the global scope, it decides
nothing else. After the files were collected in two orders, each index
consists of copies of the same parts, one for each file, and the copies
of one part are twins. What a scope holds comes from one file, or in the
global scope from all of them together.

* `Assembled.declaresKey_iff`, `Assembled.importAt_eq`: what a scope of a
  fresh run declares and imports, from the statements filed in it.
* `Assembled.statementsAt_twins`: twins hold the same statements, up to
  their order.
* `Assembled.mirrored`: the two indexes agree but for the numbers.
* `collect_perm`: so does all that names denote in them.
-/

set_option autoImplicit false

namespace Externals.Project

open SymbolIndex (root moved Embedded Twins Mirrored)

/-! ### What a scope holds -/

/-- The names that a scope binds come from the statements in it, in
their order. -/
theorem importsFor_eq (id : Nat) (fs : List Filing) :
    importsFor id fs = (statementsAt id fs).flatMap Statement.importEntries := by
  induction fs with
  | nil => rfl
  | cons f fs ih =>
      rw [importsFor, List.flatMap_cons, ← importsFor, ih]
      by_cases hid : f.1 = id
      · simp [hid, statementsAt]
      · simp [hid, statementsAt]

/-- The named statements of a scope are those of its statements that
have a key. -/
theorem mem_namedIn {id : Nat} {fs : List Filing} {s : Statement} :
    s ∈ namedIn id fs ↔ s ∈ statementsAt id fs ∧ s.key?.isSome = true := by
  simp only [namedIn, statementsAt, List.mem_map, List.mem_filter, List.mem_filterMap,
    Option.ite_none_right_eq_some, Option.some.injEq, decide_eq_true_eq]
  constructor
  · rintro ⟨f, ⟨hf, hid, hkey⟩, rfl⟩
    exact ⟨⟨f, hf, hid, rfl⟩, hkey⟩
  · rintro ⟨⟨f, hf, hid, rfl⟩, hkey⟩
    exact ⟨f, ⟨hf, hid, hkey⟩, rfl⟩

/-- A project that has collected files that share no scopes. It knows
both what was filed where and that each file has its copy. -/
structure Assembled (c : Conventions) (files : List SourceFile) (p : Project) : Prop where
  collected : Collected files (Project.initial c) p
  laid : Laid c p.index 1 files

namespace Assembled

variable {c : Conventions} {files : List SourceFile} {p : Project} (h : Assembled c files p)

include h

/-- Its index is consistent. -/
theorem consistent : p.index.Consistent :=
  h.collected.consistent (SymbolIndex.consistent_initial c {})

/-- And it has grown from the index of the start. -/
theorem grown : (SymbolIndex.initial c {}).1.Grown p.index := h.collected.grown

/-- A scope declares the keys of the statements in it. The order of the
statements does not matter for this, only for what is declared. -/
theorem declaresKey_iff (id : Nat) (key : DeclKey) :
    p.index.declaresKey id key = true
      ↔ ∃ s ∈ statementsAt id (p.index.fileFilings files), s.key? = some key := by
  rw [SymbolIndex.declaresKey_eq, Table.contains_iff, h.collected.keys_declarationsOf,
    (contents_initial c id).1, mem_appendNew, List.mem_filterMap]
  constructor
  · rintro (hnone | ⟨s, hs, hkey⟩)
    · cases hnone
    · exact ⟨s, (mem_namedIn.mp hs).1, hkey⟩
  · rintro ⟨s, hs, hkey⟩
    exact .inr ⟨s, mem_namedIn.mpr ⟨hs, by rw [hkey]; rfl⟩, hkey⟩

/-- And it imports what they bind, the last under each name. Here the
order does matter. -/
theorem importAt_eq (id : Nat) (name : String) :
    p.index.importAt id name
      = Table.latest? name ((statementsAt id (p.index.fileFilings files)).flatMap
          Statement.importEntries) := by
  rw [SymbolIndex.importAt_eq, h.collected.imports, importsOf_initial, Table.get?_insertAll,
    Table.get?_empty, importsFor_eq, Option.or_none]

end Assembled

/-! ### Two orders -/

/-- The order of lists does not matter if at most one has elements. -/
theorem flatMap_of_perm {α β : Type} {xs ys : List α} (h : xs.Perm ys) (f : α → List β)
    (hnil : xs.Pairwise fun x y => f x = [] ∨ f y = []) : xs.flatMap f = ys.flatMap f := by
  induction h with
  | nil => rfl
  | cons x _ ih => rw [List.flatMap_cons, List.flatMap_cons, ih (List.pairwise_cons.mp hnil).2]
  | swap x y xs =>
      simp only [List.flatMap_cons]
      -- One of the two is empty, and it does not matter on which side of the other.
      rcases (List.pairwise_cons.mp hnil).1 x List.mem_cons_self with hy | hx
      · rw [hy, List.nil_append, List.nil_append]
      · rw [hx, List.nil_append, List.nil_append]
  | trans h _ ih ih' => rw [ih hnil, ih' (h.pairwise hnil fun hxy => hxy.symm)]

namespace Assembled

variable {c : Conventions} {xs ys : List SourceFile} {p q : Project} (hp : Assembled c xs p)
  (hq : Assembled c ys q)

include hp hq

/-- The global scopes are twins: both have the path of the start. -/
theorem twins_root : Twins p.index q.index root root :=
  ⟨hp.consistent.root_lt, hq.consistent.root_lt,
    hp.grown.root_initial.2.2.trans hq.grown.root_initial.2.2.symm⟩

/-- Every scope is the global one, or the copy of a scope of a file; and
of that there is a copy in the other index. -/
theorem exists_copies (hsub : ∀ file ∈ xs, file ∈ ys) {i : Nat} (hi : i < p.index.size) :
    i = root ∨ ∃ file m m' k, Placed c xs file m p.index ∧ Placed c ys file m' q.index
      ∧ root < k ∧ k < (alone c file).size ∧ moved m k = i
      ∧ Twins p.index q.index i (moved m' k) := by
  by_cases hroot : i = root
  · exact .inl hroot
  · obtain ⟨file, hfile, m, -, hplaced, k, hpos, hk, rfl⟩ :=
      hp.laid.cover (Nat.pos_of_ne_zero hroot) hi
    obtain ⟨m', -, hplaced'⟩ := hq.laid.placed (hsub file hfile)
    refine .inr ⟨file, m, m', k, hplaced, hplaced', hpos, hk, rfl, hi, hplaced'.lt k hk, ?_⟩
    rw [hplaced.outputPath hk, hplaced'.outputPath hk]

/-- So every scope has a twin. -/
theorem exists_twin (hsub : ∀ file ∈ xs, file ∈ ys) {i : Nat} (hi : i < p.index.size) :
    ∃ j, Twins p.index q.index i j := by
  rcases exists_copies hp hq hsub hi with rfl | ⟨_, _, m', k, _, _, _, _, _, htwins⟩
  · exact ⟨root, twins_root hp hq⟩
  · exact ⟨moved m' k, htwins⟩

/-- Twins are the global scopes, or copies of one scope of one file. A
path belongs to one scope only, so a scope of the same path is the
copy. -/
theorem twins_cases (hsub : ∀ file ∈ xs, file ∈ ys) {i j : Nat} (ht : Twins p.index q.index i j) :
    (i = root ∧ j = root)
      ∨ ∃ file m m' k, Placed c xs file m p.index ∧ Placed c ys file m' q.index
          ∧ root < k ∧ k < (alone c file).size ∧ moved m k = i ∧ moved m' k = j := by
  -- A path belongs to one scope only, so the twin that was found is the given one.
  have hunique : ∀ j', Twins p.index q.index i j' → j' = j := fun j' ht' =>
    hq.consistent.eq_of_outputPath ht'.right ht.right (ht'.path.symm.trans ht.path)
  rcases exists_copies hp hq hsub ht.left with rfl | ⟨file, m, m', k, hm, hm', hpos, hk, hi, htwins⟩
  · exact .inl ⟨rfl, (hunique root (twins_root hp hq)).symm⟩
  · exact .inr ⟨file, m, m', k, hm, hm', hpos, hk, hi, hunique _ htwins⟩

/-- What copies have in common with their originals, and the global
scopes with each other, is the same for twins. Packages, parents and
module names are all of this kind. -/
theorem eq_of_twins {γ : Type} (f : SymbolIndex → Nat → γ)
    (hroot : f p.index root = f q.index root)
    (hcopy : ∀ file n ix k, Embedded n (alone c file) ix → k < (alone c file).size →
      f ix (moved n k) = f (alone c file) k)
    (hsub : ∀ file ∈ xs, file ∈ ys) (i j : Nat) (ht : Twins p.index q.index i j) :
    f p.index i = f q.index j := by
  rcases twins_cases hp hq hsub ht with
    ⟨rfl, rfl⟩ | ⟨file, m, m', k, hm, hm', -, hk, rfl, rfl⟩
  · exact hroot
  · rw [hcopy file m p.index k hm.toEmbedded hk, hcopy file m' q.index k hm'.toEmbedded hk]

/-- Twins have the same statements, up to their order in the global
scope. If at most one file binds names there, twins bind the same names
in the same order. -/
theorem statementsAt_twins (hperm : xs.Perm ys)
    (himports : xs.Pairwise fun f g => importsFor root (p.index.fileFilings [f]) = []
      ∨ importsFor root (p.index.fileFilings [g]) = [])
    {i j : Nat} (ht : Twins p.index q.index i j) :
    (statementsAt i (p.index.fileFilings xs)).Perm (statementsAt j (q.index.fileFilings ys))
      ∧ (statementsAt i (p.index.fileFilings xs)).flatMap Statement.importEntries
        = (statementsAt j (q.index.fileFilings ys)).flatMap Statement.importEntries := by
  rcases twins_cases hp hq (fun _ => hperm.mem_iff.mp) ht with
    ⟨rfl, rfl⟩ | ⟨file, m, m', k, hm, hm', hpos, hk, rfl, rfl⟩
  · rw [hp.laid.statementsAt_root, hq.laid.statementsAt_root]
    refine ⟨hperm.flatMap_right _, ?_⟩
    rw [List.flatMap_assoc, List.flatMap_assoc]
    -- The names that a file binds in the global scope are those it binds on its own.
    have hown : ∀ f ∈ xs, importsFor root (p.index.fileFilings [f])
        = (statementsAt root ((alone c f).fileFilings [f])).flatMap Statement.importEntries := by
      intro f hf
      obtain ⟨m, -, hplaced⟩ := hp.laid.placed hf
      rw [importsFor_eq, hplaced.statementsAt_root]
    refine flatMap_of_perm hperm _ (himports.imp_of_mem fun {f g} hf hg hnil => ?_)
    rw [hown f hf, hown g hg] at hnil
    exact hnil
  · rw [hm.statements k hpos hk, hm'.statements k hpos hk]
    exact ⟨.refl _, rfl⟩

/-- Two orders of files give indexes that agree but for the numbers.
What does not depend on the statements comes from the copies, and what
does from the statements that twins have in common. -/
theorem mirrored (hperm : xs.Perm ys)
    (himports : xs.Pairwise fun f g => importsFor root (p.index.fileFilings [f]) = []
      ∨ importsFor root (p.index.fileFilings [g]) = []) : p.index.Mirrored q.index := by
  have hsub : ∀ file ∈ xs, file ∈ ys := fun _ => hperm.mem_iff.mp
  have hlt : root < (SymbolIndex.initial c {}).1.size := Nat.one_pos
  refine ⟨hp.grown.root_initial.1.trans hq.grown.root_initial.1.symm, hp.consistent, hq.consistent,
    twins_root hp hq, fun i hi => exists_twin hp hq hsub hi, fun j hj => ?_, ?_, ?_, ?_,
    fun i j ht name => ?_, fun i j ht name => ?_⟩
  · obtain ⟨i, ht⟩ := exists_twin hq hp (fun _ => hperm.mem_iff.mpr) hj
    exact ⟨i, ht.symm⟩
  · refine eq_of_twins hp hq SymbolIndex.packageOf ?_ (fun _ _ _ _ h hk => h.packageOf hk) hsub
    rw [hp.grown.packageOf hlt, hq.grown.packageOf hlt]
  · refine eq_of_twins hp hq (fun ix id => (ix.notedParent id).map ix.outputPath) ?_
      (fun _ _ _ _ h hk => h.map_notedParent hk) hsub
    rw [hp.consistent.notedParent_root, hq.consistent.notedParent_root]
    rfl
  · refine eq_of_twins hp hq SymbolIndex.ownModule ?_ (fun _ _ _ _ h hk => h.ownModule hk) hsub
    rw [hp.grown.ownModule hlt, hq.grown.ownModule hlt]
  -- Names are bound in the same order, and keys are declared whatever the order.
  · rw [hp.importAt_eq, hq.importAt_eq, (statementsAt_twins hp hq hperm himports ht).2]
  · obtain ⟨hstatements, -⟩ := statementsAt_twins hp hq hperm himports ht
    have hkey : ∀ key, p.index.declaresKey i key = q.index.declaresKey j key := by
      intro key
      rw [Bool.eq_iff_iff, hp.declaresKey_iff, hq.declaresKey_iff]
      simp only [hstatements.mem_iff]
    simp only [SymbolIndex.declaresAt_eq, hkey]

end Assembled

/-- Files that share no scopes, and at most one of which has imports in
the global scope, can be collected in any order. The scopes have the
same output paths, and scopes of one path the same package, parent and
module name in effect. Every name is known in both or in neither, is
declared in the same scope of the chain, and is located at the same
place. Global declarations may come from any number of files. Which
scopes files share, and what they import in the global scope, is read
off from one of the two orders. -/
theorem collect_perm (c : Conventions) {xs ys : List SourceFile} (hperm : xs.Perm ys)
    (hscopes : xs.Pairwise (DisjointScopes ((Project.initial c).collect xs).index))
    (himports : xs.Pairwise fun f g =>
      importsFor root (((Project.initial c).collect xs).index.fileFilings [f]) = []
        ∨ importsFor root (((Project.initial c).collect xs).index.fileFilings [g]) = []) :
    let a := ((Project.initial c).collect xs).index
    let b := ((Project.initial c).collect ys).index
    (∀ path, (∃ i < a.size, a.outputPath i = path) ↔ ∃ j < b.size, b.outputPath j = path)
      ∧ ∀ i < a.size, ∀ j < b.size, a.outputPath i = b.outputPath j →
          a.packageOf i = b.packageOf j
          ∧ (a.notedParent i).map a.outputPath = (b.notedParent j).map b.outputPath
          ∧ a.jsModuleOf i = b.jsModuleOf j
          ∧ ∀ name, a.hasName i name = b.hasName j name
            ∧ (a.declaringScope i name).map a.outputPath
              = (b.declaringScope j name).map b.outputPath
            ∧ (a.locate i name).map (fun l => (a.outputPath l.scope, l.name))
              = (b.locate j name).map fun l => (b.outputPath l.scope, l.name) := by
  intro a b
  have hlaid : Laid c a 1 xs := laid_collect c xs (hscopes.imp .inl)
  -- Separate paths do not depend on the order, so the files are laid out in the other order too.
  have hseparate : ys.Pairwise (SeparatePaths c) :=
    hperm.pairwise hlaid.separate SeparatePaths.symm
  have hlaid' : Laid c b 1 ys := laid_collect c ys (hseparate.imp .inr)
  have hp : Assembled c xs ((Project.initial c).collect xs) :=
    ⟨(Project.initial c).collected xs (rooted_initial c), hlaid⟩
  have hq : Assembled c ys ((Project.initial c).collect ys) :=
    ⟨(Project.initial c).collected ys (rooted_initial c), hlaid'⟩
  have hmirrored : a.Mirrored b := hp.mirrored hq hperm himports
  refine ⟨hmirrored.exists_path_iff, fun i hi j hj hpath => ?_⟩
  have ht : Twins a b i j := ⟨hi, hj, hpath⟩
  exact ⟨hmirrored.packageOf i j ht, hmirrored.parent i j ht, hmirrored.jsModuleOf ht,
    fun name => ⟨hmirrored.hasName ht name, hmirrored.declaringScope ht name,
      hmirrored.locate ht name⟩⟩

/-- A file with a namespace in a module, and an import in the global
scope. -/
def userFile : SourceFile :=
  ⟨"user.d.ts",
    [⟨"global", .global, [.importDecl ⟨"lib", [.named "Base" (some "Root")]⟩]⟩,
     ⟨"user", .ambient, [.moduleDecl "Inner" .namespaced [.classDecl ⟨some "C", none, [], []⟩]]⟩]⟩

/-- The file it imports from, with a global class of its own. -/
def libFile : SourceFile :=
  ⟨"lib.d.ts",
    [⟨"global", .global, [.classDecl ⟨some "G", none, [], []⟩]⟩,
     ⟨"lib", .ambient, [.classDecl ⟨some "Base", none, [], []⟩]⟩]⟩

/-- The scope of the namespace has the numbers 2 and 3. From there the
imported name is located in the module `lib`, which has the numbers 3
and 1, and so the same path. -/
theorem collect_perm_userFile :
    let a := ((Project.initial {}).collect [userFile, libFile]).index
    let b := ((Project.initial {}).collect [libFile, userFile]).index
    a.locate 2 "Root" = some ⟨3, "Base"⟩ ∧ b.locate 3 "Root" = some ⟨1, "Base"⟩
      ∧ a.jsModuleOf 2 = some "user" ∧ b.jsModuleOf 3 = a.jsModuleOf 2
      ∧ (b.locate 3 "Root").map (fun l => (b.outputPath l.scope, l.name))
        = (a.locate 2 "Root").map fun l => (a.outputPath l.scope, l.name) := by
  intro a b
  obtain ⟨-, htwins⟩ := collect_perm {} (.swap libFile userFile []) (by decide +kernel)
    (by decide +kernel)
  obtain ⟨-, -, hmodule, hnames⟩ :=
    htwins 2 (by decide +kernel) 3 (by decide +kernel) (by decide +kernel)
  obtain ⟨-, -, hlocate⟩ := hnames "Root"
  exact ⟨by decide +kernel, by decide +kernel, by decide +kernel, hmodule.symm, hlocate.symm⟩

end Externals.Project
