import Externals.Proofs.Scope.Packages
import Externals.Proofs.Scope.Resolution

/-!
# `Externals.Proofs.Scope.Namespaces`: the package of a dotted name

A dotted name is imported from the package of its namespace. A module
that was imported as a whole under the name of the namespace comes
first, looked for from the scope outwards. After that the scope does not
matter: of all namespaces of the name, wherever they stand, the one that
was registered first gives the package. If there is none, the package is
the one that a namespace at the root would get.

Taking the first one is not how other names are looked up. `Means` says
what the tree says: a name means the namespace in the nearest scope
around that has one of this name. There is at most one, since two
namespaces with the same name and package share a path
(`eq_of_packageOf`).

* `namespacePackage_lexical_iff`: the package is that of the namespace
  the name means exactly if this one is the first of its name.
* `namespacePackage_register`: the package without a namespace is the
  one of the scope that registering the namespace gives, whether that
  scope is new or not, and it stays the answer afterwards.
-/

set_option autoImplicit false

namespace Externals.SymbolIndex

/-! ### Namespaces of a name -/

/-- The scope was made for a namespace of the name. A namespace that was
given the scope of another module is not counted: the scope notes only
what it was made for. -/
def IsNamespace (ix : SymbolIndex) (space : String) (n : Nat) : Prop :=
  ix.scopes[n]?.map (fun s => (s.kind, s.rawName)) = some (.namespaced, space)

/-- One scope is looked at, so this can be decided. -/
instance (ix : SymbolIndex) (space : String) (n : Nat) : Decidable (ix.IsNamespace space n) :=
  inferInstanceAs (Decidable (_ = some _))

/-- A namespace of the name stands in the scope, as one of its
children. -/
def Holds (ix : SymbolIndex) (space : String) (i : Nat) : Prop :=
  ∃ n, ix.IsNamespace space n ∧ ix.notedParent n = some i

/-- The namespace that a name means, seen from a scope: the one in the
nearest scope around that has a namespace of the name. -/
def Means (ix : SymbolIndex) (space : String) (id n : Nat) : Prop :=
  ix.IsNamespace space n
    ∧ ∃ i, ix.notedParent n = some i ∧ ix.Nearest (ix.Holds space) id i

/-- No scope around imports a module that is known as a whole under the
name. -/
def NotImported (ix : SymbolIndex) (space : String) (id : Nat) : Prop :=
  ∀ i, ix.Within id i → ∀ source, (ix.importsOf i).get? space = some (.whole source) →
    ix.resolveModule source = none

/-- In terms of the scope that is there. -/
theorem isNamespace_iff {ix : SymbolIndex} {space : String} {n : Nat} :
    ix.IsNamespace space n
      ↔ ∃ s, ix.scopes[n]? = some s ∧ s.kind = .namespaced ∧ s.rawName = space := by
  simp only [IsNamespace, Option.map_eq_some_iff, Prod.mk.injEq]

/-- Of the namespaces of a name, the first is found: the one that was
registered before all others. Where they stand does not matter. -/
theorem namespace?_eq_some_iff {ix : SymbolIndex} {space : String} {n : Nat} :
    ix.namespace? space = some n
      ↔ ix.IsNamespace space n ∧ ∀ m, ix.IsNamespace space m → n ≤ m := by
  have hspace : ∀ m (hm : m < ix.scopes.length),
      ((ix.scopes[m].kind == .namespaced && ix.scopes[m].rawName == space) = true)
        ↔ ix.IsNamespace space m := by
    intro m hm
    rw [isNamespace_iff, List.getElem?_eq_getElem hm]
    simp
  -- The first position found is the least one that satisfies the test.
  rw [namespace?, List.findIdx?_eq_some_iff_getElem]
  constructor
  · rintro ⟨hn, hfound, hbefore⟩
    refine ⟨(hspace n hn).mp hfound, fun m hm => Nat.le_of_not_lt fun hlt => ?_⟩
    exact hbefore m hlt ((hspace m (Nat.lt_trans hlt hn)).mpr hm)
  · rintro ⟨hfound, hfirst⟩
    obtain ⟨s, hs, -⟩ := isNamespace_iff.mp hfound
    obtain ⟨hn, -⟩ := List.getElem?_eq_some_iff.mp hs
    refine ⟨hn, (hspace n hn).mpr hfound, fun m hlt hm => ?_⟩
    exact Nat.not_le_of_lt hlt (hfirst m ((hspace m (Nat.lt_trans hlt hn)).mp hm))

/-- Nothing is found if there is none. -/
theorem namespace?_eq_none_iff {ix : SymbolIndex} {space : String} :
    ix.namespace? space = none ↔ ∀ n, ¬ ix.IsNamespace space n := by
  constructor
  -- A search that fails leaves no namespace of the name, and one that succeeds gives such a
  -- one.
  · intro hnone n hn
    rw [namespace?, List.findIdx?_eq_none_iff] at hnone
    obtain ⟨s, hs, hkind, hname⟩ := isNamespace_iff.mp hn
    have hs' := hnone s (List.mem_of_getElem? hs)
    simp [hkind, hname] at hs'
  · intro hnone
    cases hfound : ix.namespace? space with
    | none => rfl
    | some n => exact absurd (namespace?_eq_some_iff.mp hfound).1 (hnone n)

/-! ### Imports of whole modules -/

/-- An import of a whole module counts at a scope if the module is
known. -/
theorem wholeImportAt_eq_some_iff {ix : SymbolIndex} {space : String} {i target : Nat} :
    ix.wholeImportAt space i = some target
      ↔ ∃ source, (ix.importsOf i).get? space = some (.whole source)
          ∧ ix.resolveModule source = some target := by
  rw [wholeImportAt, importAt_eq]
  cases (ix.importsOf i).get? space with
  | none => simp
  | some imp => cases imp <;> simp

/-- No such import counts in any scope around. -/
theorem notImported_iff {ix : SymbolIndex} {space : String} {id : Nat} :
    ix.NotImported space id ↔ ∀ i, ix.Within id i → ix.wholeImportAt space i = none := by
  refine forall₂_congr fun i _ => ?_
  simp only [Option.eq_none_iff_forall_ne_some, ne_eq, wholeImportAt_eq_some_iff, not_exists,
    not_and]
  exact ⟨fun h target source hs => h source hs target, fun h source hs target => h target source hs⟩

/-- Without such an import the namespaces are asked, and if there is
none, the conventions. -/
theorem Consistent.namespacePackage_eq {ix : SymbolIndex} (h : ix.Consistent) {space : String}
    {id : Nat} (himport : ix.NotImported space id) :
    ix.namespacePackage id space
      = (ix.namespace? space).elim
          (joinPackage ix.conventions.rootPackage (packageSegment .namespaced space ""))
          ix.packageOf := by
  have hnone : (ix.chain id).findSome? (ix.wholeImportAt space) = none := by
    refine List.findSome?_eq_none_iff.mpr fun i hi => ?_
    exact notImported_iff.mp himport i (h.mem_chain_iff.mp hi)
  rw [namespacePackage, hnone]
  cases ix.namespace? space <;> rfl

/-! ### What a name means -/

namespace AllNamed

variable {ix : SymbolIndex} {space : String} {m n : Nat}

/-- The file of a namespace is called like the namespace, in its
package. -/
theorem outputPath_namespace (h : ix.AllNamed) (hn : ix.IsNamespace space n) :
    ix.outputPath n = ix.conventions.pathOf (ix.packageOf n) space := by
  obtain ⟨s, hs, hkind, hname⟩ := isNamespace_iff.mp hn
  have hstem := (h s (List.mem_of_getElem? hs)).stem_eq
  rw [hkind, hname] at hstem
  rw [outputPath, hs]
  exact congrArg _ hstem

/-- Namespaces of a name are told apart by their packages, since name
and package make up the path. -/
theorem eq_of_packageOf (h : ix.AllNamed) (hix : ix.Consistent) (hm : ix.IsNamespace space m)
    (hn : ix.IsNamespace space n) (heq : ix.packageOf m = ix.packageOf n) : m = n := by
  have hlt : ∀ {n}, ix.IsNamespace space n → n < ix.size := by
    intro n hn
    obtain ⟨s, hs, -⟩ := isNamespace_iff.mp hn
    exact getElem?_isSome_iff.mp (by rw [hs]; rfl)
  refine hix.eq_of_outputPath (hlt hm) (hlt hn) ?_
  rw [h.outputPath_namespace hm, h.outputPath_namespace hn, heq]

/-- A scope has at most one namespace of a name. Two of them would have
the same package: that of the parent, or the one that a namespace at the
root gets. -/
theorem eq_of_notedParent (h : ix.AllNamed) (hix : ix.Consistent) (hm : ix.IsNamespace space m)
    (hn : ix.IsNamespace space n) {parent : Nat} (hmp : ix.notedParent m = some parent)
    (hnp : ix.notedParent n = some parent) : m = n := by
  -- Both add the same segment to the package of the parent.
  have hpackage : ∀ {n}, ix.IsNamespace space n → ix.notedParent n = some parent →
      ix.packageOf n = joinPackage (ix.packageOf parent)
        (if parent != root then ""
          else packageSegment .namespaced space ix.conventions.modulePrefix) := by
    intro n hn hparent
    obtain ⟨s, hs, hkind, hname⟩ := isNamespace_iff.mp hn
    have hnamed := (h s (List.mem_of_getElem? hs)).segment_eq
    have hsparent : s.parent = some parent := by
      rw [notedParent, hs] at hparent
      exact hparent
    rw [hkind, hname, hsparent] at hnamed
    rw [packageOf_of_parent? (by rw [hix.parent?_eq, hparent]), segmentOf, hs]
    exact congrArg _ hnamed
  exact h.eq_of_packageOf hix hm hn ((hpackage hm hmp).trans (hpackage hn hnp).symm)

/-- So a name means at most one namespace: there is one nearest scope,
and it has one. -/
theorem means_unique (h : ix.AllNamed) (hix : ix.Consistent) {id : Nat}
    (hm : ix.Means space id m) (hn : ix.Means space id n) : m = n := by
  obtain ⟨hm, i, hmp, hi⟩ := hm
  obtain ⟨hn, j, hnp, hj⟩ := hn
  obtain rfl := hix.nearest_unique hi hj
  exact h.eq_of_notedParent hix hm hn hmp hnp

end AllNamed

/-- Take a scope with a namespace of a name in a scope around, and no
module imported under the name. Then the name means exactly one
namespace. But the package is that of the first namespace of the name,
whatever scopes it stands in; it is that of the namespace the name means
only if this one is the first. -/
theorem namespacePackage_lexical_iff {c : Conventions} {ix : SymbolIndex} (h : ix.Reachable c)
    {id : Nat} {space : String} (himport : ix.NotImported space id)
    (hvisible : ∃ i, ix.Within id i ∧ ix.Holds space i) :
    ∃ first n, (ix.IsNamespace space first ∧ ∀ m, ix.IsNamespace space m → first ≤ m)
      ∧ (∀ m, ix.Means space id m ↔ m = n)
      ∧ ix.namespacePackage id space = ix.packageOf first
      ∧ (ix.namespacePackage id space = ix.packageOf n ↔ first = n) := by
  have hix := h.consistent
  obtain ⟨-, hnamed⟩ := h.allNamed
  obtain ⟨i, hi, hholds⟩ := hvisible
  obtain ⟨j, hnearest⟩ := hix.exists_nearest hi hholds
  obtain ⟨n, hn, hparent⟩ := hnearest.holds
  -- This is the namespace that the tree says. The look-up takes another one if that was
  -- registered before it.
  have hmeans : ix.Means space id n := ⟨hn, j, hparent, hnearest⟩
  cases hfound : ix.namespace? space with
  | none => exact absurd hn (namespace?_eq_none_iff.mp hfound n)
  | some first =>
      have hfirst := namespace?_eq_some_iff.mp hfound
      have hpackage : ix.namespacePackage id space = ix.packageOf first := by
        rw [hix.namespacePackage_eq himport, hfound]
        rfl
      refine ⟨first, n, hfirst, fun m => ⟨fun hm => hnamed.means_unique hix hm hmeans, ?_⟩,
        hpackage, ?_⟩
      · rintro rfl
        exact hmeans
      · rw [hpackage]
        exact ⟨hnamed.eq_of_packageOf hix hfirst.1 hn, fun heq => by rw [heq]⟩

/-- Two modules with a namespace of the same name each. -/
def twoSpaces : SymbolIndex :=
  let ix := ((initial {} {}).1.register {} "a" .ambient none).1
  let ix := (ix.register {} "N" .namespaced (some 1)).1
  let ix := (ix.register {} "b" .ambient none).1
  (ix.register {} "N" .namespaced (some 3)).1

/-- It is made by registering modules. -/
theorem reachable_twoSpaces : twoSpaces.Reachable {} := by
  refine ⟨{}, .tail (.tail (.tail (.single (.register {} "a" .ambient none nofun))
    (.register {} "N" .namespaced (some 1) ?_)) (.register {} "b" .ambient none nofun))
    (.register {} "N" .namespaced (some 3) ?_)⟩
  · intro p hp
    cases hp
    decide +kernel
  · intro p hp
    cases hp
    decide +kernel

/-- In the module `b` the name means the namespace of `b`, and the package
is that of the module `a`. -/
theorem namespacePackage_twoSpaces :
    twoSpaces.NotImported "N" 3 ∧ twoSpaces.Means "N" 3 4
      ∧ twoSpaces.packageOf 4 = "org.node.b"
      ∧ twoSpaces.namespacePackage 3 "N" = "org.node.a"
      ∧ twoSpaces.namespacePackage 3 "N" ≠ twoSpaces.packageOf 4 := by
  have hempty : ∀ i ≤ 3, twoSpaces.wholeImportAt "N" i = none := by decide +kernel
  have himport : twoSpaces.NotImported "N" 3 :=
    notImported_iff.mpr fun i hi => hempty i (reachable_twoSpaces.consistent.le_of_within hi)
  have hholds : twoSpaces.Holds "N" 3 := ⟨4, by decide +kernel, by decide +kernel⟩
  have hearlier : twoSpaces.IsNamespace "N" 2 := by decide +kernel
  have hmeans : twoSpaces.Means "N" 3 4 := ⟨by decide +kernel, 3, by decide +kernel, .self hholds⟩
  -- The name means scope 4, while scope 2 was registered earlier under the same name.
  obtain ⟨first, n, hfirst, honly, -, hiff⟩ :=
    namespacePackage_lexical_iff reachable_twoSpaces himport ⟨3, .refl, hholds⟩
  refine ⟨himport, hmeans, by decide +kernel, by decide +kernel, fun heq => ?_⟩
  obtain rfl := (honly 4).mp hmeans
  have hle := hfirst.2 2 hearlier
  rw [hiff.mp heq] at hle
  exact absurd hle (by decide)

/-! ### The package of a namespace that is not there -/

/-- What is around a scope stays when an index grows. -/
theorem Grown.within {a b : SymbolIndex} (h : a.Grown b) (ha : a.Consistent) {id i : Nat}
    (hid : id < a.size) (hi : b.Within id i) : a.Within id i := by
  induction hi using Relation.ReflTransGen.head_induction_on with
  | refl => exact .refl
  | head hparent _ ih =>
      rw [h.notedParent hid] at hparent
      exact .head hparent (ih (Nat.lt_trans (ha.lt_of_notedParent hparent) hid))

/-- The package of the global scope is the root package. -/
theorem Reachable.packageOf_root {c : Conventions} {ix : SymbolIndex} (h : ix.Reachable c) :
    ix.packageOf root = ix.conventions.rootPackage := by
  obtain ⟨start, hrun⟩ := h
  obtain ⟨hconventions, hpackage, -⟩ :=
    (hrun.consistent (consistent_initial c start)).2.root_initial
  rw [hpackage, hconventions]

/-- The place of a namespace at the root: its segment, its stem and its
path. -/
theorem Reachable.placeOf_namespace {c : Conventions} {ix : SymbolIndex} (h : ix.Reachable c)
    (space : String) :
    ix.placeOf space .namespaced root
      = (packageSegment .namespaced space "", space,
          ix.conventions.pathOf
            (joinPackage ix.conventions.rootPackage (packageSegment .namespaced space ""))
            space) := by
  rw [placeOf, h.packageOf_root]
  rfl

/-- A module that leads somewhere after a scope was made leads to that
scope, or where it led before. -/
theorem resolveModule_withScope {ix : SymbolIndex} (hroot : root < ix.size) {scope : Scope}
    {path : String} (hpath : ix.byPath.get? path = none) {source : String} {target : Nat}
    (h : (ix.withScope scope path).resolveModule source = some target) :
    target = ix.size ∨ ix.resolveModule source = some target := by
  rw [resolveModule, (Grown.withScope ix scope hpath).placeOf source .ambient hroot] at h
  replace h : (ix.byPath.insert path ix.size).get? (ix.placeOf source .ambient root).2.2
      = some target := h
  rw [Table.get?_insert] at h
  split at h
  · exact .inl (Option.some.inj h).symm
  · exact .inr h

section

variable {c : Conventions} {ix : SymbolIndex} {space : String}

/-- A scope that a namespace at the root is registered with has the
package that a namespace at the root gets. It need not be a namespace. -/
theorem packageOf_scopeOf_namespace (h : ix.Reachable c)
    (hnames : ∀ s ∈ ix.scopes, s.kind = .namespaced → '/' ∉ s.rawName.toList)
    (hspace : '/' ∉ space.toList) (hne : space ≠ "")
    (hm : ix.HasModule space .namespaced (some root)) :
    ix.packageOf (ix.scopeOf space .namespaced (some root))
      = joinPackage ix.conventions.rootPackage (packageSegment .namespaced space "") := by
  have hpath := h.consistent.outputPath_scopeOf hm (by decide)
  rw [Option.getD_some, h.placeOf_namespace] at hpath
  have hpackage : ix.conventions.UnderRoot
      (joinPackage ix.conventions.rootPackage (packageSegment .namespaced space "")) :=
    (Conventions.UnderRoot.rootPackage ix.conventions).joinPackage
      (slash_not_mem_packageSegment _ _ _)
  exact h.allNamed.2.packageOf_of_outputPath hnames hpackage hspace hne hpath

/-- A new scope for a namespace of a new name is the only one of the
name, so it is the first. -/
theorem isNamespace_withScope {scope : Scope} (hkind : scope.kind = .namespaced)
    (hname : scope.rawName = space) (hnew : ∀ n, ¬ ix.IsNamespace space n) (path : String)
    (m : Nat) : (ix.withScope scope path).IsNamespace space m ↔ m = ix.size := by
  rw [IsNamespace, getElem?_withScope]
  split
  · rename_i heq
    exact iff_of_true (by rw [Option.map_some, hkind, hname]) heq
  · rename_i hm
    exact iff_of_false (hnew m) hm

/-- If no module was imported under a name, the only scope that an import
can lead to is a new one. -/
theorem NotImported.eq_size {id : Nat} (h : ix.NotImported space id) (hix : ix.Consistent)
    (hid : id < ix.size) {scope : Scope} (hempty : scope.imports = .empty) {path : String}
    (hpath : ix.byPath.get? path = none) {i target : Nat}
    (hi : (ix.withScope scope path).Within id i)
    (hwhole : (ix.withScope scope path).wholeImportAt space i = some target) :
    target = ix.size := by
  obtain ⟨source, hsource, hresolve⟩ := wholeImportAt_eq_some_iff.mp hwhole
  have himports : (ix.withScope scope path).importsOf i = ix.importsOf i :=
    getD_withScope ix path Scope.imports .empty hempty i
  rw [himports] at hsource
  -- The import led nowhere before, so if it leads somewhere now it is to the new scope.
  rcases resolveModule_withScope hix.root_lt hpath hresolve with heq | hold
  · exact heq
  · have hbefore := (Grown.withScope ix scope hpath).within hix hid hi
    rw [h i hbefore source hsource] at hold
    cases hold

/-- With a new scope for a namespace, the package of the namespace is that
of the scope. An import of a module that was not known before may lead
to the new scope now; the answer is the same. -/
theorem namespacePackage_withScope (hix : ix.Consistent) {scope : Scope} {path : String}
    (hmade : (ix.withScope scope path).Consistent) (hkind : scope.kind = .namespaced)
    (hname : scope.rawName = space) (hempty : scope.imports = .empty)
    (hpath : ix.byPath.get? path = none) {id : Nat} (hid : id < ix.size)
    (himport : ix.NotImported space id) (hnew : ∀ n, ¬ ix.IsNamespace space n) :
    (ix.withScope scope path).namespacePackage id space
      = (ix.withScope scope path).packageOf ix.size := by
  rw [namespacePackage]
  -- Whichever of the two rules answers, the answer is the scope just added: it is the only
  -- one of that name.
  cases hfound : ((ix.withScope scope path).chain id).findSome?
      ((ix.withScope scope path).wholeImportAt space) with
  | some target =>
      obtain ⟨i, hi, hwhole⟩ := List.exists_of_findSome?_eq_some hfound
      rw [himport.eq_size hix hid hempty hpath (hmade.mem_chain_iff.mp hi) hwhole]
  | none =>
      have hspaces := isNamespace_withScope hkind hname hnew path
      have hfirst : (ix.withScope scope path).namespace? space = some ix.size := by
        rw [namespace?_eq_some_iff]
        exact ⟨(hspaces _).mpr rfl, fun m hm => Nat.le_of_eq ((hspaces m).mp hm).symm⟩
      rw [hfirst]

/-- Take a name that no namespace has and under which no module was
imported, in an index where the names of namespaces have no slashes. The
package that a dotted name gets from it is the one of the scope that
registering the namespace at the root gives, be that scope a new one or
an existing one with the same path; and the package stays the same after
the registration. -/
theorem namespacePackage_register (h : ix.Reachable c)
    (hnames : ∀ s ∈ ix.scopes, s.kind = .namespaced → '/' ∉ s.rawName.toList)
    (hspace : '/' ∉ space.toList) (hne : space ≠ "") {id : Nat} (hid : id < ix.size)
    (himport : ix.NotImported space id) (hnew : ∀ n, ¬ ix.IsNamespace space n) (hs : Headers) :
    let r := ix.register hs space .namespaced (some root)
    ix.namespacePackage id space = r.1.packageOf r.2.2
      ∧ r.1.namespacePackage id space = r.1.packageOf r.2.2 := by
  intro r
  have hix := h.consistent
  have hbefore : ix.namespacePackage id space
      = joinPackage ix.conventions.rootPackage (packageSegment .namespaced space "") := by
    rw [hix.namespacePackage_eq himport, namespace?_eq_none_iff.mpr hnew]
    rfl
  by_cases hm : ix.HasModule space .namespaced (some root)
  -- A scope with the path is there, and has the package that the path tells.
  · have hr : r = (ix, hs, ix.scopeOf space .namespaced (some root)) := register_kept hm hs
    have hpackage := packageOf_scopeOf_namespace h hnames hspace hne hm
    rw [hr]
    exact ⟨hbefore.trans hpackage.symm, hbefore.trans hpackage.symm⟩
  · have hr := register_made hm hs
    rw [HasModule, not_or, Option.not_isSome_iff_eq_none] at hm
    rw [Option.getD_some] at hr hm
    -- A scope is made, and it becomes the first namespace of the name.
    have hpackage := packageOf_newScope hix.root_lt space .namespaced hs.size hm.2
    have hmade := hix.withScope hix.root_lt space .namespaced hs.size hm.2
    have hafter := namespacePackage_withScope hix hmade rfl rfl rfl hm.2 hid himport hnew
    rw [show r = _ from hr]
    have hsegment :
        (ix.placeOf space .namespaced root).1 = packageSegment .namespaced space "" := by
      rw [h.placeOf_namespace]
    rw [h.packageOf_root, hsegment] at hpackage
    exact ⟨hbefore.trans hpackage.symm, hafter⟩

end

/-- A module `fs`, and a module that imports all of another one as `fs`,
which is not there. -/
def sharedPath : SymbolIndex :=
  let ix := ((initial {} {}).1.register {} "fs" .ambient none).1
  let ix := (ix.register {} "m" .ambient none).1.addImport 2 "fs" (.whole "missing")
  (ix.register {} "Stats" .namespaced (some 2)).1

/-- It is made by registering modules and noting an import. -/
theorem reachable_sharedPath : sharedPath.Reachable {} := by
  refine ⟨{}, .tail (.tail (.tail (.single (.register {} "fs" .ambient none nofun))
    (.register {} "m" .ambient none nofun)) (.addImport 2 _ _))
    (.register {} "Stats" .namespaced (some 2) ?_)⟩
  intro p hp
  cases hp
  decide +kernel

/-- A namespace `fs` would share the scope of the module `fs`, and its
package is the one of that module, before and after. -/
theorem namespacePackage_sharedPath :
    sharedPath.NotImported "fs" 2
      ∧ sharedPath.register {} "fs" .namespaced (some root) = (sharedPath, {}, 1)
      ∧ sharedPath.namespacePackage 2 "fs" = sharedPath.packageOf 1
      ∧ sharedPath.packageOf 1 = "org.node.fs" := by
  have hnames : (sharedPath.scopes.all fun s => !s.rawName.toList.contains '/') = true := by
    decide +kernel
  have hnone : ∀ i ≤ 2, sharedPath.wholeImportAt "fs" i = none := by decide +kernel
  have himport : sharedPath.NotImported "fs" 2 :=
    notImported_iff.mpr fun i hi => hnone i (reachable_sharedPath.consistent.le_of_within hi)
  obtain ⟨hbefore, -⟩ := namespacePackage_register reachable_sharedPath
    (fun s hs _ => by simpa using List.all_eq_true.mp hnames s hs) (by decide) (by decide)
    (by decide +kernel : 2 < sharedPath.size) himport
    (namespace?_eq_none_iff.mp (by decide +kernel)) {}
  have hscope : sharedPath.scopeOf "fs" .namespaced (some root) = 1 := by decide +kernel
  -- Registering again finds the scope that is there and changes nothing.
  have hregister : sharedPath.register {} "fs" .namespaced (some root) = (sharedPath, {}, 1) := by
    rw [register_kept (.inr (by decide +kernel)), hscope]
  rw [hregister] at hbefore
  exact ⟨himport, hregister, hbefore, by decide +kernel⟩

end Externals.SymbolIndex
