import Externals.Proofs.Scope.Growth
import Mathlib.Logic.Relation

/-!
# `Externals.Proofs.Scope.Registry`: what holds of every index

An index starts with the global scope and changes by four operations:
registering a module, filing a declaration, noting an import, keeping
an artifact. `Step` is one of them, `Later` any number, and an index is
`Reachable` if it comes later than an initial one. The headers are a
parameter of every registration, so whatever else happens to the arena
in between is covered.

`Consistent` is the invariant. The scopes form a tree below the global
scope, numbered so that parents come before their children, and a path
leads to a scope exactly if it is the output path of that scope. The
second half ties two computations together: registration computes a
path before the scope exists, and `outputPath` computes it again from
the chain. They agree because a new scope keeps the segment and the
stem its path was made of (`outputPath_newScope`), and because growth
never moves a scope (`Grown.outputPath`).

* `Consistent.register`: the one step that is not trivial.
* `Consistent.walk_to_root`: every walk through parents ends at the root.
* `consistent_of_reachable`: the invariant, for all reachable indexes,
  with what follows from it: paths tell scopes apart, names stay, and a
  module that was registered once is found from then on.
-/

set_option autoImplicit false

namespace Externals.SymbolIndex

/-! ### Operations -/

/-- The parent of a scope as it is noted, whether or not there is such a
scope. -/
def notedParent (ix : SymbolIndex) (id : Nat) : Option Nat := ix.scopes[id]?.bind Scope.parent

/-- The module name a scope itself is bound to. A namespace has none,
and takes that of a scope around. -/
def ownModule (ix : SymbolIndex) (id : Nat) : Option String := ix.scopes[id]?.bind Scope.jsModule

/-- One operation on an index. A module is registered at the root or
below a scope that exists, with whatever headers there are. -/
inductive Step (ix : SymbolIndex) : SymbolIndex → Prop
  | register (h : Headers) (name : String) (kind : ModuleKind) (parent : Option Nat)
      (hparent : ∀ p, parent = some p → p < ix.size) : Step ix (ix.register h name kind parent).1
  | declare (id : Nat) (key : DeclKey) (decl : Declaration) : Step ix (ix.declare id key decl)
  | addImport (id : Nat) (localName : String) (imp : ScopeImport) :
      Step ix (ix.addImport id localName imp)
  | storeArtifact (id : Nat) (key : DeclKey) (a : Artifact) : Step ix (ix.storeArtifact id key a)

/-- An index after any number of operations on another. -/
def Later : SymbolIndex → SymbolIndex → Prop := Relation.ReflTransGen Step

/-- An index after any number of operations on an initial one. -/
def Reachable (c : Conventions) (ix : SymbolIndex) : Prop :=
  ∃ h : Headers, Later (initial c h).1 ix

/-- The scopes are a tree below the global scope, and paths lead to the
scopes whose output paths they are. Parents have smaller numbers than
their children, so there are no cycles. -/
structure Consistent (ix : SymbolIndex) : Prop where
  root_lt : root < ix.size
  notedParent_root : ix.notedParent root = none
  notedParent_lt : ∀ id, id < ix.size → id ≠ root → ∃ p, ix.notedParent id = some p ∧ p < id
  byPath_iff : ∀ path id, ix.byPath.get? path = some id ↔ id < ix.size ∧ ix.outputPath id = path

/-! ### Naming along the tree -/

/-- The package of a scope from that of its parent. This is the step of
all inductions along the chain. -/
theorem packageOf_of_parent? {ix : SymbolIndex} {id parent : Nat}
    (h : ix.parent? id = some parent) :
    ix.packageOf id = joinPackage (ix.packageOf parent) (ix.segmentOf id) := by
  rw [packageOf, chain_of_parent? h]
  rfl

/-- Output paths stay when an index grows, as packages and stems do. -/
theorem Grown.outputPath {a b : SymbolIndex} (h : a.Grown b) {id : Nat} (hid : id < a.size) :
    b.outputPath id = a.outputPath id := by
  rw [SymbolIndex.outputPath, SymbolIndex.outputPath, h.conventions, h.packageOf hid,
    h.map_scope Scope.stem (fun _ => rfl) hid]

/-- Noted parents stay. -/
theorem Grown.notedParent {a b : SymbolIndex} (h : a.Grown b) {id : Nat} (hid : id < a.size) :
    b.notedParent id = a.notedParent id :=
  h.bind_scope Scope.parent (fun _ => rfl) hid

/-- And so do the module names that scopes are bound to. -/
theorem Grown.ownModule {a b : SymbolIndex} (h : a.Grown b) {id : Nat} (hid : id < a.size) :
    b.ownModule id = a.ownModule id :=
  h.bind_scope Scope.jsModule (fun _ => rfl) hid

/-- A scope that is made for a module adds its segment to the package of
its parent. The chain of the new scope is that of its parent with the
scope in front, and the chains of old scopes have not changed. -/
theorem packageOf_newScope {ix : SymbolIndex} {parent : Nat} (hparent : parent < ix.size)
    (name : String) (kind : ModuleKind) (header : Nat)
    (hpath : ix.byPath.get? (ix.placeOf name kind parent).2.2 = none) :
    (ix.withScope (ix.newScope name kind parent header)
        (ix.placeOf name kind parent).2.2).packageOf ix.size
      = joinPackage (ix.packageOf parent) (ix.placeOf name kind parent).1 := by
  generalize hscope : ix.newScope name kind parent header = scope
  generalize hmade : ix.withScope scope (ix.placeOf name kind parent).2.2 = made
  have hgrown : ix.Grown made := by
    rw [← hmade]
    exact .withScope ix scope hpath
  have hlast : made.scopes[ix.size]? = some scope := by
    rw [← hmade, getElem?_withScope, if_pos rfl]
  -- The chain of the new scope is the scope itself and the chain of its parent, which is old.
  have hup : made.parent? ix.size = some parent := by
    rw [parent?, hlast, ← hscope]
    simp [newScope, hparent]
  rw [packageOf_of_parent? hup, hgrown.packageOf hparent, segmentOf, hlast, ← hscope]
  rfl

/-- So it has the path it was registered under. The path was computed
before the scope was there. -/
theorem outputPath_newScope {ix : SymbolIndex} {parent : Nat} (hparent : parent < ix.size)
    (name : String) (kind : ModuleKind) (header : Nat)
    (hpath : ix.byPath.get? (ix.placeOf name kind parent).2.2 = none) :
    (ix.withScope (ix.newScope name kind parent header)
        (ix.placeOf name kind parent).2.2).outputPath ix.size
      = (ix.placeOf name kind parent).2.2 := by
  rw [outputPath, packageOf_newScope hparent name kind header hpath, getElem?_withScope,
    if_pos rfl]
  rfl

/-- A module whose path leads to a scope is registered with that scope. -/
theorem scopeOf_of_byPath {ix : SymbolIndex} {name : String} {kind : ModuleKind}
    (parent : Option Nat) {id : Nat} (hkind : kind ≠ .global)
    (hid : ix.byPath.get? (ix.placeOf name kind (parent.getD root)).2.2 = some id) :
    ix.HasModule name kind parent ∧ ix.scopeOf name kind parent = id := by
  refine ⟨.inr (by rw [hid]; rfl), ?_⟩
  simp only [scopeOf, hid, hkind, beq_iff_eq, if_false, Option.getD_some]

/-! ### The invariant -/

/-- An initial index has the global scope and its path. -/
theorem consistent_initial (c : Conventions) (h : Headers) : (initial c h).1.Consistent where
  root_lt := Nat.zero_lt_one
  notedParent_root := rfl
  notedParent_lt := by
    intro id hid hne
    have hsize : (initial c h).1.size = 1 := rfl
    have : id = root := by
      unfold root
      omega
    exact absurd this hne
  byPath_iff := by
    intro path id
    have hchain : (initial c h).1.chain root = [root] := chain_of_root rfl
    have hroot : (initial c h).1.outputPath root = c.pathOf c.rootPackage "global" := by
      simp only [outputPath, packageOf, hchain]
      rfl
    have hsize : (initial c h).1.size = 1 := rfl
    -- There is one scope and one path, and they belong together.
    show (Table.empty.insert (c.pathOf c.rootPackage "global") root).get? path = some id ↔ _
    rw [Table.get?_insert, Table.get?_empty, hsize, ← hroot]
    constructor
    · intro hget
      split at hget
      · rename_i heq
        cases hget
        exact ⟨Nat.zero_lt_one, heq⟩
      · cases hget
    · rintro ⟨hid, hpath⟩
      have : id = root := by
        unfold root
        omega
      subst this
      rw [if_pos hpath]

namespace Consistent

variable {ix : SymbolIndex}

/-- Look-ups by path stay within the index, which is a part of the
invariant. -/
theorem rooted (h : ix.Consistent) : ix.Rooted where
  nonempty := h.root_lt
  byPath_lt := fun path id hid => ((h.byPath_iff path id).mp hid).1

/-- The contents of scopes do not matter: the tree and the paths are
read off from bare scopes. -/
theorem of_bare (h : ix.Consistent) {b : SymbolIndex} (hc : b.conventions = ix.conventions)
    (hp : b.byPath = ix.byPath) (hb : b.scopes.map Scope.bare = ix.scopes.map Scope.bare) :
    b.Consistent := by
  have hgrown : ix.Grown b := .of_bare hc hp hb
  have hsize : b.size = ix.size := size_of_bare hb
  refine ⟨?_, ?_, fun id hid hne => ?_, fun path id => ?_⟩
  · rw [hsize]
    exact h.root_lt
  · rw [hgrown.notedParent h.root_lt]
    exact h.notedParent_root
  · rw [hsize] at hid
    rw [hgrown.notedParent hid]
    exact h.notedParent_lt id hid hne
  · rw [hp, h.byPath_iff, hsize]
    -- The paths of existing scopes agree, and both sides speak of existing scopes only.
    exact and_congr_right fun hid => by rw [hgrown.outputPath hid]

/-- A new scope under a new path. Its number is the largest, so its
parent comes before it, and no other scope has the path. -/
theorem withScope (h : ix.Consistent) {parent : Nat} (hparent : parent < ix.size) (name : String)
    (kind : ModuleKind) (header : Nat)
    (hpath : ix.byPath.get? (ix.placeOf name kind parent).2.2 = none) :
    (ix.withScope (ix.newScope name kind parent header)
      (ix.placeOf name kind parent).2.2).Consistent := by
  have hnew := outputPath_newScope hparent name kind header hpath
  generalize hplace : (ix.placeOf name kind parent).2.2 = path at *
  have hgrown := Grown.withScope ix (ix.newScope name kind parent header) hpath
  refine ⟨?_, ?_, fun id hid hne => ?_, fun path' id => ?_⟩
  · rw [size_withScope]
    exact Nat.lt_succ_of_lt h.root_lt
  · rw [hgrown.notedParent h.root_lt]
    exact h.notedParent_root
  · rw [size_withScope] at hid
    by_cases hlast : id = ix.size
    · refine ⟨parent, ?_, by omega⟩
      rw [notedParent, getElem?_withScope, if_pos hlast]
      rfl
    · have hold : id < ix.size := by omega
      rw [hgrown.notedParent hold]
      exact h.notedParent_lt id hold hne
  · show (ix.byPath.insert path ix.size).get? path' = some id ↔ _
    rw [Table.get?_insert, size_withScope]
    by_cases hlast : id = ix.size
    · -- The new scope: only its own path was added for it, and no old path leads this far.
      subst hlast
      rw [hnew]
      constructor
      · intro hget
        split at hget
        · rename_i heq
          exact ⟨Nat.lt_succ_self _, heq⟩
        · have := ((h.byPath_iff path' ix.size).mp hget).1
          omega
      · rintro ⟨-, heq⟩
        rw [if_pos heq]
    · -- An old scope: its path is not the new one, which led nowhere before.
      have hiff : (ix.byPath.get? path' = some id) ↔ id < ix.size + 1
          ∧ (ix.withScope (ix.newScope name kind parent header) path).outputPath id = path' := by
        rw [h.byPath_iff]
        constructor
        · rintro ⟨hid, hout⟩
          exact ⟨by omega, (hgrown.outputPath hid).trans hout⟩
        · rintro ⟨hid, hout⟩
          have hold : id < ix.size := by omega
          exact ⟨hold, (hgrown.outputPath hold).symm.trans hout⟩
      rw [← hiff]
      split
      · rename_i heq
        subst heq
        simp [hpath, Ne.symm hlast]
      · exact Iff.rfl

/-- Registration keeps the invariant: it changes nothing, or makes a
scope for a path that led nowhere. -/
theorem register (h : ix.Consistent) (hs : Headers) (name : String) (kind : ModuleKind)
    {parent : Option Nat} (hparent : parent.getD root < ix.size) :
    (ix.register hs name kind parent).1.Consistent := by
  by_cases hm : ix.HasModule name kind parent
  · rw [register_kept hm]
    exact h
  · rw [register_made hm]
    rw [HasModule, not_or, Option.not_isSome_iff_eq_none] at hm
    exact h.withScope hparent name kind hs.size hm.2

/-- The chain follows the noted parents: none of them is passed over.
The walk would pass over a parent that does not come before its child,
and there is none. -/
theorem parent?_eq (h : ix.Consistent) (id : Nat) : ix.parent? id = ix.notedParent id := by
  show (ix.notedParent id).filter (fun p => p < id) = _
  -- The test on numbers only guards the recursion: in a consistent index it always holds.
  by_cases hroot : id = root
  · rw [hroot, h.notedParent_root]
    rfl
  · by_cases hid : id < ix.size
    · obtain ⟨p, hp, hlt⟩ := h.notedParent_lt id hid hroot
      simp [hp, hlt]
    · have hnone : ix.scopes[id]? = none := List.getElem?_eq_none (by unfold size at hid; omega)
      simp [notedParent, hnone]

/-- Parents have smaller numbers than their children. -/
theorem lt_of_notedParent (h : ix.Consistent) {id parent : Nat}
    (hparent : ix.notedParent id = some parent) : parent < id :=
  parent?_lt (by rw [h.parent?_eq, hparent])

/-- A scope without a module name takes that of its parent, and one that
has a name keeps it. -/
theorem jsModuleOf_eq (h : ix.Consistent) {id parent : Nat}
    (hparent : ix.notedParent id = some parent) :
    ix.jsModuleOf id = (ix.ownModule id).or (ix.jsModuleOf parent) := by
  have hchain : ix.chain id = id :: ix.chain parent :=
    chain_of_parent? (by rw [h.parent?_eq, hparent])
  rw [jsModuleOf, hchain, List.findSome?_cons, ← jsModuleOf, ownModule]
  cases ix.scopes[id]?.bind Scope.jsModule <;> rfl

/-- Every walk through parents ends at the root, by induction on the
number of the scope. -/
theorem walk_to_root (h : ix.Consistent) (id : Nat) (hid : id < ix.size) :
    Relation.ReflTransGen (fun i p => ix.notedParent i = some p) id root := by
  induction id using Nat.strongRecOn with
  | ind id ih =>
      by_cases hroot : id = root
      · rw [hroot]
      · obtain ⟨p, hp, hlt⟩ := h.notedParent_lt id hid hroot
        exact .head hp (ih p hlt (by omega))

/-- Different scopes have different output paths, because a path leads
to one scope. -/
theorem eq_of_outputPath (h : ix.Consistent) {id id' : Nat} (hid : id < ix.size)
    (hid' : id' < ix.size) (heq : ix.outputPath id = ix.outputPath id') : id = id' := by
  have hleads := (h.byPath_iff _ id).mpr ⟨hid, heq⟩
  have hleads' := (h.byPath_iff _ id').mpr ⟨hid', rfl⟩
  rw [hleads] at hleads'
  exact Option.some.inj hleads'

/-- The scope of a registered module has the path of the module. -/
theorem outputPath_scopeOf (h : ix.Consistent) {name : String} {kind : ModuleKind}
    {parent : Option Nat} (hm : ix.HasModule name kind parent) (hkind : kind ≠ .global) :
    ix.outputPath (ix.scopeOf name kind parent)
      = (ix.placeOf name kind (parent.getD root)).2.2 := by
  obtain ⟨id, hid⟩ := Option.isSome_iff_exists.mp (hm.resolve_left hkind)
  rw [(scopeOf_of_byPath parent hkind hid).2]
  exact ((h.byPath_iff _ id).mp hid).2

end Consistent

/-! ### Runs of operations -/

/-- What an operation can do to the tree of scopes. It leaves the tree as
it is and changes what one scope holds, or it registers a module at the
root or below a scope that exists. Every invariant of the tree is kept
by all operations if it is kept by these two. -/
theorem Step.bare_or_registered {a b : SymbolIndex} (hstep : a.Step b) :
    (b.conventions = a.conventions ∧ b.byPath = a.byPath
        ∧ b.scopes.map Scope.bare = a.scopes.map Scope.bare)
      ∨ ∃ (hs : Headers) (name : String) (kind : ModuleKind) (parent : Option Nat),
          (∀ p, parent = some p → p < a.size) ∧ b = (a.register hs name kind parent).1 := by
  cases hstep with
  | register hs name kind parent hparent => exact .inr ⟨hs, name, kind, parent, hparent, rfl⟩
  | declare id key decl => exact .inl ⟨rfl, rfl, a.bare_declare id key decl⟩
  | addImport id localName imp => exact .inl ⟨rfl, rfl, a.bare_addImport id localName imp⟩
  | storeArtifact id key artifact => exact .inl ⟨rfl, rfl, a.bare_storeArtifact id key artifact⟩

/-- A parent that is left out is the root. -/
theorem Rooted.parent_lt {ix : SymbolIndex} (h : ix.Rooted) {parent : Option Nat}
    (hparent : ∀ p, parent = some p → p < ix.size) : parent.getD root < ix.size := by
  cases hp : parent with
  | none => exact h.nonempty
  | some p => exact hparent p hp

/-- One operation keeps look-ups within the index, and the index only
grows. -/
theorem Step.rooted {a b : SymbolIndex} (hstep : a.Step b) (h : a.Rooted) :
    b.Rooted ∧ a.Grown b := by
  rcases hstep.bare_or_registered with ⟨hc, hp, hb⟩ | ⟨hs, name, kind, parent, hparent, rfl⟩
  · exact ⟨h.of_bare hp hb, .of_bare hc hp hb⟩
  · exact ⟨h.register hs name kind parent, (register_spec hs name kind (h.parent_lt hparent)).1⟩

/-- So does any number of operations. -/
theorem Later.rooted {a b : SymbolIndex} (hlater : a.Later b) (h : a.Rooted) :
    b.Rooted ∧ a.Grown b := by
  induction hlater with
  | refl => exact ⟨h, .refl a⟩
  | tail _ hstep ih =>
      obtain ⟨hmid, hgrown⟩ := ih
      obtain ⟨hlast, hmore⟩ := hstep.rooted hmid
      exact ⟨hlast, hgrown.trans hmore⟩

/-- One operation keeps the invariant. -/
theorem Step.consistent {a b : SymbolIndex} (hstep : a.Step b) (h : a.Consistent) :
    b.Consistent := by
  rcases hstep.bare_or_registered with ⟨hc, hp, hb⟩ | ⟨hs, name, kind, parent, hparent, rfl⟩
  · exact h.of_bare hc hp hb
  · exact h.register hs name kind (h.rooted.parent_lt hparent)

/-- So does any number of operations, and the index only grows. -/
theorem Later.consistent {a b : SymbolIndex} (hlater : a.Later b) (h : a.Consistent) :
    b.Consistent ∧ a.Grown b := by
  refine ⟨?_, (hlater.rooted h.rooted).2⟩
  induction hlater with
  | refl => exact h
  | tail _ hstep ih => exact hstep.consistent ih

/-- Every index that can be reached is consistent. -/
theorem Reachable.consistent {c : Conventions} {ix : SymbolIndex} (h : ix.Reachable c) :
    ix.Consistent := by
  obtain ⟨start, hrun⟩ := h
  exact (hrun.consistent (consistent_initial c start)).1

/-- A module that was registered is found from then on, whatever happens
to the index and to the headers: nothing changes, and the number is the
one it was given at first. -/
theorem Consistent.register_again {ix : SymbolIndex} (h : ix.Consistent) (hs : Headers)
    (name : String) (kind : ModuleKind) {parent : Option Nat}
    (hparent : parent.getD root < ix.size) {later : SymbolIndex}
    (hlater : (ix.register hs name kind parent).1.Later later) (hs' : Headers) :
    later.register hs' name kind parent
      = (later, hs', (ix.register hs name kind parent).2.2) := by
  obtain ⟨hgrown, hmodule, hscope⟩ := register_spec hs name kind hparent
  obtain ⟨-, hmore⟩ := hlater.consistent (h.register hs name kind hparent)
  have hlt : parent.getD root < (ix.register hs name kind parent).1.size :=
    Nat.lt_of_lt_of_le hparent hgrown.size_le
  rw [register_kept (hmore.hasModule parent hlt hmodule), hmore.scopeOf parent hlt hmodule, hscope]

/-- Every reachable index is consistent: its scopes are a tree below the
global scope and its paths lead to exactly the scopes they belong to.
The chain of a scope follows the noted parents and ends at the root, no
two scopes have the same output path, packages and paths never change,
and a module that is registered again is found without a change. -/
theorem consistent_of_reachable {c : Conventions} {ix : SymbolIndex} (h : ix.Reachable c) :
    ix.Consistent
      ∧ (∀ id, ix.parent? id = ix.notedParent id)
      ∧ (∀ id < ix.size, Relation.ReflTransGen (fun i p => ix.notedParent i = some p) id root)
      ∧ (∀ id < ix.size, ∀ id' < ix.size, ix.outputPath id = ix.outputPath id' → id = id')
      ∧ (∀ later, ix.Later later → ∀ id < ix.size,
          later.packageOf id = ix.packageOf id ∧ later.outputPath id = ix.outputPath id)
      ∧ ∀ (hs : Headers) (name : String) (kind : ModuleKind) (parent : Option Nat),
          (∀ p, parent = some p → p < ix.size) →
          ∀ later, (ix.register hs name kind parent).1.Later later → ∀ hs' : Headers,
            later.register hs' name kind parent
              = (later, hs', (ix.register hs name kind parent).2.2) := by
  obtain ⟨start, hrun⟩ := h
  have hix : ix.Consistent := (hrun.consistent (consistent_initial c start)).1
  refine ⟨hix, hix.parent?_eq, hix.walk_to_root,
    fun id hid id' hid' => hix.eq_of_outputPath hid hid', fun later hlater id hid => ?_,
    fun hs name kind parent hparent later hlater hs' => ?_⟩
  · obtain ⟨-, hgrown⟩ := hlater.consistent hix
    exact ⟨hgrown.packageOf hid, hgrown.outputPath hid⟩
  · exact hix.register_again hs name kind (hix.rooted.parent_lt hparent) hlater hs'

/-- A module registered in an empty index. -/
def outerIndex : SymbolIndex :=
  ((initial {} {}).1.register (initial {} {}).2 "node:fs" .ambient none).1

/-- A namespace in the module, and a class in the namespace. -/
def nestedIndex : SymbolIndex :=
  (outerIndex.register {} "Stats" .namespaced (some 1)).1.declare 2 ⟨.classType, "Stats"⟩
    (.classType ⟨some "Stats", none, [], []⟩)

/-- The second is made from the first by two operations. -/
theorem later_nestedIndex : outerIndex.Later nestedIndex := by
  refine .tail (.tail .refl (.register {} "Stats" .namespaced (some 1) ?_)) (.declare 2 _ _)
  intro p hp
  cases hp
  decide +kernel

/-- The namespace and its module share a package but no path, and the
module is found again with the number it was given first. -/
theorem consistent_nestedIndex :
    nestedIndex.Reachable {} ∧ nestedIndex.packageOf 1 = nestedIndex.packageOf 2
      ∧ nestedIndex.outputPath 1 ≠ nestedIndex.outputPath 2
      ∧ nestedIndex.register {} "node:fs" .ambient none = (nestedIndex, {}, 1) := by
  have hinitial : (initial {} {}).1.Reachable {} := ⟨{}, .refl⟩
  have hnested : nestedIndex.Reachable {} :=
    ⟨{}, .trans (.single (.register (initial {} {}).2 "node:fs" .ambient none nofun))
      later_nestedIndex⟩
  obtain ⟨-, -, -, hdistinct, -⟩ := consistent_of_reachable hnested
  obtain ⟨-, -, -, -, -, hagain⟩ := consistent_of_reachable hinitial
  refine ⟨hnested, by decide +kernel, fun heq => ?_, ?_⟩
  · exact absurd (hdistinct 1 (by decide +kernel) 2 (by decide +kernel) heq) (by decide)
  · have hone : ((initial {} {}).1.register (initial {} {}).2 "node:fs" .ambient none).2.2 = 1 := by
      decide +kernel
    rw [hagain (initial {} {}).2 "node:fs" .ambient none nofun nestedIndex later_nestedIndex {},
      hone]

end Externals.SymbolIndex
