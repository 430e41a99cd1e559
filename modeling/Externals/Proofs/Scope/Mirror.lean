import Externals.Proofs.Scope.Registry
import Mathlib.Data.List.Forall2

/-!
# `Externals.Proofs.Scope.Mirror`: indexes that agree by path

Scopes are numbered in the order of registration, so two runs over the
same modules can number them differently. What a scope is called in
both is its output path. `Twins` are two scopes with one path, and two
indexes are `Mirrored` if every scope has a twin and twins hold the
same: package, parent, own module name, imports and names declared.

Numbers are all that differs then. The chains of twins consist of twins
(`Mirrored.chain`), and every look-up along a chain gives the same
answer, with scopes told apart by their paths.

* `Mirrored.jsModuleOf`, `Mirrored.hasName`, `Mirrored.declaringScope`,
  `Mirrored.locate`: what twins answer.
-/

set_option autoImplicit false

namespace Externals.SymbolIndex

/-- Two scopes, one of each index, with the same output path. As paths
tell scopes apart, a scope has one twin at most. -/
structure Twins (a b : SymbolIndex) (i j : Nat) : Prop where
  left : i < a.size
  right : j < b.size
  path : a.outputPath i = b.outputPath j

/-- Two indexes that agree but for the numbers of scopes. Every scope
has a twin, and twins agree in all that a look-up asks of a single
scope; parents are compared by their paths. -/
structure Mirrored (a b : SymbolIndex) : Prop where
  conventions : a.conventions = b.conventions
  left : a.Consistent
  right : b.Consistent
  roots : Twins a b root root
  forth : ∀ i < a.size, ∃ j, Twins a b i j
  back : ∀ j < b.size, ∃ i, Twins a b i j
  packageOf : ∀ i j, Twins a b i j → a.packageOf i = b.packageOf j
  parent : ∀ i j, Twins a b i j →
    (a.notedParent i).map a.outputPath = (b.notedParent j).map b.outputPath
  ownModule : ∀ i j, Twins a b i j → a.ownModule i = b.ownModule j
  importAt : ∀ i j, Twins a b i j → ∀ name, a.importAt i name = b.importAt j name
  declaresAt : ∀ i j, Twins a b i j → ∀ name, a.declaresAt i name = b.declaresAt j name

/-- Being twins goes both ways. -/
theorem Twins.symm {a b : SymbolIndex} {i j : Nat} (h : Twins a b i j) : Twins b a j i :=
  ⟨h.right, h.left, h.path.symm⟩

namespace Mirrored

variable {a b : SymbolIndex} (h : a.Mirrored b)

include h

/-- So does being mirrored. -/
theorem symm : b.Mirrored a where
  conventions := h.conventions.symm
  left := h.right
  right := h.left
  roots := h.roots.symm
  forth := fun j hj => (h.back j hj).imp fun _ ht => ht.symm
  back := fun i hi => (h.forth i hi).imp fun _ ht => ht.symm
  packageOf := fun j i ht => (h.packageOf i j ht.symm).symm
  parent := fun j i ht => (h.parent i j ht.symm).symm
  ownModule := fun j i ht => (h.ownModule i j ht.symm).symm
  importAt := fun j i ht name => (h.importAt i j ht.symm name).symm
  declaresAt := fun j i ht name => (h.declaresAt i j ht.symm name).symm

/-- The same paths are in use, so the same files are generated. -/
theorem exists_path_iff (path : String) :
    (∃ i < a.size, a.outputPath i = path) ↔ ∃ j < b.size, b.outputPath j = path := by
  constructor
  · rintro ⟨i, hi, rfl⟩
    obtain ⟨j, htwins⟩ := h.forth i hi
    exact ⟨j, htwins.right, htwins.path.symm⟩
  · rintro ⟨j, hj, rfl⟩
    obtain ⟨i, htwins⟩ := h.back j hj
    exact ⟨i, htwins.left, htwins.path⟩

/-! ### Chains -/

/-- Parents of twins are twins, or both have none. The paths of the
parents are the same, and a path belongs to one scope. -/
theorem parents {i j : Nat} (ht : Twins a b i j) :
    (a.notedParent i = none ∧ b.notedParent j = none)
      ∨ ∃ p q, a.notedParent i = some p ∧ b.notedParent j = some q ∧ Twins a b p q := by
  have hparent := h.parent i j ht
  -- Parents are compared by their paths; both are in their index, since a parent's number is
  -- smaller.
  cases hp : a.notedParent i with
  | none =>
      rw [hp, Option.map_none, eq_comm, Option.map_eq_none_iff] at hparent
      exact .inl ⟨rfl, hparent⟩
  | some p =>
      rw [hp, Option.map_some, eq_comm, Option.map_eq_some_iff] at hparent
      obtain ⟨q, hq, hpath⟩ := hparent
      have hplt : p < a.size := Nat.lt_trans (h.left.lt_of_notedParent hp) ht.left
      have hqlt : q < b.size := Nat.lt_trans (h.right.lt_of_notedParent hq) ht.right
      exact .inr ⟨p, q, rfl, hq, hplt, hqlt, hpath.symm⟩

/-- The chains of twins consist of twins, by induction along the chain:
parents have smaller numbers. -/
theorem chain {i j : Nat} (ht : Twins a b i j) :
    List.Forall₂ (Twins a b) (a.chain i) (b.chain j) := by
  -- Twins have twins for parents, so the two chains are climbed together.
  induction i using Nat.strongRecOn generalizing j with
  | ind i ih =>
      rcases h.parents ht with ⟨hp, hq⟩ | ⟨p, q, hp, hq, hparents⟩
      · rw [chain_of_root (h.left.parent?_eq i ▸ hp), chain_of_root (h.right.parent?_eq j ▸ hq)]
        exact .cons ht .nil
      · have hi : a.chain i = i :: a.chain p := chain_of_parent? (h.left.parent?_eq i ▸ hp)
        have hj : b.chain j = j :: b.chain q := chain_of_parent? (h.right.parent?_eq j ▸ hq)
        rw [hi, hj]
        exact .cons ht (ih p (h.left.lt_of_notedParent hp) hparents)

/-- What holds of each scope of a chain, in order, if twins answer
alike. -/
theorem map_chain {γ : Type} {i j : Nat} (ht : Twins a b i j) (f g : Nat → γ)
    (hfg : ∀ i j, Twins a b i j → f i = g j) : (a.chain i).map f = (b.chain j).map g := by
  have hchain := h.chain ht
  generalize a.chain i = is at hchain
  generalize b.chain j = js at hchain
  induction hchain with
  | nil => rfl
  | cons hhead _ ih => rw [List.map_cons, List.map_cons, hfg _ _ hhead, ih]

/-- The first answer along a chain. All look-ups are of this form. -/
theorem findSome?_chain {γ : Type} {i j : Nat} (ht : Twins a b i j) (f g : Nat → Option γ)
    (hfg : ∀ i j, Twins a b i j → f i = g j) :
    (a.chain i).findSome? f = (b.chain j).findSome? g := by
  have hmap := congrArg (List.findSome? fun x => x) (h.map_chain ht f g hfg)
  rw [List.findSome?_map, List.findSome?_map] at hmap
  exact hmap

/-! ### Look-ups -/

/-- Twins have the same module name in effect. -/
theorem jsModuleOf {i j : Nat} (ht : Twins a b i j) : a.jsModuleOf i = b.jsModuleOf j :=
  h.findSome?_chain ht a.ownModule b.ownModule h.ownModule

/-- A name is known around both or around neither. -/
theorem hasName {i j : Nat} (ht : Twins a b i j) (name : String) :
    a.hasName i name = b.hasName j name := by
  have hmap := congrArg (List.any · fun x => x) (h.map_chain ht
    (fun i => a.declaresAt i name || (a.importAt i name).isSome)
    (fun j => b.declaresAt j name || (b.importAt j name).isSome)
    fun i j ht => by rw [h.declaresAt i j ht, h.importAt i j ht])
  simp only [List.any_map] at hmap
  exact hmap

/-- The nearest scope that declares a name is the same, by its path. -/
theorem declaringScope {i j : Nat} (ht : Twins a b i j) (name : String) :
    (a.declaringScope i name).map a.outputPath = (b.declaringScope j name).map b.outputPath := by
  rw [SymbolIndex.declaringScope, SymbolIndex.declaringScope, List.find?_eq_findSome?_guard,
    List.find?_eq_findSome?_guard, List.map_findSome?, List.map_findSome?]
  refine h.findSome?_chain ht _ _ fun i j ht => ?_
  simp only [Function.comp, Option.guard, h.declaresAt i j ht]
  split
  · exact congrArg some ht.path
  · rfl

/-- A module that one index finds is found by the other, and the scopes
are twins. Modules are found by path. -/
theorem resolveModule {name : String} {i : Nat} (hi : a.resolveModule name = some i) :
    ∃ j, b.resolveModule name = some j ∧ Twins a b i j := by
  have hplace : a.placeOf name .ambient root = b.placeOf name .ambient root := by
    simp only [placeOf, h.conventions, h.packageOf root root h.roots]
  obtain ⟨hlt, hpath⟩ := (h.left.byPath_iff _ _).mp hi
  obtain ⟨j, htwins⟩ := h.forth i hlt
  refine ⟨j, ?_, htwins⟩
  rw [SymbolIndex.resolveModule, h.right.byPath_iff, ← hplace, ← hpath]
  exact ⟨htwins.right, htwins.path.symm⟩

/-- A location at one scope, with its scope told by path. An import is
followed to the module in both, and the module declares the same names. -/
theorem locateAt {i j : Nat} (ht : Twins a b i j) (name : String) :
    (a.locateAt name i).map (fun l => (a.outputPath l.scope, l.name))
      = (b.locateAt name j).map fun l => (b.outputPath l.scope, l.name) := by
  rw [SymbolIndex.locateAt, SymbolIndex.locateAt, h.declaresAt i j ht, h.importAt i j ht]
  split
  · exact congrArg (fun path => some (path, name)) ht.path
  · split
    · rename_i source imported _
      -- The target is found in both indexes or in neither.
      cases htarget : a.resolveModule source with
      | some target =>
          obtain ⟨target', htarget', htwins⟩ := h.resolveModule htarget
          rw [htarget']
          dsimp only
          rw [h.declaresAt target target' htwins]
          split
          · exact congrArg (fun path => some (path, imported)) htwins.path
          · rfl
      | none =>
          cases htarget' : b.resolveModule source with
          | none => rfl
          | some target' =>
              obtain ⟨target, hfound, -⟩ := h.symm.resolveModule htarget'
              rw [htarget] at hfound
              cases hfound
    · rfl

/-- So names are located at the same place from twins. -/
theorem locate {i j : Nat} (ht : Twins a b i j) (name : String) :
    (a.locate i name).map (fun l => (a.outputPath l.scope, l.name))
      = (b.locate j name).map fun l => (b.outputPath l.scope, l.name) := by
  rw [SymbolIndex.locate, SymbolIndex.locate, List.map_findSome?, List.map_findSome?]
  exact h.findSome?_chain ht _ _ fun i j ht => h.locateAt ht name

end Mirrored

end Externals.SymbolIndex
