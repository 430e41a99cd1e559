import Externals.Proofs.Mapping.Visibility
import Externals.Proofs.Scope.Registry

/-!
# `Externals.Proofs.Scope.Resolution`: the nearest scope decides

Names are looked up by walks from a scope towards the root, and the
walks stop for different reasons: at a declaration, at a declaration or
any import, at a declaration or an import that leads to one. This module
says what each of them finds without walking.

`Within` is the order of the tree: a scope lies within its parent, the
parent of that, and so on. `Nearest` picks one of the scopes around a
scope: the one that all others with the same property lie around.

* `Consistent.findSome?_chain`, `Consistent.find?_chain`: a walk finds
  the answer of the nearest scope that has one.
* `Leads`: where a name leads at a single scope. Declarations come before
  imports, and an import that leads nowhere says nothing.
* `locate_nearest`: names are located at the nearest scope that knows
  them, and the other walks agree with it.
-/

set_option autoImplicit false

namespace Externals.SymbolIndex

/-! ### Scopes around a scope -/

/-- One scope lies in another: they are the same, or its parent does. -/
def Within (ix : SymbolIndex) : Nat → Nat → Prop :=
  Relation.ReflTransGen fun i p => ix.notedParent i = some p

/-- The scope with a property that is nearest to a scope: it lies around
it, and all others that do so lie around the nearest. It is said by the
order of the tree, without a walk and without counting steps. -/
structure Nearest (ix : SymbolIndex) (P : Nat → Prop) (id i : Nat) : Prop where
  within : ix.Within id i
  holds : P i
  first : ∀ j, ix.Within id j → P j → ix.Within i j

/-- A scope with the property is the nearest to itself. -/
theorem Nearest.self {ix : SymbolIndex} {P : Nat → Prop} {i : Nat} (h : P i) : ix.Nearest P i i :=
  ⟨.refl, h, fun _ hj _ => hj⟩

namespace Consistent

variable {ix : SymbolIndex}

/-- Scopes that lie around a scope were made before it, since parents
have smaller numbers. -/
theorem le_of_within (h : ix.Consistent) {id i : Nat} (hi : ix.Within id i) : i ≤ id := by
  induction hi with
  | refl => exact Nat.le_refl _
  | tail _ hparent ih => exact Nat.le_trans (Nat.le_of_lt (h.lt_of_notedParent hparent)) ih

/-- The chain of a scope lists the scopes around it. -/
theorem mem_chain_iff (h : ix.Consistent) {id i : Nat} : i ∈ ix.chain id ↔ ix.Within id i := by
  -- The chain and the relation take the same step, from a scope to its parent.
  induction id using Nat.strongRecOn with
  | ind id ih =>
      rw [Within, Relation.ReflTransGen.cases_head_iff, ← h.parent?_eq id]
      cases hp : ix.parent? id with
      | none =>
          rw [chain_of_root hp, List.mem_singleton]
          simp only [reduceCtorEq, false_and, exists_false, or_false]
          exact eq_comm
      | some parent =>
          rw [chain_of_parent? hp, List.mem_cons, ih parent (parent?_lt hp)]
          simp only [Option.some.injEq, exists_eq_left']
          exact or_congr_left eq_comm

/-- It lists the nearer ones first. -/
theorem pairwise_chain (h : ix.Consistent) (id : Nat) :
    (ix.chain id).Pairwise fun i j => j < i ∧ ix.Within i j := by
  induction id using Nat.strongRecOn with
  | ind id ih =>
      cases hp : ix.parent? id with
      | none =>
          rw [chain_of_root hp]
          exact List.pairwise_singleton _ _
      | some parent =>
          rw [chain_of_parent? hp, List.pairwise_cons]
          -- All the scopes further up lie around this one and have smaller numbers.
          refine ⟨fun j hj => ⟨?_, ?_⟩, ih parent (parent?_lt hp)⟩
          · exact Nat.lt_of_le_of_lt (le_of_mem_chain hj) (parent?_lt hp)
          · exact .head (by rw [← h.parent?_eq, hp]) (h.mem_chain_iff.mp hj)

/-- A walk ends at the nearest scope that has an answer. -/
theorem findSome?_chain {β : Type} (h : ix.Consistent) {id : Nat} {f : Nat → Option β} {b : β} :
    (ix.chain id).findSome? f = some b
      ↔ ∃ i, ix.Nearest (fun j => (f j).isSome) id i ∧ f i = some b := by
  have hasymm : ∀ {i j : Nat}, j < i ∧ ix.Within i j → ¬ (i < j ∧ ix.Within j i) :=
    fun hij hji => Nat.lt_asymm hij.1 hji.1
  -- Along the chain each scope lies within the next and has the greater number, so coming
  -- first in the list and being nearest are the same.
  rw [findSome?_eq_some_iff_of_pairwise (h.pairwise_chain id) hasymm]
  constructor
  · rintro ⟨i, hi, hfi, hfirst⟩
    refine ⟨i, ⟨h.mem_chain_iff.mp hi, by rw [hfi]; rfl, fun j hj hsome => ?_⟩, hfi⟩
    rcases hfirst j (h.mem_chain_iff.mpr hj) hsome with rfl | ⟨-, hwithin⟩
    · exact .refl
    · exact hwithin
  · rintro ⟨i, hnearest, hfi⟩
    refine ⟨i, h.mem_chain_iff.mpr hnearest.within, hfi, fun j hj hsome => ?_⟩
    have hwithin := hnearest.first j (h.mem_chain_iff.mp hj) hsome
    rcases Nat.eq_or_lt_of_le (h.le_of_within hwithin) with heq | hlt
    · exact .inl heq
    · exact .inr ⟨hlt, hwithin⟩

/-- A walk for a scope with a property finds the nearest one. -/
theorem find?_chain (h : ix.Consistent) {id i : Nat} {p : Nat → Bool} :
    (ix.chain id).find? p = some i ↔ ix.Nearest (fun j => p j = true) id i := by
  rw [List.find?_eq_findSome?_guard, h.findSome?_chain]
  simp only [Option.isSome_guard, Option.guard_eq_some_iff]
  constructor
  · rintro ⟨j, hnearest, rfl, -⟩
    exact hnearest
  · exact fun hnearest => ⟨i, hnearest, rfl, hnearest.holds⟩

/-- Among scopes around a scope there is a nearest one: a walk would
come to it. -/
theorem exists_nearest (h : ix.Consistent) {P : Nat → Prop} {id i : Nat} (hi : ix.Within id i)
    (hP : P i) : ∃ j, ix.Nearest P id j := by
  classical
  have hsome : ((ix.chain id).find? fun j => decide (P j)).isSome :=
    List.find?_isSome.mpr ⟨i, h.mem_chain_iff.mpr hi, decide_eq_true hP⟩
  obtain ⟨j, hj⟩ := Option.isSome_iff_exists.mp hsome
  have hnearest := h.find?_chain.mp hj
  simp only [decide_eq_true_eq] at hnearest
  exact ⟨j, hnearest⟩

/-- There is only one. Two nearest scopes would lie around each other. -/
theorem nearest_unique (h : ix.Consistent) {P : Nat → Prop} {id i j : Nat}
    (hi : ix.Nearest P id i) (hj : ix.Nearest P id j) : i = j :=
  Nat.le_antisymm (h.le_of_within (hj.first i hi.within hi.holds))
    (h.le_of_within (hi.first j hj.within hj.holds))

end Consistent

/-! ### Names at a single scope -/

/-- A scope holds a declaration of the name, of whatever kind. A
function counts as much as a class. -/
def Declares (ix : SymbolIndex) (name : String) (i : Nat) : Prop :=
  ∃ kind, ⟨kind, name⟩ ∈ (ix.declarationsOf i).keys

/-- A scope imports the name from a module that leads to a scope with a
declaration of what is imported. -/
def Borrows (ix : SymbolIndex) (name : String) (i : Nat) (l : Location) : Prop :=
  ∃ source, (ix.importsOf i).get? name = some (.named source l.name)
    ∧ ix.resolveModule source = some l.scope ∧ ix.Declares l.name l.scope

/-- A scope declares the name or imports a declaration under it. -/
def Knows (ix : SymbolIndex) (name : String) (i : Nat) : Prop :=
  ix.Declares name i ∨ ∃ l, ix.Borrows name i l

/-- Where a name leads at a scope: to the scope's own declaration, or
else to the one it imports. -/
inductive Leads (ix : SymbolIndex) (name : String) (i : Nat) : Location → Prop
  | declared (h : ix.Declares name i) : Leads ix name i ⟨i, name⟩
  | imported {l : Location} (hown : ¬ ix.Declares name i) (h : ix.Borrows name i l) :
      Leads ix name i l

/-- The question for a declaration goes through all kinds. -/
theorem declaresAt_iff {ix : SymbolIndex} {i : Nat} {name : String} :
    ix.declaresAt i name = true ↔ ix.Declares name i := by
  rw [declaresAt_eq, List.any_eq_true, Declares]
  constructor
  · rintro ⟨kind, -, hkey⟩
    rw [declaresKey_eq, Table.contains_iff] at hkey
    exact ⟨kind, hkey⟩
  · rintro ⟨kind, hkey⟩
    refine ⟨kind, by cases kind <;> decide, ?_⟩
    rw [declaresKey_eq, Table.contains_iff]
    exact hkey

/-- What a single scope says about a name is where the name leads
there. -/
theorem locateAt_iff {ix : SymbolIndex} {name : String} {i : Nat} {l : Location} :
    ix.locateAt name i = some l ↔ ix.Leads name i l := by
  rw [locateAt_eq_some_iff, ← Bool.not_eq_true, declaresAt_iff, declaresAt_iff, importAt_eq]
  constructor
  · rintro (⟨hown, rfl⟩ | ⟨hown, hborrows⟩)
    · exact .declared hown
    · exact .imported hown hborrows
  · rintro (hown | ⟨hown, hborrows⟩)
    · exact .inl ⟨hown, rfl⟩
    · exact .inr ⟨hown, hborrows⟩

/-- A name leads somewhere at exactly the scopes that know it. -/
theorem isSome_locateAt_iff {ix : SymbolIndex} {name : String} {i : Nat} :
    (ix.locateAt name i).isSome ↔ ix.Knows name i := by
  rw [Option.isSome_iff_exists]
  simp only [locateAt_iff]
  constructor
  · rintro ⟨l, hown | ⟨-, hborrows⟩⟩
    · exact .inl hown
    · exact .inr ⟨l, hborrows⟩
  · intro hknows
    -- The scope's own declaration comes first; what it borrows is asked only without one.
    by_cases hown : ix.Declares name i
    · exact ⟨_, .declared hown⟩
    · obtain ⟨l, hborrows⟩ := hknows.resolve_left hown
      exact ⟨l, .imported hown hborrows⟩

/-- A scope where a name leads somewhere knows it. -/
theorem Leads.knows {ix : SymbolIndex} {name : String} {i : Nat} {l : Location}
    (h : ix.Leads name i l) : ix.Knows name i := by
  rw [← isSome_locateAt_iff, locateAt_iff.mpr h]
  rfl

/-- A name leads to a declaration, through an import or not. So a
location can always be looked up. -/
theorem Leads.declares {ix : SymbolIndex} {name : String} {i : Nat} {l : Location}
    (h : ix.Leads name i l) : ix.Declares l.name l.scope := by
  cases h with
  | declared hown => exact hown
  | imported _ hborrows => exact hborrows.choose_spec.2.2

/-! ### Names seen from a scope -/

namespace Consistent

variable {ix : SymbolIndex} {id : Nat} {name : String}

/-- A name is located at the nearest scope that knows it. -/
theorem locate_iff (h : ix.Consistent) {l : Location} :
    ix.locate id name = some l ↔ ∃ i, ix.Nearest (ix.Knows name) id i ∧ ix.Leads name i l := by
  rw [locate, h.findSome?_chain]
  simp only [isSome_locateAt_iff, locateAt_iff]

/-- A name is located if some scope around knows it. -/
theorem exists_locate_iff (h : ix.Consistent) :
    (∃ l, ix.locate id name = some l) ↔ ∃ i, ix.Within id i ∧ ix.Knows name i := by
  rw [← Option.isSome_iff_exists, locate, List.findSome?_isSome_iff]
  simp only [isSome_locateAt_iff, h.mem_chain_iff]

/-- The walk for declarations alone finds the nearest scope that
declares the name. It may be farther out than the one where the name is
located. -/
theorem declaringScope_iff (h : ix.Consistent) {i : Nat} :
    ix.declaringScope id name = some i ↔ ix.Nearest (ix.Declares name) id i := by
  rw [declaringScope, h.find?_chain]
  simp only [declaresAt_iff]

end Consistent

/-- Resolving a name comes down to locating it. The import that may be
needed is decided by the location. -/
theorem resolve_eq_of_locate (v : Viewpoint) (name : String) :
    v.resolve name = (v.index.locate v.origin name).elim (pure false) fun l =>
      ⟨true, (v.importFor? name l).toList, []⟩ := by
  rw [Viewpoint.resolve, v.locate_eq]
  cases v.index.locate v.origin name <;> rfl

/-- Names are located at the nearest scope around that knows them, and
they are located if there is such a scope. The location is where the
name leads at that scope, and it is a declaration. The nearest scope
that declares a name is found, and then the name is located as well. A
located name is one that some scope around has, so that asking for this
first makes no difference to resolving it. -/
theorem locate_nearest {c : Conventions} {ix : SymbolIndex} (h : ix.Reachable c) (id : Nat)
    (name : String) :
    (∀ l, ix.locate id name = some l
        ↔ ∃ i, ix.Nearest (ix.Knows name) id i ∧ ix.Leads name i l)
      ∧ ((∃ l, ix.locate id name = some l) ↔ ∃ i, ix.Within id i ∧ ix.Knows name i)
      ∧ (∀ l, ix.locate id name = some l → ix.Declares l.name l.scope)
      ∧ (∀ i, ix.declaringScope id name = some i
          ↔ ix.Nearest (ix.Declares name) id i)
      ∧ (∀ i, ix.declaringScope id name = some i → ∃ l, ix.locate id name = some l)
      ∧ (∀ l, ix.locate id name = some l → ix.hasName id name = true)
      ∧ ∀ home, Viewpoint.resolve ⟨ix, home, id⟩ name
          = (ix.locate id name).elim (pure false) fun l =>
              ⟨true, (Viewpoint.importFor? ⟨ix, home, id⟩ name l).toList, []⟩ := by
  have hix := h.consistent
  refine ⟨fun l => hix.locate_iff, hix.exists_locate_iff, fun l hl => ?_,
    fun i => hix.declaringScope_iff, fun i hi => ?_, fun l => hasName_of_locate,
    fun home => resolve_eq_of_locate ⟨ix, home, id⟩ name⟩
  · obtain ⟨i, -, hleads⟩ := hix.locate_iff.mp hl
    exact hleads.declares
  · have hnearest := hix.declaringScope_iff.mp hi
    exact hix.exists_locate_iff.mpr ⟨i, hnearest.within, .inl hnearest.holds⟩

/-- The global scope declares `Buffer` and the module `a` declares
`Thing`. The module `m` imports `Buffer` from a module that does not
exist and `Thing` as `T`; there is a namespace in it. -/
def fallingThrough : SymbolIndex :=
  let ix := (initial {} {}).1.declare root ⟨.classType, "Buffer"⟩
    (.classType ⟨some "Buffer", none, [], []⟩)
  let ix := (ix.register {} "a" .ambient none).1.declare 1 ⟨.interfaceType, "Thing"⟩
    (.interfaceType ⟨some "Thing", [], []⟩)
  let ix := (ix.register {} "m" .ambient none).1.addImport 2 "Buffer" (.named "b" "Buffer")
  let ix := ix.addImport 2 "T" (.named "a" "Thing")
  (ix.register {} "N" .namespaced (some 2)).1

/-- It is made by registering modules, filing declarations and noting
imports. -/
theorem reachable_fallingThrough : fallingThrough.Reachable {} := by
  refine ⟨{}, .tail (.tail (.tail (.tail (.tail (.tail (.single (.declare root _ _))
    (.register {} "a" .ambient none nofun)) (.declare 1 _ _))
    (.register {} "m" .ambient none nofun)) (.addImport 2 _ _)) (.addImport 2 _ _))
    (.register {} "N" .namespaced (some 2) ?_)⟩
  intro p hp
  cases hp
  decide +kernel

/-- Seen from the namespace, `Buffer` is the global class: the import that
leads nowhere is passed over, though its scope is the nearest that has
the name. `T` leads through the other import, and no scope declares it. -/
theorem locate_nearest_fallingThrough :
    fallingThrough.Nearest (fallingThrough.Declares "Buffer") 3 0
      ∧ fallingThrough.locate 3 "Buffer" = some ⟨0, "Buffer"⟩
      ∧ (∃ i, fallingThrough.Nearest (fallingThrough.Knows "T") 3 i
          ∧ fallingThrough.Leads "T" i ⟨1, "Thing"⟩)
      ∧ fallingThrough.Declares "Thing" 1
      ∧ fallingThrough.hasName 3 "T" = true
      ∧ fallingThrough.declaringScope 3 "T" = none := by
  obtain ⟨-, -, -, hdeclaring, -⟩ := locate_nearest reachable_fallingThrough 3 "Buffer"
  obtain ⟨hlocate, -, hdeclares, -, -, hname, -⟩ := locate_nearest reachable_fallingThrough 3 "T"
  have hthing : fallingThrough.locate 3 "T" = some ⟨1, "Thing"⟩ := by decide +kernel
  exact ⟨(hdeclaring 0).mp (by decide +kernel), by decide +kernel, (hlocate _).mp hthing,
    hdeclares _ hthing, hname _ hthing, by decide +kernel⟩

end Externals.SymbolIndex
