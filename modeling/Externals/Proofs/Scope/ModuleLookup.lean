import Externals.Proofs.Scope.Namespaces

/-!
# `Externals.Proofs.Scope.ModuleLookup`: finding a module and making one

Two operations start from the name of an ambient module. Registration
finds its scope or makes one, and an import only asks for the scope.
Both go by the path of the module's file, so an import finds a module
exactly if its registration would find it too.

A name may be written with the configured front or without it. Both
spellings lose the front before anything is made of them, and lead to
the same scope.

* `register_root_cases`: what registration does, by what a look-up says.
* `Reachable.resolveModule_iff`: a look-up goes by output paths.
* `resolveModule_register`: the two operations agree, and a module that
  was registered once is found from then on.
-/

set_option autoImplicit false

namespace Externals

open Text

/-! ### The front of a name -/

namespace Text

/-- A front that is there is dropped once. -/
theorem dropFront_append (front cs : List Char) : dropFront front (front ++ cs) = cs := by
  have hfront : front.isPrefixOf (front ++ cs) = true :=
    List.isPrefixOf_iff_prefix.mpr (List.prefix_append front cs)
  rw [dropFront, if_pos hfront, List.drop_left]

/-- One that is not there is not. -/
theorem dropFront_of_not_prefix {front cs : List Char} (h : ¬ front <+: cs) :
    dropFront front cs = cs :=
  if_neg fun hfront => h (List.isPrefixOf_iff_prefix.mp hfront)

end Text

/-- The file of an ambient module at the root. It depends on the name
and the conventions only, and not on an index. -/
def Conventions.ambientPath (c : Conventions) (name : String) : String :=
  c.pathOf (joinPackage c.rootPackage (packageSegment .ambient name c.modulePrefix))
    (fileStem .ambient name c.modulePrefix)

/-- The front makes no difference to the place of an ambient module, as
it is dropped before anything else. A name that has the front already
would lose one of two. -/
theorem SymbolIndex.placeOf_front (ix : SymbolIndex) {name : String}
    (h : ¬ ix.conventions.modulePrefix.toList <+: name.toList) (parent : Nat) :
    ix.placeOf (ix.conventions.modulePrefix ++ name) .ambient parent
      = ix.placeOf name .ambient parent := by
  simp only [placeOf, packageSegment, fileStem, String.toList_append, dropFront_append,
    dropFront_of_not_prefix h]

/-! ### Looking up and registering -/

namespace SymbolIndex

/-- In every index that can be reached, an ambient module at the root
has this path. -/
theorem Reachable.ambientPath_eq {c : Conventions} {ix : SymbolIndex} (h : ix.Reachable c)
    (name : String) : (ix.placeOf name .ambient root).2.2 = c.ambientPath name := by
  simp only [placeOf, h.packageOf_root, h.allNamed.1]
  rfl

/-- A module is looked up by the path of its file. -/
theorem Reachable.resolveModule_iff {c : Conventions} {ix : SymbolIndex} (h : ix.Reachable c)
    {name : String} {id : Nat} :
    ix.resolveModule name = some id ↔ id < ix.size ∧ ix.outputPath id = c.ambientPath name := by
  rw [resolveModule, h.consistent.byPath_iff, h.ambientPath_eq]

/-- Without a parent a module is registered at the root. -/
theorem register_root (ix : SymbolIndex) (hs : Headers) (name : String) (kind : ModuleKind)
    {parent : Option Nat} (hparent : parent = none ∨ parent = some root) :
    ix.register hs name kind parent = ix.register hs name kind none := by
  rcases hparent with rfl | rfl
  · rfl
  · rfl

/-- A module that is found is registered with its scope and nothing
changes; for one that is not found a scope is added. -/
theorem register_root_cases (ix : SymbolIndex) (hs : Headers) (name : String) :
    (∃ id, ix.resolveModule name = some id ∧ ix.register hs name .ambient none = (ix, hs, id))
      ∨ (ix.resolveModule name = none
          ∧ (ix.register hs name .ambient none).1.size = ix.size + 1) := by
  -- Registering asks the same question of the paths as resolving does.
  cases hfound : ix.resolveModule name with
  | some id =>
      obtain ⟨hmodule, hscope⟩ := scopeOf_of_byPath none ModuleKind.noConfusion hfound
      exact .inl ⟨id, rfl, by rw [register_kept hmodule, hscope]⟩
  | none =>
      have hmodule : ¬ ix.HasModule name .ambient none := by
        rintro (hkind | hsome)
        · cases hkind
        · have hnone : (ix.resolveModule name).isSome = true := hsome
          rw [hfound] at hnone
          cases hnone
      exact .inr ⟨rfl, by rw [register_made hmodule, size_withScope]⟩

/-- A look-up gives the scope that registration would give without
making one. -/
theorem resolveModule_eq_some_iff (ix : SymbolIndex) (hs : Headers) (name : String) (id : Nat) :
    ix.resolveModule name = some id
      ↔ (ix.register hs name .ambient none).2.2 = id
        ∧ (ix.register hs name .ambient none).1.size = ix.size := by
  rcases ix.register_root_cases hs name with ⟨found, hfound, hregister⟩ | ⟨hnone, hsize⟩
  · rw [hfound, hregister]
    simp
  · rw [hnone, hsize]
    simp

/-- It gives nothing exactly if registration would make a scope. -/
theorem resolveModule_eq_none_iff (ix : SymbolIndex) (hs : Headers) (name : String) :
    ix.resolveModule name = none
      ↔ (ix.register hs name .ambient none).1.size = ix.size + 1 := by
  rcases ix.register_root_cases hs name with ⟨found, hfound, hregister⟩ | ⟨hnone, hsize⟩
  · rw [hfound, hregister]
    simp
  · exact iff_of_true hnone hsize

/-- Looking up a module agrees with registering it. A look-up gives the
scope whose file is the module's; it gives the scope that registration
would give without making one, and nothing exactly if registration would
make one. A module that was registered at the root is found there from
then on, whatever happens to the index. A name with the configured front
leads to the same scope as the name without it. -/
theorem resolveModule_register {c : Conventions} {ix : SymbolIndex} (h : ix.Reachable c)
    (name : String) :
    (∀ id, ix.resolveModule name = some id ↔ id < ix.size ∧ ix.outputPath id = c.ambientPath name)
      ∧ (∀ hs id, ix.resolveModule name = some id
          ↔ (ix.register hs name .ambient none).2.2 = id
            ∧ (ix.register hs name .ambient none).1.size = ix.size)
      ∧ (∀ hs, ix.resolveModule name = none
          ↔ (ix.register hs name .ambient none).1.size = ix.size + 1)
      ∧ (∀ hs parent, parent = none ∨ parent = some root →
          ∀ later, (ix.register hs name .ambient parent).1.Later later →
            later.resolveModule name = some (ix.register hs name .ambient parent).2.2)
      ∧ (¬ c.modulePrefix.toList <+: name.toList →
          ix.resolveModule (c.modulePrefix ++ name) = ix.resolveModule name) := by
  refine ⟨fun id => h.resolveModule_iff, fun hs id => ix.resolveModule_eq_some_iff hs name id,
    fun hs => ix.resolveModule_eq_none_iff hs name, fun hs parent hparent later hlater => ?_,
    fun hfront => ?_⟩
  · rw [ix.register_root hs name .ambient hparent] at hlater ⊢
    -- Registering the module once more would change nothing.
    have hroot : (none : Option Nat).getD root < ix.size := h.consistent.root_lt
    have hagain := h.consistent.register_again hs name .ambient hroot hlater hs
    rw [later.resolveModule_eq_some_iff hs name, hagain]
    exact ⟨rfl, rfl⟩
  · obtain rfl := h.allNamed.1
    rw [resolveModule, resolveModule, ix.placeOf_front hfront]

/-- A module that was registered under another spelling is found under
the plain name and with the front, also after a namespace was added to
it. -/
theorem resolveModule_register_nestedIndex :
    nestedIndex.resolveModule "fs" = some 1 ∧ nestedIndex.resolveModule "node:fs" = some 1
      ∧ nestedIndex.outputPath 1 = "org/node/fs/fs.kt"
      ∧ (nestedIndex.register {} "os" .ambient none).1.size = 4 := by
  have hstart : (initial {} {}).1.Reachable {} := ⟨{}, .refl⟩
  have hnested : nestedIndex.Reachable {} :=
    ⟨{}, .trans (.single (.register (initial {} {}).2 "node:fs" .ambient none nofun))
      later_nestedIndex⟩
  obtain ⟨-, -, -, hlater, -⟩ := resolveModule_register hstart "node:fs"
  obtain ⟨hpath, -, -, -, hfront⟩ := resolveModule_register hnested "fs"
  obtain ⟨-, -, hnone, -, -⟩ := resolveModule_register hnested "os"
  have hone : ((initial {} {}).1.register (initial {} {}).2 "node:fs" .ambient none).2.2 = 1 := by
    decide +kernel
  -- The module registered first stays the answer in every later index; the other spelling of
  -- its name reaches the same path.
  have hfs : nestedIndex.resolveModule "node:fs" = some 1 := by
    rw [hlater (initial {} {}).2 none (.inl rfl) nestedIndex later_nestedIndex, hone]
  have hplain : nestedIndex.resolveModule "fs" = some 1 := by
    rw [← hfront (by decide), ← hfs]
    rfl
  refine ⟨hplain, hfs, ((hpath 1).mp hplain).2.trans (by decide +kernel), ?_⟩
  exact ((hnone {}).mp (by decide +kernel)).trans (by decide +kernel)

end SymbolIndex

end Externals
