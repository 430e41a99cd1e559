import Externals.Project.Collect
import Externals.Proofs.Imports.Shelf
import Externals.Proofs.Scope.Registry

/-!
# `Externals.Proofs.Project.State`: the shelves of a project

Every scope of a project has a header of its own. As long as the arena
is tidy, what the headers hold is one shelf for each scope, and the
numbers in the arena need not be looked at again: `Project.Shelved`.

Putting a draft down for a scope files its imports on the shelf of that
scope (`Shelved.settle`). Entering a module adds a scope with an empty
shelf (`Shelved.withScope`). Nothing else that happens to an index touches
a shelf (`Shelved.of_bare`).
-/

set_option autoImplicit false

namespace Externals.Project

/-- The shelf of every scope: the arena is tidy, and below the header of
each scope stand the entries of its shelf. A number that is no scope has
an empty shelf, so a scope that is made later starts with one. -/
structure Shelved (p : Project) (F : Nat → Shelf) : Prop where
  tidy : p.headers.Tidy (p.index.scopes.map Scope.header)
  leaves : ∀ id s, p.index.scopes[id]? = some s → p.headers.leaves s.header = (F id).entries
  outside : ∀ id, p.index.size ≤ id → F id = .empty

/-- All shelves, with one of them changed. Each phase of a run changes
the shelves scope by scope, and this is what one scope does to all of
them. -/
def setShelf (F : Nat → Shelf) (scope : Nat) (T : Shelf) : Nat → Shelf :=
  fun id => if id = scope then T else F id

/-- The changed shelf is the one that was put there. -/
theorem setShelf_self (F : Nat → Shelf) (scope : Nat) (T : Shelf) :
    setShelf F scope T scope = T := if_pos rfl

/-- All other shelves are as before. -/
theorem setShelf_of_ne (F : Nat → Shelf) {scope id : Nat} (h : id ≠ scope) (T : Shelf) :
    setShelf F scope T id = F id := if_neg h

/-- Putting a shelf where it is changes nothing. -/
theorem setShelf_eq_self (F : Nat → Shelf) (scope : Nat) : setShelf F scope (F scope) = F := by
  funext id
  rw [setShelf]
  split
  · rename_i h
    rw [h]
  · rfl

/-- Of two changes to one shelf the second counts. -/
theorem setShelf_setShelf (F : Nat → Shelf) (scope : Nat) (T T' : Shelf) :
    setShelf (setShelf F scope T) scope T' = setShelf F scope T' := by
  funext id
  simp only [setShelf]
  split <;> rfl

/-- Bare scopes keep their headers, so indexes with the same bare scopes
have the same headers. -/
theorem map_header_of_bare {a b : SymbolIndex}
    (h : a.scopes.map Scope.bare = b.scopes.map Scope.bare) :
    a.scopes.map Scope.header = b.scopes.map Scope.header := by
  have hmap := congrArg (List.map Scope.header) h
  rw [List.map_map, List.map_map] at hmap
  exact hmap

/-- The header of a scope that is there is the one it was made with. -/
theorem headerOf_of_scope {p : Project} {scope : Nat} {s : Scope}
    (h : p.index.scopes[scope]? = some s) : p.headerOf scope = s.header := by
  rw [headerOf, h]
  rfl

/-- Putting a draft down files its imports below the scope's header. -/
theorem settle_fst {α : Type} (p : Project) (scope : Nat) (label : String) (d : Draft α) :
    (p.settle scope label d).1
      = { p with headers := p.headers.file (p.headerOf scope) label d.imports,
                 events := p.events ++ d.events } := rfl

/-- The header of a scope is one of the headers of the index. -/
theorem header_mem {p : Project} {id : Nat} {s : Scope} (hs : p.index.scopes[id]? = some s) :
    s.header ∈ p.index.scopes.map Scope.header :=
  List.mem_map_of_mem (List.mem_of_getElem? hs)

namespace Shelved

variable {p : Project} {F : Nat → Shelf}

/-- Different scopes have different headers: the arena is tidy, so no
two roots in it are the same. -/
theorem header_ne (h : p.Shelved F) {id id' : Nat} {s s' : Scope}
    (hs : p.index.scopes[id]? = some s) (hs' : p.index.scopes[id']? = some s') (hne : id ≠ id') :
    s.header ≠ s'.header := by
  intro heq
  obtain ⟨hid, hget⟩ := List.getElem?_eq_some_iff.mp hs
  obtain ⟨hid', hget'⟩ := List.getElem?_eq_some_iff.mp hs'
  have hnodup := List.pairwise_iff_getElem.mp h.tidy.nodup_roots
  simp only [List.length_map, List.getElem_map] at hnodup
  rcases Nat.lt_or_gt_of_ne hne with hlt | hgt
  · exact hnodup id id' hid hid' hlt (by rw [hget, hget', heq])
  · exact hnodup id' id hid' hid hgt (by rw [hget, hget', heq])

/-- What a file looks up is found on the shelf of its scope. -/
theorem lookup (h : p.Shelved F) {scope : Nat} (hscope : scope < p.index.size) (key : String) :
    p.headers.lookup (p.headerOf scope) key = (F scope).lookup key := by
  obtain ⟨s, hs⟩ := SymbolIndex.exists_scope hscope
  rw [headerOf_of_scope hs]
  exact h.tidy.lookup_eq (header_mem hs) (h.leaves scope s hs) key

/-- What a file renders is what its shelf holds, all labels together. -/
theorem merged (h : p.Shelved F) {scope : Nat} {s : Scope} (hs : p.index.scopes[scope]? = some s) :
    p.headers.merged s.header = (F scope).merged :=
  h.tidy.merged_eq (header_mem hs) (h.leaves scope s hs)

/-- What a scope holds does not matter to the shelves. Only its header
does, and that is left when imports, declarations and artifacts are
taken away. -/
theorem of_bare (h : p.Shelved F) {q : Project} (hh : q.headers = p.headers)
    (hb : q.index.scopes.map Scope.bare = p.index.scopes.map Scope.bare) : q.Shelved F where
  tidy := by
    rw [hh, map_header_of_bare hb]
    exact h.tidy
  leaves := fun id s hs => by
    have hheader := congrArg (·[id]?) (map_header_of_bare hb)
    simp only [List.getElem?_map, hs, Option.map_some] at hheader
    obtain ⟨t, ht, heq⟩ := Option.map_eq_some_iff.mp hheader.symm
    rw [hh, ← heq]
    exact h.leaves id t ht
  outside := fun id hid => h.outside id (by rwa [← SymbolIndex.size_of_bare hb])

/-- Putting a draft down changes the shelf of its scope: it files the
imports of the draft under the label, and leaves every other shelf
alone. -/
theorem settle {α : Type} (h : p.Shelved F) {scope : Nat} (hscope : scope < p.index.size)
    (label : String) (d : Draft α) :
    (p.settle scope label d).1.Shelved (setShelf F scope ((F scope).file label d.imports)) := by
  obtain ⟨s, hs⟩ := SymbolIndex.exists_scope hscope
  obtain ⟨htidy, hself, hother⟩ :=
    h.tidy.file (header_mem hs) (h.leaves scope s hs) label d.imports
  rw [settle_fst, headerOf_of_scope hs]
  refine ⟨htidy, fun id t ht => ?_, fun id hid => ?_⟩
  · by_cases heq : id = scope
    · subst heq
      rw [setShelf_self]
      cases hs.symm.trans ht
      exact hself
    · -- Another scope has another header, and filing stays below the one it was given.
      rw [setShelf_of_ne F heq]
      show (p.headers.file s.header label d.imports).leaves t.header = _
      rw [hother t.header (h.header_ne ht hs heq)]
      exact h.leaves id t ht
  · have hne : id ≠ scope := by
      rintro rfl
      exact Nat.lt_irrefl _ (Nat.lt_of_lt_of_le hscope hid)
    rw [setShelf_of_ne F hne]
    exact h.outside id hid

end Shelved

/-! ### Entering modules -/

/-- Entering a registered module changes nothing, and gives the scope
that the index has for it. -/
theorem enter_kept {p : Project} {name : String} {kind : ModuleKind} {parent : Option Nat}
    (hm : p.index.HasModule name kind parent) :
    p.enter name kind parent = (p, p.index.scopeOf name kind parent) := by
  rw [enter, SymbolIndex.register_kept hm]

/-- Entering a new module adds a scope and a header. The two are made
together, so that the header of the new scope is the one that comes next
in the arena. -/
theorem enter_made {p : Project} {name : String} {kind : ModuleKind} {parent : Option Nat}
    (hm : ¬ p.index.HasModule name kind parent) :
    p.enter name kind parent
      = ({ p with
            index := p.index.withScope
              (p.index.newScope name kind (parent.getD SymbolIndex.root) p.headers.size)
              (p.index.placeOf name kind (parent.getD SymbolIndex.root)).2.2,
            headers := (p.headers.addRoot
              (p.index.placeOf name kind (parent.getD SymbolIndex.root)).2.2).1 },
          p.index.size) := by
  rw [enter, SymbolIndex.register_made hm]

/-- What entering a module does to a project: it may add a scope with
nothing in it, and it gives the scope the module stands for. Both cases
are put together here, so that a proof about a walk need not ask whether
the module was known. -/
structure Entered (p q : Project) (name : String) (kind : ModuleKind) (parent : Option Nat)
    (scope : Nat) : Prop where
  rooted : q.index.Rooted
  grown : p.index.Grown q.index
  consistent : p.index.Consistent → q.index.Consistent
  registered : q.index.HasModule name kind parent
  scope_eq : scope = q.index.scopeOf name kind parent
  shelved : ∀ F, p.Shelved F → q.Shelved F
  imports : ∀ id, q.index.importsOf id = p.index.importsOf id
  declarations : ∀ id, q.index.declarationsOf id = p.index.declarationsOf id
  artifacts : ∀ id, q.index.artifactsOf id = p.index.artifactsOf id

/-- A new scope has an empty shelf, and all others keep theirs. That it
is empty was said before the scope was there. -/
theorem Shelved.withScope {p : Project} {F : Nat → Shelf} (h : p.Shelved F) {scope : Scope}
    (hheader : scope.header = p.headers.size) (path label : String) :
    ({ p with index := p.index.withScope scope path,
              headers := (p.headers.addRoot label).1 } : Project).Shelved F := by
  refine ⟨?_, fun id s hs => ?_, fun id hid => ?_⟩
  · show (p.headers.addRoot label).1.Tidy ((p.index.scopes ++ [scope]).map Scope.header)
    rw [List.map_append, List.map_singleton, hheader]
    exact h.tidy.addRoot label
  · show (p.headers.addRoot label).1.leaves s.header = _
    rw [h.tidy.leaves_addRoot]
    -- The new scope's header is fresh and has no leaves; the other scopes keep theirs.
    replace hs : (p.index.withScope scope path).scopes[id]? = some s := hs
    rw [SymbolIndex.getElem?_withScope] at hs
    split at hs
    · rename_i heq
      cases hs
      rw [hheader, Headers.leaves_size, h.outside id (Nat.le_of_eq heq.symm)]
      rfl
    · exact h.leaves id s hs
  · replace hid : (p.index.withScope scope path).size ≤ id := hid
    rw [SymbolIndex.size_withScope] at hid
    exact h.outside id (Nat.le_of_succ_le hid)

/-- Entering a module is as `Entered` says, whether it is known or new.
The scope around it has to be one of the index. -/
theorem entered {p : Project} (hr : p.index.Rooted) (name : String) (kind : ModuleKind)
    (parent : Option Nat) (hparent : parent.getD SymbolIndex.root < p.index.size) :
    Entered p (p.enter name kind parent).1 name kind parent (p.enter name kind parent).2 := by
  obtain ⟨hgrown, hregistered, hscope⟩ := SymbolIndex.register_spec p.headers name kind hparent
  -- A module that is there leaves the project as it is; a new one adds a scope with empty
  -- tables.
  by_cases hm : p.index.HasModule name kind parent
  · rw [enter_kept hm]
    exact ⟨hr, .refl _, id, hm, rfl, fun _ => id, fun _ => rfl, fun _ => rfl, fun _ => rfl⟩
  · have hconsistent := fun h : p.index.Consistent => h.register p.headers name kind hparent
    rw [SymbolIndex.register_made hm] at hgrown hconsistent hregistered hscope
    rw [enter_made hm]
    refine ⟨hr.withScope _ _, hgrown, hconsistent, hregistered, hscope,
      fun F hF => hF.withScope rfl _ _, ?_, ?_, ?_⟩
    · exact SymbolIndex.getD_withScope p.index _ Scope.imports .empty rfl
    · exact SymbolIndex.getD_withScope p.index _ Scope.declarations .empty rfl
    · exact SymbolIndex.getD_withScope p.index _ Scope.artifacts .empty rfl

/-- A module that was entered is found from then on: an index that has
grown from this one gives the same scope for it. -/
theorem Entered.later {p q : Project} {name : String} {kind : ModuleKind} {parent : Option Nat}
    {scope : Nat} (h : Entered p q name kind parent scope)
    (hparent : parent.getD SymbolIndex.root < p.index.size) {ix : SymbolIndex}
    (hgrown : q.index.Grown ix) :
    ix.HasModule name kind parent ∧ ix.scopeOf name kind parent = scope := by
  have hlt := Nat.lt_of_lt_of_le hparent h.grown.size_le
  exact ⟨hgrown.hasModule parent hlt h.registered,
    (hgrown.scopeOf parent hlt h.registered).trans h.scope_eq.symm⟩

end Externals.Project
