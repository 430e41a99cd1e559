import Externals.Proofs.Project.Walk

/-!
# `Externals.Proofs.Project.Founders`: which module made a scope

The walk through files comes to modules, one after the other, and makes
a scope for a module whose path is new. Any later module of the same
path is given that scope, whatever its name and kind. So a scope tells
of one module only, the first in the order of the walk: its *founder*.

The visits of a walk are its modules with their scopes, in this order.
`Founded` says of a part of the walk that each scope it made was made for
the first of its visits to that scope. A move that enters a module keeps
this (`enter_founded`), and the others do not make scopes, so it holds of
the whole walk (`gatherBody_founded`).

* `Consistent.jsModuleOf_founder`: the module name in effect for a scope,
  from its founder.
* `Project.collected_founded`: after files were collected, every scope
  that is new has its founder among the visits.
-/

set_option autoImplicit false

namespace Externals

namespace SymbolIndex

/-! ### Founders -/

/-- The scope of a visit was made for it: it notes the parent of the
visit, and the name of the module if that is ambient. A global block
makes no scope. -/
structure MadeFor (ix : SymbolIndex) (v : Visit) : Prop where
  kind_ne : v.kind ≠ .global
  notedParent : ix.notedParent v.scope = some v.parent
  ownModule : ix.ownModule v.scope = if v.kind = .ambient then some v.name else none

/-- It stays so when the index grows, since a scope keeps what it was
made with. -/
theorem MadeFor.grown {a b : SymbolIndex} {v : Visit} (hv : a.MadeFor v) (h : a.Grown b)
    (hlt : v.scope < a.size) : b.MadeFor v where
  kind_ne := hv.kind_ne
  notedParent := by rw [h.notedParent hlt, hv.notedParent]
  ownModule := by rw [h.ownModule hlt, hv.ownModule]

/-- The module name in effect for a scope is the name of its founder, if
that is an ambient module, and otherwise the one in effect around it. -/
theorem Consistent.jsModuleOf_founder {ix : SymbolIndex} (h : ix.Consistent) {v : Visit}
    (hv : ix.MadeFor v) :
    ix.jsModuleOf v.scope = if v.kind = .ambient then some v.name else ix.jsModuleOf v.parent := by
  rw [h.jsModuleOf_eq hv.notedParent, hv.ownModule]
  split <;> rfl

/-- Every scope that was made on the way from one index to another was
made for the first of the visits to it. -/
structure Founded (vs : List Visit) (a b : SymbolIndex) : Prop where
  scope_lt : ∀ v ∈ vs, v.scope < b.size
  founder : ∀ id, a.size ≤ id → id < b.size →
    ∃ v, vs.find? (fun v => v.scope = id) = some v ∧ b.MadeFor v

namespace Founded

variable {vs ws : List Visit} {a b c : SymbolIndex}

/-- Without new scopes there is nothing to found. Most moves of a walk
are of this kind. -/
theorem of_size (h : b.size = a.size) : Founded [] a b where
  scope_lt := nofun
  founder := fun id hid hlt => by omega

/-- Two parts of a walk. A scope that is there after the first part has
its founder there, and one that is new after it cannot have been visited
before, as it did not exist. -/
theorem trans (h : Founded vs a b) (hgrown : b.Grown c) (h' : Founded ws b c) :
    Founded (vs ++ ws) a c where
  scope_lt := by
    intro v hv
    rcases List.mem_append.mp hv with hfirst | hmore
    · exact Nat.lt_of_lt_of_le (h.scope_lt v hfirst) hgrown.size_le
    · exact h'.scope_lt v hmore
  founder := by
    intro id hid hlt
    rw [List.find?_append]
    by_cases hold : id < b.size
    · obtain ⟨v, hfind, hv⟩ := h.founder id hid hold
      have hscope : v.scope = id := by simpa using List.find?_some hfind
      exact ⟨v, by rw [hfind]; rfl, hv.grown hgrown (hscope ▸ hold)⟩
    · -- The scope is new to the second part, so no visit of the first one leads to it.
      have hnone : vs.find? (fun v => v.scope = id) = none := by
        rw [List.find?_eq_none]
        intro v hv heq
        have := h.scope_lt v hv
        have := of_decide_eq_true heq
        omega
      rw [hnone]
      exact h'.founder id (Nat.not_lt.mp hold) hlt

end Founded

end SymbolIndex

/-! ### The walk -/

namespace Project

open SymbolIndex (Founded root)

/-- Entering a module is one visit. If it makes a scope, the scope is
made for it. -/
theorem enter_founded {p : Project} (hr : p.index.Rooted) (name : String) (kind : ModuleKind)
    (parent : Option Nat) (hparent : parent.getD root < p.index.size) :
    Founded [⟨name, kind, parent.getD root, (p.enter name kind parent).2⟩] p.index
      (p.enter name kind parent).1.index := by
  have hlt := (entered hr name kind parent hparent).scope_lt
  refine ⟨fun v hv => by rw [List.mem_singleton.mp hv]; exact hlt, fun id hid hid' => ?_⟩
  by_cases hm : p.index.HasModule name kind parent
  · rw [enter_kept hm] at hid'
    exact absurd hid' (Nat.not_lt.mpr hid)
  · rw [enter_made hm] at hid' ⊢
    have hid : id = p.index.size := by
      have hsize := p.index.size_withScope
        (p.index.newScope name kind (parent.getD root) p.headers.size)
        (p.index.placeOf name kind (parent.getD root)).2.2
      simp only [hsize] at hid'
      omega
    rw [SymbolIndex.HasModule, not_or] at hm
    -- The new scope is the last one, and it keeps the parent and the name it was made with.
    have hlast := p.index.getElem?_withScope
      (p.index.newScope name kind (parent.getD root) p.headers.size)
      (p.index.placeOf name kind (parent.getD root)).2.2 p.index.size
    rw [if_pos rfl] at hlast
    refine ⟨_, by rw [hid, List.find?_cons_of_pos (by simp)], hm.1, ?_, ?_⟩
    · rw [SymbolIndex.notedParent, hlast]
      rfl
    · rw [SymbolIndex.ownModule, hlast]
      simp [SymbolIndex.newScope]

/-- One move keeps the founders. Only entering a module can make a scope,
and then the visit that is added is the first one to it. -/
theorem founded_step {ix : SymbolIndex} {w : Walk} (h : w.Inside)
    (hfounded : Founded w.trail.visits ix w.index) (m : Move) :
    Founded (w.step m).trail.visits ix (w.step m).index := by
  -- Only entering a module can register a scope, and the scope then has this visit as its
  -- founder.
  cases m with
  | file s =>
      have htree := gatherOne_sameTree h.within.here_lt w.state.2 s
      have hend := hfounded.trans htree.grown (.of_size htree.size)
      rw [List.append_nil] at hend
      exact hend
  | enter name kind =>
      exact hfounded.trans (h.grown_step (.enter name kind))
        (enter_founded h.rooted name kind (some w.trail.here) h.within.here_lt)
  | leave => exact hfounded

/-- Gathering from a body visits the modules in it, also those that are
nested, and each scope that is made on the way is made for the first of
them that leads there. -/
theorem gatherBody_founded {p : Project} (hr : p.index.Rooted) (g : Gathered) {scope : Nat}
    (hscope : scope < p.index.size) (ss : List Statement) :
    Founded ((gatherBody scope (p, g) ss).1.index.bodyVisits scope ss) p.index
      (gatherBody scope (p, g) ss).1.index := by
  have hfounded : Founded (Walk.through (p, g) scope ss).trail.visits p.index
      (Walk.through (p, g) scope ss).index :=
    through_induction hr g hscope ss (fun _ hi hf m => founded_step hi hf m) (.of_size rfl)
  rw [trail_through hr g hscope ss (.refl _), Walk.index_through] at hfounded
  exact hfounded

/-- Every scope that files make has its founder among their modules. -/
theorem gatherFiles_founded (p : Project) (files : List SourceFile) (hr : p.index.Rooted) :
    Founded ((p.gatherFiles files).1.index.fileVisits files) p.index
      (p.gatherFiles files).1.index := by
  rw [gatherFiles_eq, SymbolIndex.fileVisits]
  exact gatherBody_founded hr .empty hr.nonempty (fileBody files)

/-- So it is after the files were collected. Filing what was gathered
makes no scopes. -/
theorem collected_founded (p : Project) (files : List SourceFile) (hr : p.index.Rooted) :
    Founded ((p.collect files).index.fileVisits files) p.index (p.collect files).index := by
  obtain ⟨hfiled, hreg⟩ := p.gatherFiles_filed files hr
  have htree := p.sameTree_collect files hr
  have hend := (p.gatherFiles_founded files hr).trans htree.grown (.of_size htree.size)
  rw [List.append_nil] at hend
  rw [htree.grown.fileVisits (hfiled.later.rooted hr).1 hreg]
  exact hend

end Project

end Externals
