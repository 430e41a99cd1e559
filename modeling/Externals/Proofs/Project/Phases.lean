import Externals.Proofs.Project.FreshRun

/-!
# `Externals.Proofs.Project.Phases`: what holds between the phases

A project can go through its phases more than once: files are collected
into what earlier files left, and everything is emitted and fused again.
`Reached` allows the phases in any order.

Whatever came before, a project is `Standing`: its scopes are a tree
and each has a path of its own, its headers are shelved, everything is
filed under its own key, and no artifact outlives its declaration. The
last point is what makes old artifacts harmless. An emission drafts
every declaration there is, so it replaces every artifact there was,
and the project is `Drafted` again.

* `Reached.standing`: the invariant.
* `Standing.drafted`: after an emission, every artifact is that of its
  draft, whatever was kept before.
-/

set_option autoImplicit false

namespace Externals.Project

/-- The projects that a run can reach, by any sequence of phases. A run
goes through them in one order, and may be repeated with other files;
nothing below needs the order. -/
inductive Reached (c : Conventions) : Project → Prop
  | initial : Reached c (.initial c)
  | collect {p : Project} (files : List SourceFile) (h : Reached c p) : Reached c (p.collect files)
  | emitAll {p : Project} (h : Reached c p) : Reached c p.emitAll
  | resolveFusions {p : Project} (h : Reached c p) : Reached c p.resolveFusions

/-- A run takes a project through all of them. -/
theorem Reached.transform {c : Conventions} {p : Project} (h : Reached c p)
    (files : List SourceFile) : Reached c (p.transform files).1 := by
  rw [transform_fst]
  exact (h.collect files).emitAll.resolveFusions

/-- What holds of a project before and after every phase. Each part is
what some phase relies on: looking up paths, filing imports, splicing
into classes by their keys, and replacing what an earlier run kept. -/
structure Standing (p : Project) : Prop where
  rooted : p.index.Rooted
  consistent : p.index.Consistent
  shelved : ∃ F, p.Shelved F
  wellKeyed : p.index.WellKeyed
  fits : ∀ id key a, (p.index.artifactsOf id).get? key = some a → a.FitsKey key
  declared : ∀ id, ∀ key ∈ (p.index.artifactsOf id).keys, key ∈ (p.index.declarationsOf id).keys

/-- A new project has nothing that could be wrong. -/
theorem standing_initial (c : Conventions) : (Project.initial c).Standing where
  rooted := rooted_initial c
  consistent := SymbolIndex.consistent_initial c {}
  shelved := ⟨_, shelved_initial c⟩
  wellKeyed := fun id key decl hget => by
    rw [(contents_initial c id).1, Table.get?_empty] at hget
    cases hget
  fits := fun id key a hget => by
    rw [(contents_initial c id).2, Table.get?_empty] at hget
    cases hget
  declared := fun id key hkey => by
    rw [(contents_initial c id).2] at hkey
    cases hkey

namespace Standing

variable {p : Project} (h : p.Standing)

include h

/-- Collecting leaves artifacts alone and never drops a declaration. So
every artifact is still declared, perhaps not by the same statement. -/
theorem collect (files : List SourceFile) : (p.collect files).Standing := by
  have hcollected := p.collected files h.rooted
  obtain ⟨F, hF⟩ := h.shelved
  -- Collecting stores no artifact and takes no declaration away.
  refine ⟨hcollected.rooted, hcollected.consistent h.consistent, ⟨F, hcollected.shelved F hF⟩,
    hcollected.wellKeyed h.wellKeyed, fun id key a hget => ?_, fun id key hkey => ?_⟩
  · rw [hcollected.artifacts] at hget
    exact h.fits id key a hget
  · rw [hcollected.artifacts] at hkey
    rw [hcollected.declarations, Table.mem_keys_insertAll]
    exact .inl (h.declared id key hkey)

/-- The artifacts after an emission are those of the drafts. A key
without a declaration had no artifact before and gets none. An artifact
of an earlier run is replaced, also if it was fused in the meantime. -/
theorem get?_artifactsOf_emitAll (id : Nat) (key : DeclKey) :
    (p.emitAll.index.artifactsOf id).get? key
      = ((p.index.declarationsOf id).get? key).bind fun decl =>
          (p.index.draftOf id (key, decl)).value := by
  obtain ⟨F, hF⟩ := h.shelved
  obtain ⟨-, hartifacts, -⟩ := emitAll_emitted hF
  rw [hartifacts, Table.get?_insertAll, SymbolIndex.latest?_emittedArtifacts]
  -- Without a declaration there was no artifact before either; with one, its draft has a
  -- value.
  cases hdecl : (p.index.declarationsOf id).get? key with
  | none =>
      have hold : (p.index.artifactsOf id).get? key = none := by
        rw [Table.get?_eq_none_iff] at hdecl ⊢
        exact fun hkey => hdecl (h.declared id key hkey)
      rw [hold]
      rfl
  | some decl =>
      obtain ⟨a, ha, -⟩ := (h.wellKeyed id key decl hdecl).draft p.index id
      rw [Option.bind_some, ha]
      rfl

/-- So the project is drafted, whatever it kept before. This is the
starting point of all that is said about fusion. -/
theorem drafted : p.emitAll.Drafted := by
  obtain ⟨F, hF⟩ := h.shelved
  obtain ⟨hsource, -, hshelved⟩ := emitAll_emitted hF
  refine ⟨fun id key decl hget => ?_, ⟨_, hshelved⟩, fun id key => ?_⟩
  · rw [hsource.declarations] at hget
    exact h.wellKeyed id key decl hget
  · rw [h.get?_artifactsOf_emitAll, hsource.declarations]
    simp only [hsource.alike.draftOf]

/-- Emission keeps the invariant, as a drafted project has it. -/
theorem emitAll : p.emitAll.Standing := by
  obtain ⟨F, hF⟩ := h.shelved
  obtain ⟨hsource, -, -⟩ := emitAll_emitted hF
  have hdrafted := h.drafted
  exact ⟨h.rooted.of_bare hsource.byPath hsource.bare, hsource.consistent h.consistent,
    hdrafted.shelved, hdrafted.wellKeyed, fun id key a => hdrafted.fits,
    fun id key => hdrafted.mem_keys_declarationsOf⟩

/-- Fusion changes neither the keys of artifacts nor their names, and
nothing of the source. -/
theorem resolveFusions : p.resolveFusions.Standing := by
  obtain ⟨F, hF⟩ := h.shelved
  obtain ⟨hsource, hartifacts, hshelved⟩ :=
    hF.resolveFusions fun id => nodup_fusedInterfaces (h.fits id)
  -- Splicing changes the fused part of artifacts only: declarations stay, and neither the
  -- key an artifact fits nor the keys of the table depend on that part.
  refine ⟨h.rooted.of_bare hsource.byPath hsource.bare, hsource.consistent h.consistent,
    ⟨_, hshelved⟩, fun id key decl hget => ?_, fun id key a hget => ?_, fun id key hkey => ?_⟩
  · rw [hsource.declarations] at hget
    exact h.wellKeyed id key decl hget
  · have hunfused := unfused_get?_foldl_fuseTable (p.splicesOf id) (p.index.artifactsOf id) key
    rw [← hartifacts, hget, Option.map_some] at hunfused
    obtain ⟨b, hb, heq⟩ := Option.map_eq_some_iff.mp hunfused.symm
    rw [← a.fitsKey_unfused, ← heq, b.fitsKey_unfused]
    exact h.fits id key b hb
  · rw [hartifacts, keys_foldl_fuseTable] at hkey
    rw [hsource.declarations]
    exact h.declared id key hkey

end Standing

/-- The invariant holds of every project that a run can reach, by
induction on the phases. -/
theorem Reached.standing {c : Conventions} {p : Project} (h : Reached c p) : p.Standing := by
  induction h with
  | initial => exact standing_initial c
  | collect files _ ih => exact ih.collect files
  | emitAll _ ih => exact ih.emitAll
  | resolveFusions _ ih => exact ih.resolveFusions

end Externals.Project
