import Externals.Proofs.Project.FreshRun

/-!
# `Externals.Proofs.Project.Rerun`: the same files a second time

A project that has transformed files and transforms them again starts
from everything the first run left behind. Collecting finds every
module registered and every declaration filed. Emission refills every
label and replaces every artifact by itself, so fusion starts with the
index of the first run (`Fresh.again`). What is left over is the imports
the first fusion filed.

These matter to one thing only. A base for which no import was recorded
is looked up on the chain of its scope; when a later base of the first
run had its name imported, the second run follows that import instead.
`KeepsBases` says that no base changes its meaning in this way.

* `transform_again`: a second run generates files of the same paths, in
  the same order. It finds the same interfaces exactly if the first run
  keeps its bases. Every file whose bases are kept is the same, and if
  all are, so is the whole output.
-/

set_option autoImplicit false

namespace Externals

namespace Project

/-! ### Rendering -/

/-- A scope has a file with its path, if it has something to render. -/
theorem map_path_renderScope {p : Project} {id : Nat} {s : Scope}
    (hs : p.index.scopes[id]? = some s) :
    (p.renderScope id).map OutputUnit.path
      = if (bodyOf s).isEmpty then none else some (p.index.outputPath id) := by
  rw [renderScope, hs]
  dsimp only
  split <;> rfl

/-- A scope has a body exactly if some artifact of it renders. -/
theorem isEmpty_bodyOf (s : Scope) :
    (bodyOf s).isEmpty ↔ ∀ key a, s.artifacts.get? key = some a → a.render? = none := by
  rw [List.isEmpty_iff, bodyOf, List.flatMap_eq_nil_iff]
  simp only [List.filterMap_eq_nil_iff, List.mem_filter, beq_iff_eq]
  constructor
  · intro h key a hget
    have hkind : key.kind ∈ DeclKind.all := by cases key.kind <;> decide
    exact h key.kind hkind (key, a) ⟨Table.mem_entries_of_get? hget, rfl⟩
  · rintro h kind - e ⟨he, -⟩
    exact h e.1 e.2 (Table.get?_of_mem_entries he)

/-- Whether an artifact renders does not depend on what is fused. -/
theorem Artifact.render?_unfused (a : Artifact) : a.unfused.render? = none ↔ a.render? = none := by
  cases a <;> simp [Artifact.unfused, Artifact.render?]

/-- Splices do not decide which files there are. So two runs generate
files of the same paths, whatever their fusions find. -/
theorem isEmpty_bodyOf_congr {s s' : Scope}
    (h : ∀ key, (s'.artifacts.get? key).map Artifact.unfused
      = (s.artifacts.get? key).map Artifact.unfused) :
    (bodyOf s').isEmpty = (bodyOf s).isEmpty := by
  -- One direction is enough: the relation is symmetric. An artifact prints something or not
  -- whatever was fused into it.
  have himp : ∀ {s s' : Scope}, (∀ key, (s'.artifacts.get? key).map Artifact.unfused
      = (s.artifacts.get? key).map Artifact.unfused) →
      (bodyOf s).isEmpty → (bodyOf s').isEmpty := by
    intro s s' h hbody
    rw [isEmpty_bodyOf] at hbody ⊢
    intro key a' ha'
    have hkey := h key
    rw [ha', Option.map_some] at hkey
    obtain ⟨a, ha, hsame⟩ := Option.map_eq_some_iff.mp hkey.symm
    rw [← Artifact.render?_unfused, ← hsame, Artifact.render?_unfused]
    exact hbody key a ha
  exact Bool.eq_iff_iff.mpr ⟨himp fun key => (h key).symm, himp h⟩

/-- The paths of the files, scope by scope. -/
theorem map_path_render (p : Project) :
    p.render.map OutputUnit.path
      = p.index.ids.filterMap fun id => (p.renderScope id).map OutputUnit.path := by
  rw [render, List.map_filterMap]

/-- Where there is no scope there is no file. -/
theorem renderScope_of_size_le {p : Project} {id : Nat} (h : p.index.size ≤ id) :
    p.renderScope id = none := by
  rw [renderScope, List.getElem?_eq_none h]

/-- Projects that differ in artifacts and headers only have the same
file for a scope where they do not differ. -/
theorem renderScope_congr {p q : Project} (hsource : SameSource p.index q.index)
    {F G : Nat → Shelf} (hp : p.Shelved F) (hq : q.Shelved G) {id : Nat}
    (hartifacts : q.index.artifactsOf id = p.index.artifactsOf id) (hshelf : G id = F id) :
    q.renderScope id = p.renderScope id := by
  have hsize := hsource.size
  by_cases hid : id < p.index.size
  · obtain ⟨s, hs⟩ := SymbolIndex.exists_scope hid
    obtain ⟨s', hs'⟩ := SymbolIndex.exists_scope (hsize ▸ hid : id < q.index.size)
    -- A file is made of the artifacts, the imports, and what the index answers about the scope.
    have hbody : bodyOf s' = bodyOf s := by
      rw [SymbolIndex.artifactsOf, SymbolIndex.artifactsOf, hs, hs'] at hartifacts
      rw [bodyOf, bodyOf]
      exact congrArg (fun t : Table DeclKey Artifact => DeclKind.all.flatMap fun kind =>
        (t.entries.filter fun e => e.1.kind == kind).filterMap fun e => e.2.render?) hartifacts
    have hheader : q.headers.render s'.header = p.headers.render s.header := by
      rw [Headers.render, Headers.render, Headers.flatten, Headers.flatten, hq.merged hs',
        hp.merged hs, hshelf]
    rw [renderScope, renderScope, hs, hs']
    dsimp only
    rw [hbody, hheader, hsource.alike.outputPath, hsource.alike.jsModuleOf,
      hsource.alike.packageOf]
  · have hp : p.index.size ≤ id := Nat.not_lt.mp hid
    rw [renderScope_of_size_le hp, renderScope_of_size_le (by rw [hsize]; exact hp)]

/-! ### The second emission -/

namespace Fresh

variable {p : Project}

/-- The second emission gives the index of the first one, and leaves the
imports of the first run. So all that a second run has in addition is
what the first fusion filed. -/
theorem again (h : p.Fresh) {files : List SourceFile} (hcollected : HasCollected p.index files) :
    (p.resolveFusions.collect files).emitAll.index = p.index
      ∧ (p.resolveFusions.collect files).emitAll.Shelved p.finalShelf := by
  obtain ⟨hsource, hartifacts, hshelved⟩ := h.resolved
  obtain ⟨hindex, hheaders⟩ := collect_again (hsource.hasCollected hcollected)
  have hcollect : (p.resolveFusions.collect files).Shelved p.finalShelf :=
    hshelved.of_bare hheaders (by rw [hindex])
  obtain ⟨hsource', hartifacts', hshelved'⟩ := emitAll_emitted hcollect
  rw [hindex] at hsource'
  simp only [hindex] at hartifacts' hshelved'
  refine ⟨(hsource.trans hsource').eq_of_artifacts fun id => ?_, ?_⟩
  · -- Fusion kept all keys, so every artifact is replaced in its place.
    rw [hartifacts', hsource.emittedArtifacts, h.artifacts]
    refine Table.insertAll_eq_of_keys ?_
    rw [hartifacts, keys_foldl_fuseTable, h.artifacts]
  · have hsame : (fun id => p.resolveFusions.index.emittedShelf id (p.finalShelf id))
        = p.finalShelf := by
      funext id
      rw [hsource.emittedShelf]
      refine p.index.emittedShelf_eq_self id fun e he => ?_
      rw [finalShelf, p.index.get?_splicedShelf_label]
      exact p.index.get?_emittedShelf id e he
    rw [← hsame]
    exact hshelved'

end Fresh

/-! ### Kept bases -/

/-- The bases of a scope that were found without an import still mean
the same at the end of the run. They are asked about at their own turn
and once more when everything is done. -/
def KeepsBasesAt (p : Project) (id : Nat) : Prop :=
  ∀ turn ∈ p.turns p.fusionTasks, turn.2.scope = id → turn.1.recordOf turn.2 = none →
    p.resolveFusions.found turn.2 = turn.1.found turn.2

/-- No base changes its meaning during the fusion of a project. -/
def KeepsBases (p : Project) : Prop := ∀ id, p.KeepsBasesAt id

/-- What a base stands for is read off from the source. -/
theorem SameSource.baseAt {a b : SymbolIndex} (h : SameSource a b) (t : FusionTask)
    (record : Option ImportLine) : b.baseAt t record = a.baseAt t record := by
  simp only [SymbolIndex.baseAt, SymbolIndex.interface?_eq, h.declarations, h.alike.scopesIn,
    h.alike.declaringScope]

/-- Keeping the bases, in terms of the shelf of the scope alone. -/
theorem Fresh.keepsBasesAt_iff {p : Project} (h : p.Fresh) (id : Nat) :
    p.KeepsBasesAt id ↔ p.index.StableOn (p.finalShelf id)
      (p.index.shelfRecords (p.index.emittedShelf id .empty)
        (tasksFor id (p.fusedInterfaces id))) := by
  obtain ⟨hsource, -, hshelved⟩ := h.resolved
  -- Both sides speak of the same two answers, one from the final shelf and one without a record.
  have hfound : ∀ turn ∈ p.turns p.fusionTasks, turn.2.scope = id →
      p.resolveFusions.found turn.2
        = p.index.baseAt turn.2 ((p.finalShelf id).lookup turn.2.base) := by
    intro turn hturn hid
    have hmem : turn.2 ∈ p.fusionTasks := by
      rw [← p.map_snd_turns p.fusionTasks]
      exact List.mem_map_of_mem hturn
    obtain ⟨i, hi, htask⟩ := List.mem_flatMap.mp hmem
    have hscope : turn.2.scope < p.resolveFusions.index.size := by
      rw [hsource.size, scope_of_mem_tasksFor htask]
      exact List.mem_range.mp hi
    rw [found_eq, hshelved.recordOf hscope, hsource.baseAt, hid]
  have hnone : ∀ turn ∈ p.turns p.fusionTasks, turn.1.recordOf turn.2 = none →
      turn.1.found turn.2 = p.index.baseAt turn.2 none := by
    intro turn hturn hrecord
    rw [found_eq, hrecord, index_of_mem_turns hturn]
  rw [← h.shelved.filter_records id]
  constructor
  · rintro hkeeps r hr hrecord
    obtain ⟨hr, hid⟩ := List.mem_filter.mp hr
    obtain ⟨turn, hturn, rfl⟩ := List.mem_map.mp hr
    have hid := of_decide_eq_true hid
    rw [← hfound turn hturn hid, ← hnone turn hturn hrecord]
    exact hkeeps turn hturn hid hrecord
  · intro hstable turn hturn hid hrecord
    rw [hfound turn hturn hid, hnone turn hturn hrecord]
    exact hstable (turn.1.recordOf turn.2, turn.2)
      (List.mem_filter.mpr ⟨List.mem_map_of_mem hturn, decide_eq_true hid⟩) hrecord

/-! ### The second run -/

/-- The second fusion of a scope: it finds what the first one found
exactly if the bases are kept, and then ends where the first one did. -/
theorem Fresh.refuse {p q : Project} (h : p.Fresh) (hindex : q.index = p.index)
    (hshelved : q.Shelved p.finalShelf) (id : Nat) :
    ((q.findings q.fusionTasks).filter (fun f => f.1.scope = id)
        = (p.findings p.fusionTasks).filter (fun f => f.1.scope = id) ↔ p.KeepsBasesAt id)
      ∧ (p.KeepsBasesAt id →
          p.index.splicedShelf (p.finalShelf id) (tasksFor id (p.fusedInterfaces id))
            = p.finalShelf id) := by
  have hrefuse := p.index.refuse_shelf id (h.drafted.nodup_names id)
    fun name _ => p.fuseLabel_not_mem_emittedShelf id name
  rw [hshelved.filter_findings, h.shelved.filter_findings, fusedInterfaces_of_index hindex, hindex,
    h.keepsBasesAt_iff]
  exact ⟨hrefuse.1, fun hstable => hrefuse.2 (hrefuse.1.mpr hstable)⟩

section

variable {p q : Project} (h : p.Fresh) (hindex : q.index = p.index)
  (hshelved : q.Shelved p.finalShelf)

include h hindex hshelved

/-- All scopes find what they found before exactly if all bases are
kept. The findings of a project are those of its scopes, one after the
other. -/
theorem Fresh.findings_again_iff :
    q.findings q.fusionTasks = p.findings p.fusionTasks ↔ p.KeepsBases := by
  constructor
  · intro hsame id
    rw [← (h.refuse hindex hshelved id).1, hsame]
  · intro hkeeps
    rw [hshelved.findings_eq_flatMap, h.shelved.findings_eq_flatMap, hindex]
    refine congrArg (fun g => p.index.ids.flatMap g) (funext fun id => ?_)
    exact (h.refuse hindex hshelved id).1.mpr (hkeeps id)

/-- The second fusion, compared to the end of the first one. The classes
may have received other members, and the shelves other imports. -/
theorem Fresh.resolved_again :
    SameSource p.resolveFusions.index q.resolveFusions.index
      ∧ (∀ id, q.resolveFusions.index.artifactsOf id
          = (q.splicesOf id).foldl fuseTable (p.index.artifactsOf id))
      ∧ q.resolveFusions.Shelved fun id =>
          p.index.splicedShelf (p.finalShelf id) (tasksFor id (p.fusedInterfaces id)) := by
  have hfused := fusedInterfaces_of_index hindex
  obtain ⟨hsource, hartifacts, hfinal⟩ :=
    hshelved.resolveFusions fun i => by rw [hfused]; exact h.drafted.nodup_names i
  rw [hindex] at hsource
  simp only [hindex, hfused] at hartifacts hfinal
  exact ⟨h.resolved.1.symm.trans hsource, hartifacts, hfinal⟩

/-- The file of a scope whose bases are kept is the same in every
character, also if other scopes do not keep theirs. -/
theorem Fresh.renderScope_again {id : Nat} (hkeeps : p.KeepsBasesAt id) :
    q.resolveFusions.renderScope id = p.resolveFusions.renderScope id := by
  obtain ⟨hfindings, hshelf⟩ := h.refuse hindex hshelved id
  obtain ⟨-, hartifacts, hfinal⟩ := h.resolved
  obtain ⟨hsource, hartifacts', hfinal'⟩ := h.resolved_again hindex hshelved
  -- The second run finds what the first one did, so it splices the same members, and the
  -- artifacts come out the same.
  have hsplices : q.splicesOf id = p.splicesOf id := by
    rw [splicesOf, splicesOf, fusedInterfaces_of_index hindex, hindex]
    refine List.map_congr_left fun pair _ => ?_
    rw [interfaceMembers_of_index hindex, ← p.index.additions_filter_scope,
      hfindings.mpr hkeeps, p.index.additions_filter_scope]
  refine renderScope_congr hsource hfinal hfinal' ?_ (hshelf hkeeps)
  rw [hartifacts, hartifacts', hsplices]

/-- The file of a scope has the same path, or there is none in both
runs. -/
theorem Fresh.map_path_renderScope_again (id : Nat) :
    (q.resolveFusions.renderScope id).map OutputUnit.path
      = (p.resolveFusions.renderScope id).map OutputUnit.path := by
  obtain ⟨-, hartifacts, -⟩ := h.resolved
  obtain ⟨hsource, hartifacts', -⟩ := h.resolved_again hindex hshelved
  by_cases hid : id < p.resolveFusions.index.size
  · obtain ⟨s, hs⟩ := SymbolIndex.exists_scope hid
    obtain ⟨s', hs'⟩ := SymbolIndex.exists_scope
      (by rw [hsource.size]; exact hid : id < q.resolveFusions.index.size)
    -- A scope has a file exactly if something renders there, whatever was spliced into it.
    have hbody : (bodyOf s').isEmpty = (bodyOf s).isEmpty := by
      refine isEmpty_bodyOf_congr fun key => ?_
      have hfirst := hartifacts id
      have hsecond := hartifacts' id
      rw [SymbolIndex.artifactsOf, hs, Option.map_some, Option.getD_some] at hfirst
      rw [SymbolIndex.artifactsOf, hs', Option.map_some, Option.getD_some] at hsecond
      rw [hfirst, hsecond, unfused_get?_foldl_fuseTable, unfused_get?_foldl_fuseTable]
    rw [map_path_renderScope hs, map_path_renderScope hs', hbody, hsource.alike.outputPath]
  · have hp : p.resolveFusions.index.size ≤ id := Nat.not_lt.mp hid
    rw [renderScope_of_size_le hp, renderScope_of_size_le (by rw [hsource.size]; exact hp)]

/-- Both runs end with the same scopes. -/
theorem Fresh.ids_again : q.resolveFusions.index.ids = p.resolveFusions.index.ids := by
  rw [SymbolIndex.ids, SymbolIndex.ids, (h.resolved_again hindex hshelved).1.size]

/-- So the files have the same paths in the same order. -/
theorem Fresh.map_path_render_again :
    q.resolveFusions.render.map OutputUnit.path = p.resolveFusions.render.map OutputUnit.path := by
  rw [map_path_render, map_path_render, h.ids_again hindex hshelved]
  exact congrArg (fun g => p.resolveFusions.index.ids.filterMap g)
    (funext fun id => h.map_path_renderScope_again hindex hshelved id)

/-- If all bases are kept, the output is the same. -/
theorem Fresh.render_again (hkeeps : p.KeepsBases) :
    q.resolveFusions.render = p.resolveFusions.render := by
  rw [render, render, h.ids_again hindex hshelved]
  exact congrArg (fun g => p.resolveFusions.index.ids.filterMap g)
    (funext fun id => h.renderScope_again hindex hshelved (hkeeps id))

end

/-- A second run on the same files. Its files have the paths of the
first run, and the file of a scope differs only if the scope does not
keep its bases. -/
theorem transform_again (c : Conventions) (files : List SourceFile) :
    let emitted := ((Project.initial c).collect files).emitAll
    let first := (Project.initial c).transform files
    let again := (first.1.collect files).emitAll
    let second := first.1.transform files
    second.2.map OutputUnit.path = first.2.map OutputUnit.path
      ∧ (again.findings again.fusionTasks = emitted.findings emitted.fusionTasks
          ↔ emitted.KeepsBases)
      ∧ (∀ id, emitted.KeepsBasesAt id → second.1.renderScope id = first.1.renderScope id)
      ∧ (emitted.KeepsBases → second.2 = first.2) := by
  obtain ⟨hfresh, hcollected⟩ := fresh_emitAll c files
  obtain ⟨hindex, hshelved⟩ := hfresh.again hcollected
  simp only [transform_fst, transform_snd]
  exact ⟨hfresh.map_path_render_again hindex hshelved, hfresh.findings_again_iff hindex hshelved,
    fun _ => hfresh.renderScope_again hindex hshelved, hfresh.render_again hindex hshelved⟩

/-- The first run takes `A` from `m`, and then imports the `A` of `a` for
the members of `B`. -/
theorem not_keepsBases_shadowedBases :
    ¬ ((Project.initial {}).collect (shadowedBases ["A", "B"])).emitAll.KeepsBases := by
  intro hkeeps
  have hstable := ((fresh_emitAll {} (shadowedBases ["A", "B"])).1.keepsBasesAt_iff 3).mp (hkeeps 3)
  revert hstable
  rw [SymbolIndex.StableOn]
  decide +kernel

end Project

end Externals
