import Externals.Project.Fusion
import Externals.Proofs.Project.Emission

/-!
# `Externals.Proofs.Project.Fusion`: fusion, base by base

Fusion goes through the interfaces that are fused into a class, scope
by scope, and through the bases of each. Every base is one *task*: the
interface it stands for is looked up, its members are drafted for the
class, and their imports are filed on the shelf of the class's scope.

What a base stands for depends on the shelf at its turn, so the order
of the tasks matters. This module turns the nested recursion of fusion
into a fold over the list of tasks (`fusions_fst`), and the fold over
projects into one fold over each shelf (`Shelved.performAll`).

* `Project.turns` lists the tasks with the project at their turn,
  `Project.records` with the import line recorded for their base.
* `Project.found` is the interface a task finds there.
* `fusions_snd`: the members spliced into a class are those of its
  interface, then those of the interfaces its tasks find, in order.
-/

set_option autoImplicit false

namespace Externals

/-- One base of an interface that is fused into the class of its name.
The base is a text as the mapping has written it, and no declaration
yet. -/
structure FusionTask where
  scope : Nat
  name : String
  base : String
deriving DecidableEq, Inhabited

/-- A task with the interface it found, and the scope of that. -/
abbrev Finding := FusionTask × Option (Nat × InterfaceDecl)

namespace SymbolIndex

/-- The interface a base stands for, given the import line recorded for
it in the file of the class. With a line, its package is searched for
the name that it imports. Without one the chain of the scope is
searched, and the interface that is fused does not count. -/
def baseAt (ix : SymbolIndex) (t : FusionTask) (record : Option ImportLine) :
    Option (Nat × InterfaceDecl) :=
  match record with
  | some line =>
      (ix.scopesIn line.package).findSome? fun owner =>
        (ix.scopes[owner]?.bind fun s => s.interface? line.name).map (owner, ·)
  | none =>
      match ix.declaringScope t.scope t.base with
      | some owner =>
          if owner == t.scope && t.base == t.name then none
          else (ix.scopes[owner]?.bind fun s => s.interface? t.base).map (owner, ·)
      | none => none

/-- The members of an interface, drafted for the class of a task. They
are written in the file of the class, and their names mean what they
mean where the interface stands. -/
def spliceDraft (ix : SymbolIndex) (t : FusionTask) (b : Nat × InterfaceDecl) :
    Draft (List String) :=
  (Viewpoint.mk ix t.scope b.1).draftMembers t.name b.2.members

/-- The members a task adds once it has found an interface, or none. -/
def splicedMembers (ix : SymbolIndex) (t : FusionTask) (b : Option (Nat × InterfaceDecl)) :
    List String :=
  (b.map fun b => (ix.spliceDraft t b).value).getD []

/-- The imports a task asks for once it has found an interface, or
none. -/
def splicedImports (ix : SymbolIndex) (t : FusionTask) (b : Option (Nat × InterfaceDecl)) :
    List ImportLine :=
  (b.map fun b => (ix.spliceDraft t b).imports).getD []

/-- What a task with a record finds. It depends on nothing but the
index. -/
def finding (ix : SymbolIndex) (r : Option ImportLine × FusionTask) : Finding :=
  (r.2, ix.baseAt r.2 r.1)

/-- The members that findings add to a class, in the order of the
findings. -/
def additions (ix : SymbolIndex) (fs : List Finding) (scope : Nat) (name : String) : List String :=
  (fs.filter fun f => f.1.scope = scope ∧ f.1.name = name).flatMap fun f =>
    ix.splicedMembers f.1 f.2

/-- Findings add one after the other. -/
theorem additions_append (ix : SymbolIndex) (fs gs : List Finding) (scope : Nat) (name : String) :
    ix.additions (fs ++ gs) scope name
      = ix.additions fs scope name ++ ix.additions gs scope name := by
  rw [additions, List.filter_append, List.flatMap_append]
  rfl

/-- Findings for other classes add nothing. -/
theorem additions_eq_nil (ix : SymbolIndex) {fs : List Finding} {scope : Nat} {name : String}
    (h : ∀ f ∈ fs, f.1.scope = scope → f.1.name ≠ name) : ix.additions fs scope name = [] := by
  have hfilter : (fs.filter fun f => f.1.scope = scope ∧ f.1.name = name) = [] := by
    rw [List.filter_eq_nil_iff]
    intro f hf hmatch
    obtain ⟨hscope, hname⟩ := of_decide_eq_true hmatch
    exact h f hf hscope hname
  rw [additions, hfilter, List.flatMap_nil]

/-- Findings that are all for one class add all that they have. -/
theorem additions_eq_flatMap (ix : SymbolIndex) {fs : List Finding} {scope : Nat} {name : String}
    (h : ∀ f ∈ fs, f.1.scope = scope ∧ f.1.name = name) :
    ix.additions fs scope name = fs.flatMap fun f => ix.splicedMembers f.1 f.2 := by
  rw [additions, List.filter_eq_self.mpr fun f hf => decide_eq_true (h f hf)]

/-- Only the findings of a scope add to its classes, so those of other
scopes can be left out first. -/
theorem additions_filter_scope (ix : SymbolIndex) (fs : List Finding) (scope : Nat)
    (name : String) :
    ix.additions (fs.filter fun f => f.1.scope = scope) scope name
      = ix.additions fs scope name := by
  rw [additions, List.filter_filter, additions]
  congr 2
  funext f
  by_cases hscope : f.1.scope = scope <;> simp [hscope]

end SymbolIndex

/-- The tasks of fused interfaces of a scope, interface by interface. -/
def tasksFor (scope : Nat) (pairs : List (String × List String)) : List FusionTask :=
  pairs.flatMap fun pair => pair.2.map fun base => ⟨scope, pair.1, base⟩

/-- The tasks of one class carry its name. -/
theorem name_of_mem_tasks (scope : Nat) (name : String) (bases : List String) :
    ∀ t ∈ bases.map fun base => FusionTask.mk scope name base, t.name = name := by
  simp

/-- The tasks of a scope carry its number. -/
theorem scope_of_mem_tasksFor {scope : Nat} {pairs : List (String × List String)} {t : FusionTask}
    (h : t ∈ tasksFor scope pairs) : t.scope = scope := by
  simp only [tasksFor, List.mem_flatMap, List.mem_map] at h
  obtain ⟨pair, -, base, -, rfl⟩ := h
  rfl

/-- And each the name of one of the classes. -/
theorem name_of_mem_tasksFor {scope : Nat} {pairs : List (String × List String)} {t : FusionTask}
    (h : t ∈ tasksFor scope pairs) : t.name ∈ pairs.map Prod.fst := by
  simp only [tasksFor, List.mem_flatMap, List.mem_map] at h
  obtain ⟨pair, hpair, base, -, rfl⟩ := h
  exact List.mem_map_of_mem hpair

/-- No scope is gone through twice. -/
theorem SymbolIndex.nodup_ids (ix : SymbolIndex) : ix.ids.Nodup := List.nodup_range

/-- In a list put together scope by scope, the part of one scope. It is
used for tasks, for records and for findings. -/
theorem SymbolIndex.filter_ids_flatMap {α : Type} (ix : SymbolIndex) (tag : α → Nat)
    {g : Nat → List α} (hg : ∀ i, ∀ x ∈ g i, tag x = i) (hout : ∀ i, ix.size ≤ i → g i = [])
    (id : Nat) : (ix.ids.flatMap g).filter (fun x => tag x = id) = g id := by
  -- For all lists of scopes without repetition: the part of a scope comes from its one place.
  have hall : ∀ ids : List Nat, ids.Nodup →
      (ids.flatMap g).filter (fun x => tag x = id) = if id ∈ ids then g id else [] := by
    intro ids hnodup
    induction ids with
    | nil => rfl
    | cons i ids ih =>
        rw [List.nodup_cons] at hnodup
        rw [List.flatMap_cons, List.filter_append, ih hnodup.2]
        by_cases hid : i = id
        · subst hid
          rw [List.filter_eq_self.mpr fun x hx => decide_eq_true (hg i x hx), if_neg hnodup.1,
            if_pos (.head _), List.append_nil]
        · have hnone : (g i).filter (fun x => tag x = id) = [] := by
            rw [List.filter_eq_nil_iff]
            intro x hx hmatch
            exact hid ((hg i x hx).symm.trans (of_decide_eq_true hmatch))
          have hmem : id ∈ i :: ids ↔ id ∈ ids := by simp [Ne.symm hid]
          rw [hnone, List.nil_append]
          simp only [hmem]
  rw [hall _ ix.nodup_ids]
  split
  · rfl
  · rename_i hid
    rw [ids, List.mem_range, Nat.not_lt] at hid
    exact (hout id hid).symm

namespace Project

/-! ### Tasks and turns -/

/-- The import line recorded for the base of a task. -/
def recordOf (p : Project) (t : FusionTask) : Option ImportLine :=
  p.headers.lookup (p.headerOf t.scope) t.base

/-- The interface a task finds. -/
def found (p : Project) (t : FusionTask) : Option (Nat × InterfaceDecl) :=
  p.findBase t.scope t.name t.base

/-- The project after a task. What the task adds to the class is kept
apart, as it is spliced only at the end. -/
def perform (p : Project) (t : FusionTask) : Project := (p.baseMembers t.scope t.name t.base).1

/-- Tasks with the project at their turn: after all tasks before them. -/
def turns (p : Project) : List FusionTask → List (Project × FusionTask)
  | [] => []
  | t :: ts => (p, t) :: turns (p.perform t) ts

/-- What tasks find, each at its turn. -/
def findings (p : Project) (ts : List FusionTask) : List Finding :=
  (p.turns ts).map fun turn => (turn.2, turn.1.found turn.2)

/-- All tasks of a project, in the order of fusion. -/
def fusionTasks (p : Project) : List FusionTask :=
  p.index.ids.flatMap fun scope => tasksFor scope (p.fusedInterfaces scope)

/-- What a task finds is decided by the index and its record. -/
theorem found_eq (p : Project) (t : FusionTask) : p.found t = p.index.baseAt t (p.recordOf t) := rfl

/-- Turns of two lists of tasks, the second after all of the first. -/
theorem turns_append (p : Project) (ts us : List FusionTask) :
    p.turns (ts ++ us) = p.turns ts ++ (ts.foldl perform p).turns us := by
  induction ts generalizing p with
  | nil => rfl
  | cons t ts ih =>
      rw [List.cons_append, turns, ih]
      rfl

/-- The same for what they find. -/
theorem findings_append (p : Project) (ts us : List FusionTask) :
    p.findings (ts ++ us) = p.findings ts ++ (ts.foldl perform p).findings us := by
  rw [findings, turns_append, List.map_append]
  rfl

/-- Each task has one turn. -/
theorem map_snd_turns (p : Project) (ts : List FusionTask) : (p.turns ts).map Prod.snd = ts := by
  induction ts generalizing p with
  | nil => rfl
  | cons t ts ih => rw [turns, List.map_cons, ih]

/-- What is found was looked for. -/
theorem task_of_mem_findings {p : Project} {ts : List FusionTask} {f : Finding}
    (h : f ∈ p.findings ts) : f.1 ∈ ts := by
  obtain ⟨turn, hturn, rfl⟩ := List.mem_map.mp h
  rw [← p.map_snd_turns ts]
  exact List.mem_map_of_mem hturn

/-- A task settles the draft of what it found, or reports that it found
nothing. -/
theorem baseMembers_eq (p : Project) (t : FusionTask) :
    p.baseMembers t.scope t.name t.base
      = match p.found t with
        | none => (p.report [.baseNotFound t.name t.base], [])
        | some b => p.settle t.scope (fuseLabel t.name) (p.index.spliceDraft t b) := by
  rw [baseMembers, ← found]
  cases p.found t <;> rfl

/-- A task does not touch the index: it files imports or reports that it
found nothing. -/
theorem index_perform (p : Project) (t : FusionTask) : (p.perform t).index = p.index := by
  rw [perform, baseMembers_eq]
  cases p.found t <;> rfl

/-- And it adds the members of what it found. -/
theorem baseMembers_snd (p : Project) (t : FusionTask) :
    (p.baseMembers t.scope t.name t.base).2 = p.index.splicedMembers t (p.found t) := by
  rw [baseMembers_eq]
  cases p.found t <;> rfl

/-- So no number of tasks touches the index. -/
theorem index_performAll (p : Project) (ts : List FusionTask) :
    (ts.foldl perform p).index = p.index := by
  induction ts generalizing p with
  | nil => rfl
  | cons t ts ih => rw [List.foldl_cons, ih, index_perform]

/-- At every turn the index is that of the start. -/
theorem index_of_mem_turns {p : Project} {ts : List FusionTask} {turn : Project × FusionTask}
    (h : turn ∈ p.turns ts) : turn.1.index = p.index := by
  induction ts generalizing p with
  | nil => cases h
  | cons t ts ih =>
      rcases List.mem_cons.mp h with rfl | hmem
      · rfl
      · rw [ih hmem, index_perform]

/-! ### Fusion is a fold over its tasks -/

/-- The bases of one interface are tasks, performed one after the
other. -/
theorem basesMembers_fst (p : Project) (scope : Nat) (name : String) (bases : List String) :
    (p.basesMembers scope name bases).1
      = (bases.map fun base => FusionTask.mk scope name base).foldl perform p := by
  induction bases generalizing p with
  | nil => rfl
  | cons base bases ih =>
      rw [List.map_cons, List.foldl_cons, ← ih]
      rfl

/-- So are those of all interfaces of a scope. -/
theorem fusionsOf_fst (p : Project) (scope : Nat) (pairs : List (String × List String)) :
    (p.fusionsOf scope pairs).1 = (tasksFor scope pairs).foldl perform p := by
  induction pairs generalizing p with
  | nil => rfl
  | cons pair pairs ih =>
      obtain ⟨name, bases⟩ := pair
      rw [tasksFor, List.flatMap_cons, List.foldl_append, ← tasksFor, ← basesMembers_fst, ← ih]
      rfl

/-- The interfaces that are fused are read off from the index. -/
theorem fusedInterfaces_of_index {p q : Project} (h : q.index = p.index) (scope : Nat) :
    q.fusedInterfaces scope = p.fusedInterfaces scope := by
  rw [fusedInterfaces, fusedInterfaces, h]

/-- Where there is no scope none is fused. -/
theorem fusedInterfaces_of_size_le {p : Project} {id : Nat} (h : p.index.size ≤ id) :
    p.fusedInterfaces id = [] := by
  rw [fusedInterfaces, List.getElem?_eq_none h]
  rfl

/-- Fusion performs its tasks one after the other, scope by scope. All
tasks are known at the start, since the index does not change on the
way. -/
theorem fusions_fst (p : Project) (ids : List Nat) :
    (p.fusions ids).1
      = (ids.flatMap fun scope => tasksFor scope (p.fusedInterfaces scope)).foldl perform p := by
  -- A task changes no scope, so each scope's tasks can be read off the index of the start.
  have hrun : ∀ (ids : List Nat) (q : Project), q.index = p.index →
      (q.fusions ids).1
        = (ids.flatMap fun scope => tasksFor scope (p.fusedInterfaces scope)).foldl perform q := by
    intro ids
    induction ids with
    | nil => exact fun q _ => rfl
    | cons scope ids ih =>
        intro q hq
        rw [List.flatMap_cons, List.foldl_append, ← fusedInterfaces_of_index hq scope,
          ← fusionsOf_fst]
        refine ih _ ?_
        rw [fusionsOf_fst, index_performAll, hq]
  exact hrun ids p rfl

/-! ### What is spliced -/

/-- What the bases of one interface add, each at its turn. -/
theorem basesMembers_snd (p : Project) (scope : Nat) (name : String) (bases : List String) :
    (p.basesMembers scope name bases).2
      = (p.findings (bases.map fun base => ⟨scope, name, base⟩)).flatMap fun f =>
          p.index.splicedMembers f.1 f.2 := by
  induction bases generalizing p with
  | nil => rfl
  | cons base bases ih =>
      -- The first base is looked up now, the others after its task has been performed.
      have hhead := p.baseMembers_snd ⟨scope, name, base⟩
      have htail := ih (p.perform ⟨scope, name, base⟩)
      rw [index_perform] at htail
      rw [List.map_cons, findings, turns, List.map_cons, List.flatMap_cons, ← findings, ← htail,
        ← hhead]
      rfl

/-- The members of an interface are read off from the index too. -/
theorem interfaceMembers_of_index {p q : Project} (h : q.index = p.index) (scope : Nat)
    (name : String) : q.interfaceMembers scope name = p.interfaceMembers scope name := by
  rw [interfaceMembers, interfaceMembers, h]

/-- What is spliced into the classes of a scope: the members of the
interface, and what its bases add. The names are different, so the
findings for one class are those of its own interface. -/
theorem fusionsOf_snd (p : Project) (scope : Nat) {pairs : List (String × List String)}
    (hnames : (pairs.map Prod.fst).Nodup) :
    (p.fusionsOf scope pairs).2 = pairs.map fun pair =>
      (pair.1, p.interfaceMembers scope pair.1
        ++ p.index.additions (p.findings (tasksFor scope pairs)) scope pair.1) := by
  induction pairs generalizing p with
  | nil => rfl
  | cons pair pairs ih =>
      obtain ⟨name, bases⟩ := pair
      rw [List.map_cons, List.nodup_cons] at hnames
      have hindex : (p.basesMembers scope name bases).1.index = p.index := by
        rw [basesMembers_fst, index_performAll]
      -- The tasks of this class come first and are for this class only.
      have hhere : ∀ f ∈ p.findings (bases.map fun base => ⟨scope, name, base⟩),
          f.1.scope = scope ∧ f.1.name = name := by
        intro f hf
        obtain ⟨base, -, heq⟩ := List.mem_map.mp (task_of_mem_findings hf)
        rw [← heq]
        exact ⟨rfl, rfl⟩
      have hothers : ∀ f ∈ (p.basesMembers scope name bases).1.findings (tasksFor scope pairs),
          f.1.scope = scope → f.1.name ≠ name := by
        rintro f hf - rfl
        exact hnames.1 (name_of_mem_tasksFor (task_of_mem_findings hf))
      have hrest := ih (p.basesMembers scope name bases).1 hnames.2
      rw [hindex] at hrest
      have hsplit : p.findings (tasksFor scope ((name, bases) :: pairs))
          = p.findings (bases.map fun base => ⟨scope, name, base⟩)
            ++ (p.basesMembers scope name bases).1.findings (tasksFor scope pairs) := by
        rw [tasksFor, List.flatMap_cons, findings_append, ← basesMembers_fst]
        rfl
      show (name, p.interfaceMembers scope name ++ (p.basesMembers scope name bases).2)
          :: ((p.basesMembers scope name bases).1.fusionsOf scope pairs).2 = _
      rw [hrest, List.map_cons, hsplit]
      congr 1
      · rw [p.index.additions_append, p.index.additions_eq_flatMap hhere,
          p.index.additions_eq_nil hothers, List.append_nil, basesMembers_snd]
      · refine List.map_congr_left fun other hother => ?_
        have hskip : ∀ f ∈ p.findings (bases.map fun base => ⟨scope, name, base⟩),
            f.1.scope = scope → f.1.name ≠ other.1 := by
          intro f hf _ heq
          have hmem : other.1 ∈ pairs.map Prod.fst := List.mem_map_of_mem hother
          rw [← heq, (hhere f hf).2] at hmem
          exact hnames.1 hmem
        rw [p.index.additions_append, p.index.additions_eq_nil hskip, List.nil_append,
          interfaceMembers_of_index hindex]

/-- The members spliced into each class: those of its interface, then
those its tasks found. -/
theorem fusions_snd (p : Project) (hnames : ∀ id, ((p.fusedInterfaces id).map Prod.fst).Nodup)
    {ids : List Nat} (hids : ids.Nodup) :
    (p.fusions ids).2 = ids.flatMap fun scope => (p.fusedInterfaces scope).map fun pair =>
      (scope, pair.1, p.interfaceMembers scope pair.1
        ++ p.index.additions
            (p.findings (ids.flatMap fun scope => tasksFor scope (p.fusedInterfaces scope)))
            scope pair.1) := by
  induction ids generalizing p with
  | nil => rfl
  | cons scope ids ih =>
      rw [List.nodup_cons] at hids
      have hindex : (p.fusionsOf scope (p.fusedInterfaces scope)).1.index = p.index := by
        rw [fusionsOf_fst, index_performAll]
      have hfused := fusedInterfaces_of_index hindex
      -- The findings of this scope count for it alone, those of the others never for it.
      have hhere : ∀ f ∈ p.findings (tasksFor scope (p.fusedInterfaces scope)),
          f.1.scope = scope := fun f hf => scope_of_mem_tasksFor (task_of_mem_findings hf)
      have hothers : ∀ f ∈ (p.fusionsOf scope (p.fusedInterfaces scope)).1.findings
          (ids.flatMap fun scope => tasksFor scope (p.fusedInterfaces scope)),
          f.1.scope ∈ ids := by
        intro f hf
        obtain ⟨id, hid, hmem⟩ := List.mem_flatMap.mp (task_of_mem_findings hf)
        rw [scope_of_mem_tasksFor hmem]
        exact hid
      have hrest := ih (p.fusionsOf scope (p.fusedInterfaces scope)).1
        (fun id => by rw [hfused]; exact hnames id) hids.2
      simp only [hfused, hindex, interfaceMembers_of_index hindex] at hrest
      show (p.fusionsOf scope (p.fusedInterfaces scope)).2.map (scope, ·)
          ++ ((p.fusionsOf scope (p.fusedInterfaces scope)).1.fusions ids).2 = _
      rw [hrest, List.flatMap_cons, List.flatMap_cons, findings_append, ← fusionsOf_fst,
        p.fusionsOf_snd scope (hnames scope), List.map_map]
      congr 1
      · refine List.map_congr_left fun pair _ => ?_
        have hskip : ∀ f ∈ (p.fusionsOf scope (p.fusedInterfaces scope)).1.findings
            (ids.flatMap fun scope => tasksFor scope (p.fusedInterfaces scope)),
            f.1.scope = scope → f.1.name ≠ pair.1 :=
          fun f hf heq => absurd (heq ▸ hothers f hf) hids.1
        rw [p.index.additions_append, p.index.additions_eq_nil hskip, List.append_nil]
        rfl
      · rw [List.flatMap_def, List.flatMap_def]
        congr 1
        refine List.map_congr_left fun id hid => List.map_congr_left fun pair _ => ?_
        have hskip : ∀ f ∈ p.findings (tasksFor scope (p.fusedInterfaces scope)),
            f.1.scope = id → f.1.name ≠ pair.1 := by
          intro f hf heq
          rw [hhere f hf] at heq
          exact absurd (heq ▸ hid) hids.1
        rw [p.index.additions_append, p.index.additions_eq_nil hskip, List.nil_append]

end Project

/-! ### Fusion on one shelf -/

namespace SymbolIndex

/-- A shelf after a task of its scope. The record is looked up on the
shelf itself, and what was found is filed there. -/
def spliceShelf (ix : SymbolIndex) (T : Shelf) (t : FusionTask) : Shelf :=
  match ix.baseAt t (T.lookup t.base) with
  | none => T
  | some b => T.file (fuseLabel t.name) (ix.spliceDraft t b).imports

/-- A shelf after tasks of its scope, one after the other. -/
def splicedShelf (ix : SymbolIndex) (T : Shelf) (ts : List FusionTask) : Shelf :=
  ts.foldl ix.spliceShelf T

/-- Tasks of one scope with the lines recorded for them at their turn.
No project is needed for this, only the shelf. -/
def shelfRecords (ix : SymbolIndex) (T : Shelf) :
    List FusionTask → List (Option ImportLine × FusionTask)
  | [] => []
  | t :: ts => (T.lookup t.base, t) :: shelfRecords ix (ix.spliceShelf T t) ts

/-- Records of two lists of tasks, the second on the shelf that the
first leaves. -/
theorem shelfRecords_append (ix : SymbolIndex) (T : Shelf) (ts us : List FusionTask) :
    ix.shelfRecords T (ts ++ us)
      = ix.shelfRecords T ts ++ ix.shelfRecords (ix.splicedShelf T ts) us := by
  induction ts generalizing T with
  | nil => rfl
  | cons t ts ih =>
      rw [List.cons_append, shelfRecords, ih]
      rfl

/-- Each task has one record, which may be none. -/
theorem length_shelfRecords (ix : SymbolIndex) (T : Shelf) (ts : List FusionTask) :
    (ix.shelfRecords T ts).length = ts.length := by
  induction ts generalizing T with
  | nil => rfl
  | cons t ts ih => rw [shelfRecords, List.length_cons, List.length_cons, ih]

/-- A record is for one of the tasks. -/
theorem task_of_mem_shelfRecords {ix : SymbolIndex} {T : Shelf} {ts : List FusionTask}
    {r : Option ImportLine × FusionTask} (h : r ∈ ix.shelfRecords T ts) : r.2 ∈ ts := by
  induction ts generalizing T with
  | nil => cases h
  | cons t ts ih =>
      rcases List.mem_cons.mp h with rfl | hmem
      · exact .head _
      · exact .tail _ (ih hmem)

/-- More tasks go on from the shelf that is there. -/
theorem splicedShelf_append (ix : SymbolIndex) (T : Shelf) (ts us : List FusionTask) :
    ix.splicedShelf T (ts ++ us) = ix.splicedShelf (ix.splicedShelf T ts) us :=
  List.foldl_append

end SymbolIndex

namespace Project

/-- Tasks with the lines recorded for them at their turn. -/
def records (p : Project) (ts : List FusionTask) : List (Option ImportLine × FusionTask) :=
  (p.turns ts).map fun turn => (turn.1.recordOf turn.2, turn.2)

/-- Records of two lists of tasks, the second after all of the first. -/
theorem records_append (p : Project) (ts us : List FusionTask) :
    p.records (ts ++ us) = p.records ts ++ (ts.foldl perform p).records us := by
  rw [records, turns_append, List.map_append]
  rfl

/-- What is found depends only on the index and the records. -/
theorem findings_eq (p : Project) (ts : List FusionTask) :
    p.findings ts = (p.records ts).map p.index.finding := by
  rw [findings, records, List.map_map]
  refine List.map_congr_left fun turn hturn => ?_
  rw [found_eq, index_of_mem_turns hturn]
  rfl

/-- The record of a task is looked up on the shelf of its scope. -/
theorem Shelved.recordOf {p : Project} {F : Nat → Shelf} (h : p.Shelved F) {t : FusionTask}
    (ht : t.scope < p.index.size) : p.recordOf t = (F t.scope).lookup t.base :=
  h.lookup ht t.base

/-- A task changes the shelf of its scope, and no other one. -/
theorem Shelved.perform {p : Project} {F : Nat → Shelf} (h : p.Shelved F) {t : FusionTask}
    (ht : t.scope < p.index.size) :
    (p.perform t).Shelved (setShelf F t.scope (p.index.spliceShelf (F t.scope) t)) := by
  rw [Project.perform, baseMembers_eq, SymbolIndex.spliceShelf, found_eq, h.recordOf ht]
  cases p.index.baseAt t ((F t.scope).lookup t.base) with
  | none =>
      simp only [setShelf_eq_self]
      exact h.of_bare rfl rfl
  | some b => exact h.settle ht _ _

/-- Tasks of one scope change the shelf of that scope, and see nothing
but that shelf. -/
theorem Shelved.performAll {p : Project} {F : Nat → Shelf} (h : p.Shelved F) {scope : Nat}
    (hscope : scope < p.index.size) {ts : List FusionTask} (hts : ∀ t ∈ ts, t.scope = scope) :
    (ts.foldl Project.perform p).Shelved (setShelf F scope (p.index.splicedShelf (F scope) ts))
      ∧ p.records ts = p.index.shelfRecords (F scope) ts := by
  induction ts generalizing p F with
  | nil =>
      refine ⟨?_, rfl⟩
      rw [SymbolIndex.splicedShelf, List.foldl_nil, List.foldl_nil, setShelf_eq_self]
      exact h
  | cons t ts ih =>
      have ht := hts t (.head _)
      subst ht
      -- After the first task the same holds again, of the shelf that the task leaves.
      have hstep := h.perform hscope
      obtain ⟨hrest, hrecords⟩ := ih hstep (by rw [index_perform]; exact hscope)
        fun t' ht' => hts t' (.tail _ ht')
      rw [setShelf_setShelf, setShelf_self, index_perform] at hrest
      rw [setShelf_self, index_perform] at hrecords
      refine ⟨hrest, ?_⟩
      rw [records, turns, List.map_cons, SymbolIndex.shelfRecords, h.recordOf hscope, ← records,
        hrecords]

/-- Fusion of several scopes treats each shelf by itself. The tasks of
one scope neither see nor touch the shelf of another, so the order of
the scopes does not matter for what is found. -/
theorem Shelved.fuse {p : Project} {F : Nat → Shelf} (h : p.Shelved F)
    (tasks : Nat → List FusionTask) (htasks : ∀ id, ∀ t ∈ tasks id, t.scope = id) (ids : List Nat)
    (hids : ∀ id ∈ ids, id < p.index.size) (hnodup : ids.Nodup) :
    ((ids.flatMap tasks).foldl Project.perform p).Shelved
        (fun id => if id ∈ ids then p.index.splicedShelf (F id) (tasks id) else F id)
      ∧ p.records (ids.flatMap tasks)
        = ids.flatMap fun id => p.index.shelfRecords (F id) (tasks id) := by
  induction ids generalizing p F with
  | nil => exact ⟨h, rfl⟩
  | cons scope ids ih =>
      rw [List.nodup_cons] at hnodup
      obtain ⟨hhead, hrecords⟩ := h.performAll (hids scope (.head _)) (htasks scope)
      have hindex := p.index_performAll (tasks scope)
      obtain ⟨htail, hrest⟩ := ih hhead
        (fun id hid => by rw [hindex]; exact hids id (.tail _ hid)) hnodup.2
      rw [hindex] at htail hrest
      -- The other scopes come after this one, but find their shelves untouched.
      have hne : ∀ id ∈ ids, id ≠ scope := by
        rintro id hid rfl
        exact hnodup.1 hid
      refine ⟨?_, ?_⟩
      · rw [List.flatMap_cons, List.foldl_append]
        have hF : (fun id => if id ∈ scope :: ids then p.index.splicedShelf (F id) (tasks id)
              else F id)
            = fun id => if id ∈ ids then
                p.index.splicedShelf
                  (setShelf F scope (p.index.splicedShelf (F scope) (tasks scope)) id) (tasks id)
              else setShelf F scope (p.index.splicedShelf (F scope) (tasks scope)) id := by
          funext id
          by_cases hid : id ∈ ids
          · rw [if_pos hid, if_pos (.tail _ hid), setShelf_of_ne F (hne id hid)]
          · rw [if_neg hid, setShelf]
            by_cases heq : id = scope
            · rw [if_pos heq, heq, if_pos (.head _)]
            · rw [if_neg heq, if_neg (by simp [heq, hid])]
        rw [hF]
        exact htail
      · rw [List.flatMap_cons, List.flatMap_cons, records_append, hrecords, hrest]
        congr 1
        rw [List.flatMap_def, List.flatMap_def]
        congr 1
        refine List.map_congr_left fun id hid => ?_
        rw [setShelf_of_ne F (hne id hid)]

/-- The shelves after the fusion of a whole project, and the records it
meets. A number that is no scope has no tasks. -/
theorem Shelved.fuseAll {p : Project} {F : Nat → Shelf} (h : p.Shelved F) :
    (p.fusionTasks.foldl Project.perform p).Shelved
        (fun id => p.index.splicedShelf (F id) (tasksFor id (p.fusedInterfaces id)))
      ∧ p.records p.fusionTasks
        = p.index.ids.flatMap fun id =>
            p.index.shelfRecords (F id) (tasksFor id (p.fusedInterfaces id)) := by
  obtain ⟨hshelved, hrecords⟩ := h.fuse
    (fun id => tasksFor id (p.fusedInterfaces id)) (fun id t => scope_of_mem_tasksFor)
    p.index.ids (fun id hid => List.mem_range.mp hid) p.index.nodup_ids
  refine ⟨?_, hrecords⟩
  -- Outside the index no interface is fused, so the shelves there are left as they were.
  have hF : (fun id => p.index.splicedShelf (F id) (tasksFor id (p.fusedInterfaces id)))
      = fun id => if id ∈ p.index.ids then
          p.index.splicedShelf (F id) (tasksFor id (p.fusedInterfaces id))
        else F id := by
    funext id
    split
    · rfl
    · rename_i hid
      rw [SymbolIndex.ids, List.mem_range, Nat.not_lt] at hid
      rw [fusedInterfaces_of_size_le hid]
      rfl
  rw [hF]
  exact hshelved

/-- The tasks of one scope with their records. -/
theorem Shelved.filter_records {p : Project} {F : Nat → Shelf} (h : p.Shelved F) (id : Nat) :
    (p.records p.fusionTasks).filter (fun r => r.2.scope = id)
      = p.index.shelfRecords (F id) (tasksFor id (p.fusedInterfaces id)) := by
  rw [h.fuseAll.2]
  refine p.index.filter_ids_flatMap (fun r : Option ImportLine × FusionTask => r.2.scope)
    (fun i r hr => ?_) (fun i hi => ?_) id
  · exact scope_of_mem_tasksFor (SymbolIndex.task_of_mem_shelfRecords hr)
  · rw [fusedInterfaces_of_size_le hi]
    rfl

/-- The findings of one scope. -/
theorem Shelved.filter_findings {p : Project} {F : Nat → Shelf} (h : p.Shelved F) (id : Nat) :
    (p.findings p.fusionTasks).filter (fun f => f.1.scope = id)
      = (p.index.shelfRecords (F id) (tasksFor id (p.fusedInterfaces id))).map
          p.index.finding := by
  rw [findings_eq, List.filter_map, ← h.filter_records id]
  rfl

/-- The findings of all scopes, one after the other. They come in this
order as the scopes are gone through one by one. -/
theorem Shelved.findings_eq_flatMap {p : Project} {F : Nat → Shelf} (h : p.Shelved F) :
    p.findings p.fusionTasks
      = p.index.ids.flatMap fun id =>
          (p.findings p.fusionTasks).filter fun f => f.1.scope = id := by
  simp only [h.filter_findings]
  rw [findings_eq, h.fuseAll.2, List.map_flatMap]

end Project

end Externals
