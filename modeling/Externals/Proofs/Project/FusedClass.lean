import Externals.Proofs.Project.FreshRun

/-!
# `Externals.Proofs.Project.FusedClass`: what a class receives

A scope that declares a class and an interface under one name renders
the interface in the class. This module puts the pieces of fusion
together for one such class: the artifacts that emission kept for both,
the turns of the class (`Project.classTurns`), one for each entry of the
extends clause, and the members the class has in the end.

* `Drafted.classTurns_task`: the turns of a class are the entries of the
  interface's extends clause, in order.
* `Drafted.fused_class`: the class lists its own members, then those of
  its interface, then what each turn adds.
* `Drafted.instanceMembers_fused`: what that list is, each member once.
-/

set_option autoImplicit false

namespace Externals

namespace Draft

variable {α β : Type}

/-- What is drafted for each of several things, in order. -/
theorem value_each (f : α → Draft β) (as : List α) :
    (each f as).value = as.map fun a => (f a).value := by
  induction as with
  | nil => rfl
  | cons a as ih =>
      rw [List.map_cons, ← ih]
      rfl

/-- The imports that are asked for on the way, in the same order. -/
theorem imports_each (f : α → Draft β) (as : List α) :
    (each f as).imports = as.flatMap fun a => (f a).imports := by
  induction as with
  | nil => rfl
  | cons a as ih =>
      rw [List.flatMap_cons, ← ih, ← List.append_nil (each f as).imports]
      rfl

end Draft

namespace ClassArtifact

/-- Members are appended as they come, and those that are there already
are left out. Members are compared by their text. -/
theorem addMissing_eq (members extras : List String) :
    addMissing members extras = appendNew members extras :=
  eq_appendNew (fun _ => rfl) (fun _ _ _ => rfl) members extras

/-- A fused class lists its own members, then what is new. -/
theorem instanceMembers_fuse (a : ClassArtifact) (extras : List String) :
    (a.fuse extras).instanceMembers = appendNew a.members extras :=
  addMissing_eq a.members extras

end ClassArtifact

/-- The tasks of one class: one for each base of its interface, in
order. The class has one interface only, so no other pair adds to them. -/
theorem filter_tasksFor {scope : Nat} {pairs : List (String × List String)}
    (hnames : (pairs.map Prod.fst).Nodup) {name : String} {bases : List String}
    (h : (name, bases) ∈ pairs) :
    (tasksFor scope pairs).filter (fun t => t.name = name)
      = bases.map fun base => ⟨scope, name, base⟩ := by
  induction pairs with
  | nil => cases h
  | cons pair pairs ih =>
      rw [List.map_cons, List.nodup_cons] at hnames
      rw [tasksFor, List.flatMap_cons, List.filter_append, ← tasksFor]
      rcases List.mem_cons.mp h with rfl | hmem
      -- The class is at the head, and no later pair has its name.
      · have hrest : (tasksFor scope pairs).filter (fun t => t.name = name) = [] := by
          rw [List.filter_eq_nil_iff]
          intro t ht hname
          exact hnames.1 (of_decide_eq_true hname ▸ name_of_mem_tasksFor ht)
        rw [hrest, List.append_nil, List.filter_eq_self.mpr]
        intro t ht
        obtain ⟨base, -, rfl⟩ := List.mem_map.mp ht
        exact decide_eq_true rfl
      -- The class comes later, so the head has another name.
      · have hhead : (pair.2.map fun base => FusionTask.mk scope pair.1 base).filter
            (fun t => t.name = name) = [] := by
          rw [List.filter_eq_nil_iff]
          intro t ht hname
          obtain ⟨base, -, rfl⟩ := List.mem_map.mp ht
          have hsame : pair.1 = name := of_decide_eq_true hname
          rw [hsame] at hnames
          exact hnames.1 (List.mem_map_of_mem (f := Prod.fst) hmem)
        rw [hhead, List.nil_append, ih hnames.2 hmem]

namespace Project

/-- The turns of one class, in order. A turn is a task together with the
project as it is when the task is performed. -/
def classTurns (p : Project) (scope : Nat) (name : String) : List (Project × FusionTask) :=
  (p.turns p.fusionTasks).filter fun turn => turn.2.scope = scope ∧ turn.2.name = name

/-- The members that the turns of a class add, one turn after the
other. -/
theorem additions_findings (p : Project) (scope : Nat) (name : String) :
    p.index.additions (p.findings p.fusionTasks) scope name
      = (p.classTurns scope name).flatMap fun turn =>
          p.index.splicedMembers turn.2 (turn.1.found turn.2) := by
  rw [SymbolIndex.additions, findings, List.filter_map, List.flatMap_map]
  rfl

namespace Drafted

variable {p : Project} (h : p.Drafted)

include h

/-- The artifact of a declaration is that of its draft. -/
theorem get?_artifactsOf {id : Nat} {key : DeclKey} {decl : Declaration}
    (hdecl : (p.index.declarationsOf id).get? key = some decl) :
    (p.index.artifactsOf id).get? key = (p.index.draftOf id (key, decl)).value := by
  rw [h.artifacts, hdecl]
  rfl

/-- The turns of a class that is fused, from the bases of its interface.
Those of other scopes are left out first, and then those of other
classes. -/
theorem map_snd_classTurns {id : Nat} {name : String} {bases : List String}
    (hpair : (name, bases) ∈ p.fusedInterfaces id) :
    (p.classTurns id name).map Prod.snd = bases.map fun base => ⟨id, name, base⟩ := by
  -- The tasks of the whole project are filtered twice: by the scope, then by the class.
  have hscope : p.fusionTasks.filter (fun t => t.scope = id)
      = tasksFor id (p.fusedInterfaces id) := by
    refine p.index.filter_ids_flatMap FusionTask.scope (fun i t => scope_of_mem_tasksFor)
      (fun i hi => ?_) id
    rw [fusedInterfaces_of_size_le hi]
    rfl
  have hsplit : p.fusionTasks.filter (fun t => t.scope = id ∧ t.name = name)
      = (p.fusionTasks.filter fun t => t.scope = id).filter fun t => t.name = name := by
    rw [List.filter_filter]
    refine List.filter_congr fun t _ => ?_
    by_cases hid : t.scope = id <;> simp [hid]
  calc (p.classTurns id name).map Prod.snd
      = ((p.turns p.fusionTasks).map Prod.snd).filter
          (fun t => t.scope = id ∧ t.name = name) := by rw [List.filter_map]; rfl
    _ = p.fusionTasks.filter (fun t => t.scope = id ∧ t.name = name) := by rw [map_snd_turns]
    _ = bases.map fun base => ⟨id, name, base⟩ := by
        rw [hsplit, hscope, filter_tasksFor (h.nodup_names id) hpair]

section

variable {id : Nat} {name : String} {classDecl : ClassDecl} {decl : InterfaceDecl}
  (hclass : (p.index.scopes[id]?.bind fun s => s.class? name) = some classDecl)
  (hinterface : (p.index.scopes[id]?.bind fun s => s.interface? name) = some decl)

include hclass in
/-- The declaration of a class is filed under its name, and has this
name. -/
theorem get?_class :
    (p.index.declarationsOf id).get? ⟨.classType, name⟩ = some (.classType classDecl)
      ∧ classDecl.name = some name := by
  rw [SymbolIndex.class?_eq, SymbolIndex.classIn] at hclass
  split at hclass
  · rename_i found hget
    cases hclass
    exact ⟨hget, (h.wellKeyed id _ _ hget).2⟩
  · cases hclass

include hinterface in
/-- The declaration of an interface is filed under its name, and has
this name. -/
theorem get?_interface :
    (p.index.declarationsOf id).get? ⟨.interfaceType, name⟩ = some (.interfaceType decl)
      ∧ decl.name = some name := by
  rw [SymbolIndex.interface?_eq, SymbolIndex.interfaceIn] at hinterface
  split at hinterface
  · rename_i found hget
    cases hinterface
    exact ⟨hget, (h.wellKeyed id _ _ hget).2⟩
  · cases hinterface

include hclass in
/-- The artifact of a class has the members of its draft, without the
static ones. -/
theorem class_artifact :
    ∃ a, (p.index.artifactsOf id).get? ⟨.classType, name⟩ = some (.classType a)
      ∧ a.members = ((Viewpoint.within p.index id).draftMembers name
          (classDecl.members.filter fun m => !m.isStatic)).value := by
  obtain ⟨hget, hname⟩ := h.get?_class hclass
  obtain ⟨a, ha, -, hmembers, -⟩ := (Viewpoint.within p.index id).draftClass_value hname
  refine ⟨a, ?_, hmembers⟩
  rw [h.get?_artifactsOf hget]
  exact congrArg (Option.map Artifact.classType) ha

include hinterface in
/-- The artifact of an interface has the bases and members of its draft,
and is fused if the scope has a class of its name. -/
theorem interface_artifact :
    ∃ a, (p.index.artifactsOf id).get? ⟨.interfaceType, name⟩ = some (.interfaceType a)
      ∧ a.name = name
      ∧ a.bases = decl.bases.map (fun type =>
          ((Viewpoint.within p.index id).map { self := some name } type).value)
      ∧ a.members = ((Viewpoint.within p.index id).draftMembers name decl.members).value
      ∧ a.fusedIntoClass = (p.index.scopes[id]?.bind fun s => s.class? name).isSome := by
  obtain ⟨hget, hname⟩ := h.get?_interface hinterface
  obtain ⟨a, ha, haname, hbases, hmembers, hfused⟩ :=
    (Viewpoint.within p.index id).draftInterface_value hname
      (p.index.scopes[id]?.bind fun s => s.class? name).isSome
  refine ⟨a, ?_, haname, hbases.trans (Draft.value_each _ _), hmembers, hfused⟩
  rw [h.get?_artifactsOf hget]
  exact congrArg (Option.map Artifact.interfaceType) ha

include hclass hinterface

/-- The interface of a class is fused, with one base for each entry of
its extends clause. -/
theorem mem_fusedInterfaces :
    (name, decl.bases.map fun type =>
        ((Viewpoint.within p.index id).map { self := some name } type).value.base)
      ∈ p.fusedInterfaces id := by
  obtain ⟨a, ha, hname, hbases, -, hfused⟩ := h.interface_artifact hinterface
  rw [hclass, Option.isSome_some] at hfused
  rw [fusedInterfaces_eq, List.mem_filterMap]
  refine ⟨.interfaceType a, Table.mem_values_iff.mpr ⟨_, ha⟩, ?_⟩
  dsimp only
  rw [if_pos hfused, hbases, hname, List.map_map]
  rfl

/-- The turns of a class, entry by entry: the `i`-th looks for what the
`i`-th type of the extends clause is mapped to. -/
theorem classTurns_task {i : Nat} {type : TypeRef} (htype : decl.bases[i]? = some type) :
    ∃ q, (p.classTurns id name)[i]? = some (q, ⟨id, name,
      ((Viewpoint.within p.index id).map { self := some name } type).value.base⟩) := by
  have htasks := congrArg (·[i]?) (h.map_snd_classTurns (h.mem_fusedInterfaces hclass hinterface))
  rw [List.map_map, List.getElem?_map, List.getElem?_map, htype, Option.map_some] at htasks
  obtain ⟨turn, hturn, htask⟩ := Option.map_eq_some_iff.mp htasks
  exact ⟨turn.1, hturn.trans (congrArg (fun t => some (turn.1, t)) htask)⟩

/-- The members of a fused class: those that were emitted for it,
followed by those of its interface and what its turns add. -/
theorem fused_class :
    ∃ a b, (p.index.artifactsOf id).get? ⟨.classType, name⟩ = some (.classType a)
      ∧ (p.index.artifactsOf id).get? ⟨.interfaceType, name⟩ = some (.interfaceType b)
      ∧ (p.resolveFusions.index.artifactsOf id).get? ⟨.classType, name⟩
          = some (.classType (a.fuse (b.members
              ++ (p.classTurns id name).flatMap fun turn =>
                  p.index.splicedMembers turn.2 (turn.1.found turn.2)))) := by
  obtain ⟨a, ha, -⟩ := h.class_artifact hclass
  obtain ⟨b, hb, -⟩ := h.interface_artifact hinterface
  refine ⟨a, b, ha, hb, ?_⟩
  have hmembers : p.interfaceMembers id name = b.members := by
    have hget : (p.index.scopes[id]?.bind fun s => s.artifacts.get? ⟨.interfaceType, name⟩)
        = some (.interfaceType b) := by
      rw [← hb, SymbolIndex.artifactsOf]
      cases p.index.scopes[id]? <;> rfl
    rw [interfaceMembers, hget]
  have hsplice : (name, b.members ++ (p.classTurns id name).flatMap fun turn =>
      p.index.splicedMembers turn.2 (turn.1.found turn.2)) ∈ p.splicesOf id := by
    rw [splicesOf, List.mem_map]
    exact ⟨_, h.mem_fusedInterfaces hclass hinterface, by rw [hmembers, additions_findings]⟩
  -- Among all splices of the scope this is the only one for the class.
  rw [h.resolved.2]
  refine get?_foldl_fuseTable ?_ hsplice ha
  rw [map_fst_splicesOf]
  exact h.nodup_names id

/-- The members of a fused class: its own, those of its interface, and
what its turns add, each of them once. -/
theorem instanceMembers_fused :
    ∃ a, (p.resolveFusions.index.artifactsOf id).get? ⟨.classType, name⟩ = some (.classType a)
      ∧ a.instanceMembers
        = appendNew ((Viewpoint.within p.index id).draftMembers name
              (classDecl.members.filter fun m => !m.isStatic)).value
            (((Viewpoint.within p.index id).draftMembers name decl.members).value
              ++ (p.classTurns id name).flatMap fun turn =>
                  p.index.splicedMembers turn.2 (turn.1.found turn.2)) := by
  obtain ⟨a, b, ha, hb, hfused⟩ := h.fused_class hclass hinterface
  obtain ⟨a', ha', hown⟩ := h.class_artifact hclass
  obtain ⟨b', hb', -, -, hmembers, -⟩ := h.interface_artifact hinterface
  rw [ha] at ha'
  rw [hb] at hb'
  cases ha'
  cases hb'
  exact ⟨_, hfused, by rw [ClassArtifact.instanceMembers_fuse, hown, hmembers]⟩

end

end Drafted

end Project

end Externals
