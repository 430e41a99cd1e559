import Externals.Proofs.Emit.Layout
import Externals.Proofs.Project.FusedClass
import Externals.Proofs.Project.Phases

/-!
# `Externals.Proofs.Project.Placement`: where members are rendered

The members of an interface are rendered in one place. Without a class
of its name the interface renders them itself. With one it renders to
nothing, and the class lists them after its own. Which of the two it is
was decided when the interface was emitted; the members are collected
later, from artifacts found by name, and stored in the class at the end.

Fusion stores nothing else. It keeps all artifacts under their keys, and
changes in a class only the list of fused members.

* `Drafted.key_of_changed`: the artifacts that fusion changes.
* `placement`: all this after any run of any project.
-/

set_option autoImplicit false

namespace Externals

/-- What is filed under the key of an interface is one. -/
theorem Declaration.FitsKey.eq_interface {name : String} {found : Declaration}
    (h : found.FitsKey ⟨.interfaceType, name⟩) : ∃ decl, found = .interfaceType decl := by
  cases found with
  | functions overloads => cases h
  | classType decl => cases h.1
  | interfaceType decl => exact ⟨decl, rfl⟩

namespace Project.Drafted

variable {p : Project} (h : p.Drafted) {id : Nat} {name : String}

include h

/-- A scope has the classes whose keys it declares. Fusion asks for the
class, and a statement about declarations for the key. -/
theorem isSome_class_iff :
    (p.index.scopes[id]?.bind fun s => s.class? name).isSome
      ↔ ⟨.classType, name⟩ ∈ (p.index.declarationsOf id).keys :=
  h.wellKeyed.keyedByKind.hasClass_iff id name

/-- And the interfaces. A declaration under such a key is of this kind,
because keys fit. -/
theorem exists_interface
    (hkey : ⟨.interfaceType, name⟩ ∈ (p.index.declarationsOf id).keys) :
    ∃ decl, (p.index.scopes[id]?.bind fun s => s.interface? name) = some decl := by
  obtain ⟨found, hget⟩ := Table.exists_of_mem_keys hkey
  obtain ⟨decl, rfl⟩ := (h.wellKeyed id _ _ hget).eq_interface
  exact ⟨decl, by rw [SymbolIndex.interface?_eq, SymbolIndex.interfaceIn, hget]⟩

/-- An interface that is fused is declared. It is read off from the
artifacts, which are those of declarations. -/
theorem interface_declared
    (hname : name ∈ (p.fusedInterfaces id).map Prod.fst) :
    ⟨.interfaceType, name⟩ ∈ (p.index.declarationsOf id).keys := by
  obtain ⟨pair, hpair, rfl⟩ := List.mem_map.mp hname
  rw [fusedInterfaces_eq, List.mem_filterMap] at hpair
  -- A fused interface comes from a stored artifact, and an artifact is stored under a
  -- declared key.
  obtain ⟨artifact, hartifact, heq⟩ := hpair
  obtain ⟨key, hget⟩ := Table.mem_values_iff.mp hartifact
  have hfits := h.fits hget
  split at heq
  · rename_i a
    split at heq
    · cases heq
      obtain ⟨kind, name⟩ := key
      obtain ⟨rfl, rfl⟩ := hfits
      exact h.mem_keys_declarationsOf (Table.mem_keys_of_get? hget)
    · cases heq
  · cases heq

/-- Fusion changes artifacts of classes that have an interface of their
name, and no other. The interface is the one whose members are spliced
in. -/
theorem key_of_changed {key : DeclKey}
    (hchanged : (p.resolveFusions.index.artifactsOf id).get? key
      ≠ (p.index.artifactsOf id).get? key) :
    ∃ name, key = ⟨.classType, name⟩ ∧ ⟨.classType, name⟩ ∈ (p.index.declarationsOf id).keys
      ∧ ⟨.interfaceType, name⟩ ∈ (p.index.declarationsOf id).keys := by
  rw [h.resolved.2] at hchanged
  have hspliced : ∃ f ∈ p.splicesOf id, key = ⟨.classType, f.1⟩ := by
    refine Classical.byContradiction fun hnone => hchanged ?_
    exact get?_foldl_fuseTable_of_ne _ _ fun f hf heq => hnone ⟨f, hf, heq⟩
  obtain ⟨f, hf, rfl⟩ := hspliced
  refine ⟨f.1, rfl, h.mem_keys_declarationsOf ?_, h.interface_declared ?_⟩
  · -- A key without an artifact has none afterwards.
    refine Classical.byContradiction fun hnone => hchanged ?_
    rw [Table.get?_eq_none_iff.mpr hnone, Table.get?_eq_none_iff, keys_foldl_fuseTable]
    exact hnone
  · rw [← map_fst_splicesOf]
    exact List.mem_map_of_mem hf

/-- Interfaces keep their artifacts, since only classes are changed. -/
theorem get?_interface_resolveFusions :
    (p.resolveFusions.index.artifactsOf id).get? ⟨.interfaceType, name⟩
      = (p.index.artifactsOf id).get? ⟨.interfaceType, name⟩ := by
  refine Classical.byContradiction fun hchanged => ?_
  obtain ⟨name', hkey, -⟩ := h.key_of_changed hchanged
  cases hkey

end Project.Drafted

namespace Project

/-- Fusion loses and duplicates no member, whatever a project went
through before the run. An interface that is declared has an artifact
of its name, with the bases and members of its draft. If its scope
declares no class of its name, it renders its heading and below it all
members, line by line. Otherwise it renders to nothing, and the class
lists its own members, followed by those members of the interface, and
of what the entries of its extends clause stand for, that are new.
Fusion keeps the keys of artifacts, changes only classes that have an
interface of their name, and of those only what is fused. -/
theorem placement {c : Conventions} {p : Project} (h : Reached c p) (files : List SourceFile) :
    let emitted := (p.collect files).emitAll
    let q := (p.transform files).1
    (∀ id name, ⟨.interfaceType, name⟩ ∈ (q.index.declarationsOf id).keys →
      ∃ decl b,
        (q.index.declarationsOf id).get? ⟨.interfaceType, name⟩ = some (.interfaceType decl)
        ∧ (q.index.artifactsOf id).get? ⟨.interfaceType, name⟩ = some (.interfaceType b)
        ∧ b.name = name
        ∧ b.bases = decl.bases.map (fun type =>
            ((Viewpoint.within emitted.index id).map { self := some name } type).value)
        ∧ b.members = ((Viewpoint.within emitted.index id).draftMembers name decl.members).value
        ∧ (⟨.classType, name⟩ ∉ (q.index.declarationsOf id).keys →
            b.render? = some ("\n".intercalate (declarationLines b.heading b.members)))
        ∧ (⟨.classType, name⟩ ∈ (q.index.declarationsOf id).keys →
            b.render? = none
            ∧ (emitted.classTurns id name).map Prod.snd
                = decl.bases.map (fun type =>
                    ⟨id, name, ((Viewpoint.within emitted.index id).map
                      { self := some name } type).value.base⟩)
            ∧ ∃ classDecl a,
                (q.index.declarationsOf id).get? ⟨.classType, name⟩ = some (.classType classDecl)
                ∧ (q.index.artifactsOf id).get? ⟨.classType, name⟩ = some (.classType a)
                ∧ a.instanceMembers
                  = appendNew ((Viewpoint.within emitted.index id).draftMembers name
                        (classDecl.members.filter fun m => !m.isStatic)).value
                      (b.members ++ (emitted.classTurns id name).flatMap fun turn =>
                        emitted.index.splicedMembers turn.2 (turn.1.found turn.2))))
      ∧ ∀ id, (q.index.artifactsOf id).keys = (emitted.index.artifactsOf id).keys
        ∧ (∀ key, ((q.index.artifactsOf id).get? key).map Artifact.unfused
            = ((emitted.index.artifactsOf id).get? key).map Artifact.unfused)
        ∧ ∀ key, (q.index.artifactsOf id).get? key ≠ (emitted.index.artifactsOf id).get? key →
            ∃ name, key = ⟨.classType, name⟩
              ∧ ⟨.classType, name⟩ ∈ (q.index.declarationsOf id).keys
              ∧ ⟨.interfaceType, name⟩ ∈ (q.index.declarationsOf id).keys := by
  have hdrafted := (h.standing.collect files).drafted
  simp only [transform_fst]
  generalize (p.collect files).emitAll = emitted at hdrafted ⊢
  obtain ⟨hsource, hartifacts⟩ := hdrafted.resolved
  simp only [hsource.declarations]
  refine ⟨fun id name hkey => ?_, fun id => ⟨?_, fun key => ?_, fun key => hdrafted.key_of_changed⟩⟩
  · obtain ⟨decl, hinterface⟩ := hdrafted.exists_interface hkey
    obtain ⟨b, hb, hname, hbases, hmembers, hpaired⟩ := hdrafted.interface_artifact hinterface
    -- Whether the interface was fused is decided by the class of its name at the emission.
    have hfused :
        b.fusedIntoClass ↔ ⟨.classType, name⟩ ∈ (emitted.index.declarationsOf id).keys := by
      rw [hpaired]
      exact hdrafted.isSome_class_iff
    refine ⟨decl, b, (hdrafted.get?_interface hinterface).1, ?_, hname, hbases, hmembers,
      fun hno => ?_, fun hboth => ?_⟩
    · rw [hdrafted.get?_interface_resolveFusions]
      exact hb
    · rw [InterfaceArtifact.render?_eq_lines, if_neg (mt hfused.mp hno)]
    · obtain ⟨classDecl, hclass⟩ :=
        Option.isSome_iff_exists.mp (hdrafted.isSome_class_iff.mpr hboth)
      obtain ⟨a, ha, hinstance⟩ := hdrafted.instanceMembers_fused hclass hinterface
      refine ⟨?_, ?_, classDecl, a, (hdrafted.get?_class hclass).1, ha, ?_⟩
      · rw [InterfaceArtifact.render?_eq_lines, if_pos (hfused.mpr hboth)]
      · rw [hdrafted.map_snd_classTurns (hdrafted.mem_fusedInterfaces hclass hinterface),
          List.map_map]
        rfl
      · rw [hinstance, hmembers]
  · rw [hartifacts, keys_foldl_fuseTable]
  · rw [hartifacts, unfused_get?_foldl_fuseTable]

/-- A member that returns nothing. -/
def voidMethod (name : String) : Member := plainMethod name (.resolved (.plain "void" .void))

/-- The interface `C` of a module, with a base that shares a member. -/
def interfaceFirst : List SourceFile :=
  [⟨"i.d.ts",
    [⟨"m", .ambient,
      [.interfaceDecl ⟨some "B", [], [voidMethod "own", voidMethod "more"]⟩,
       .interfaceDecl ⟨some "C", [plainReference "B"], [voidMethod "own"]⟩]⟩]⟩]

/-- A class `C` for the module. -/
def classLater : List SourceFile :=
  [⟨"c.d.ts", [⟨"m", .ambient, [.classDecl ⟨some "C", none, [], [voidMethod "mine"]⟩]⟩]⟩]

/-- The interface was rendered in the first run. In the second the class
has its members, and those of the base that are new. The base has no
class and is rendered itself. -/
theorem placement_classLater :
    let p := ((Project.initial {}).transform interfaceFirst).1
    let q := (p.transform classLater).1
    Reached {} p
      ∧ (∃ a b, (q.index.artifactsOf 1).get? ⟨.classType, "C"⟩ = some (.classType a)
        ∧ (q.index.artifactsOf 1).get? ⟨.interfaceType, "C"⟩ = some (.interfaceType b)
        ∧ a.instanceMembers = ["fun mine(): Unit", "fun own(): Unit", "fun more(): Unit"]
        ∧ b.render? = none)
      ∧ ∃ b, (q.index.artifactsOf 1).get? ⟨.interfaceType, "B"⟩ = some (.interfaceType b)
        ∧ b.render? = some
          "external interface B \x7b\n  fun own(): Unit\n\n  fun more(): Unit\n\x7d" := by
  intro p q
  have hp : Reached {} p := Reached.initial.transform interfaceFirst
  refine ⟨hp, ?_, ?_⟩
  · obtain ⟨decl, b, hdecl, hb, -, -, hmembers, -, hfused⟩ :=
      (placement hp classLater).1 1 "C" (by decide +kernel)
    obtain ⟨hnone, -, classDecl, a, hclass, ha, hinstance⟩ := hfused (by decide +kernel)
    -- What is declared determines both lists of members.
    have hgetInterface : (q.index.declarationsOf 1).get? ⟨.interfaceType, "C"⟩
        = some (.interfaceType ⟨some "C", [plainReference "B"], [voidMethod "own"]⟩) := by
      decide +kernel
    have hgetClass : (q.index.declarationsOf 1).get? ⟨.classType, "C"⟩
        = some (.classType ⟨some "C", none, [], [voidMethod "mine"]⟩) := by decide +kernel
    cases hdecl.symm.trans hgetInterface
    cases hclass.symm.trans hgetClass
    refine ⟨a, b, ha, hb, ?_, hnone⟩
    rw [hinstance, hmembers]
    decide +kernel
  · obtain ⟨decl, b, hdecl, hb, hname, hbases, hmembers, hlone, -⟩ :=
      (placement hp classLater).1 1 "B" (by decide +kernel)
    have hget : (q.index.declarationsOf 1).get? ⟨.interfaceType, "B"⟩
        = some (.interfaceType ⟨some "B", [], [voidMethod "own", voidMethod "more"]⟩) := by
      decide +kernel
    cases hdecl.symm.trans hget
    have htext := hlone (by decide +kernel)
    rw [InterfaceArtifact.heading, hname, hbases, hmembers] at htext
    refine ⟨b, hb, htext.trans ?_⟩
    decide +kernel

end Project

end Externals
