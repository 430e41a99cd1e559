import Externals.Project.Emission

/-!
# `Externals.Project.Fusion`: interfaces spliced into classes

A class and an interface of one name in one scope describe one thing.
The class receives the members of the interface, and the members of
each interface that one extends, one level deep. The extended
interface is found through the import its name was mapped to, or on
the chain of the scope; its members are drafted again for the class,
looking names up from where they were declared.
-/

set_option autoImplicit false

namespace Externals

namespace Project

/-- The interface a base stands for, with the scope that declares it.
When the base was imported, only the package of the import counts. -/
def findBase (p : Project) (scope : Nat) (name base : String) : Option (Nat × InterfaceDecl) :=
  match p.headers.lookup (p.headerOf scope) base with
  | some line =>
      (p.index.scopesIn line.package).findSome? fun owner =>
        (p.index.scopes[owner]?.bind fun s => s.interface? line.name).map (owner, ·)
  | none =>
      match p.index.declaringScope scope base with
      | some owner =>
          if owner == scope && base == name then none
          else (p.index.scopes[owner]?.bind fun s => s.interface? base).map (owner, ·)
      | none => none

/-- The members a base adds to the class `name` of a scope. -/
def baseMembers (p : Project) (scope : Nat) (name base : String) : Project × List String :=
  match p.findBase scope name base with
  | none => (p.report [.baseNotFound name base], [])
  | some (owner, decl) =>
      p.settle scope ("fuse:" ++ name)
        ((Viewpoint.mk p.index scope owner).draftMembers name decl.members)

/-- The members all bases add, in order. -/
def basesMembers (p : Project) (scope : Nat) (name : String) :
    List String → Project × List String
  | [] => (p, [])
  | base :: bases =>
      let (p, members) := p.baseMembers scope name base
      let (p, more) := p.basesMembers scope name bases
      (p, members ++ more)

/-- The interfaces of a scope that render in a class: their names and
the bases they were mapped to. -/
def fusedInterfaces (p : Project) (scope : Nat) : List (String × List String) :=
  ((p.index.scopes[scope]?.map fun s => s.artifacts.values).getD []).filterMap fun
    | .interfaceType a =>
        if a.fusedIntoClass then some (a.name, a.bases.map KotlinType.base) else none
    | _ => none

/-- The members emitted for the interface of a name. -/
def interfaceMembers (p : Project) (scope : Nat) (name : String) : List String :=
  match p.index.scopes[scope]?.bind fun s => s.artifacts.get? ⟨.interfaceType, name⟩ with
  | some (.interfaceType a) => a.members
  | _ => []

/-- The members to splice into the classes of a scope, by class name. -/
def fusionsOf (p : Project) (scope : Nat) :
    List (String × List String) → Project × List (String × List String)
  | [] => (p, [])
  | (name, bases) :: pairs =>
      let own := p.interfaceMembers scope name
      let (p, more) := p.basesMembers scope name bases
      let (p, rest) := p.fusionsOf scope pairs
      (p, (name, own ++ more) :: rest)

/-- The members to splice into the classes of the given scopes. -/
def fusions (p : Project) : List Nat → Project × List (Nat × String × List String)
  | [] => (p, [])
  | scope :: scopes =>
      let (p, here) := p.fusionsOf scope (p.fusedInterfaces scope)
      let (p, rest) := p.fusions scopes
      (p, here.map (scope, ·) ++ rest)

/-- Splice members into the class artifact of a name. -/
def fuseClass (s : Scope) (name : String) (members : List String) : Scope :=
  match s.artifacts.get? ⟨.classType, name⟩ with
  | some (.classType a) =>
      { s with artifacts := s.artifacts.insert ⟨.classType, name⟩ (.classType (a.fuse members)) }
  | _ => s

/-- Splice every interface that has a class of its name into it. -/
def resolveFusions (p : Project) : Project :=
  let (p, all) := p.fusions p.index.ids
  { p with
    index := all.foldl (fun ix f => ix.modifyScope f.1 fun s => fuseClass s f.2.1 f.2.2) p.index }

end Project

end Externals
