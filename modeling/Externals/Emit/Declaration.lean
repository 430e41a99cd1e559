import Externals.Emit.Member

/-!
# `Externals.Emit.Declaration`: functions, classes and interfaces

Each collected declaration is drafted as one artifact. A function
takes its name from the key it is filed under; classes and interfaces
take their own, and one without a name yields nothing.
-/

set_option autoImplicit false

namespace Externals

namespace Viewpoint

/-- One signature of a function. -/
def draftSignature (v : Viewpoint) (name : String) (decl : FunctionDecl) : Draft String := do
  let params ← v.draftParams none decl.params
  let returns ← v.draftReturn { name := some name } decl.returns decl.isAsync
  return "external fun " ++ kotlinName name ++ "(" ++ params ++ "): " ++ returns.render

/-- A function with one signature for each overload. -/
def draftFunction (v : Viewpoint) (name : String) (overloads : List FunctionDecl) :
    Draft FunctionArtifact := do
  let signatures ← Draft.each (v.draftSignature name) overloads
  return { name := name, signatures := signatures }

/-- A class. The first constructor is the primary one; static members
are drafted before instance members. -/
def draftClass (v : Viewpoint) (decl : ClassDecl) : Draft (Option ClassArtifact) :=
  match decl.name with
  | none => do
      Draft.report .classWithoutName
      return none
  | some name => do
      let constructors ← Draft.each (v.draftParams (some name)) decl.constructors
      let base ← match decl.base with
        | some type => do
            let type ← v.map { self := some name } type
            pure (some type.render)
        | none => pure none
      let statics ← v.draftMembers name (decl.members.filter Member.isStatic)
      let members ← v.draftMembers name (decl.members.filter fun m => !m.isStatic)
      return some
        { name := name, primary := constructors.head?.getD "", secondary := constructors.tail,
          base := base, statics := statics, members := members }

/-- An interface with its bases and members. One without a name is
skipped. Whether a class of its name takes its members is decided by the
caller. -/
def draftInterface (v : Viewpoint) (decl : InterfaceDecl) (fusedIntoClass : Bool) :
    Draft (Option InterfaceArtifact) :=
  match decl.name with
  | none => do
      Draft.report .interfaceWithoutName
      return none
  | some name => do
      let bases ← Draft.each (v.map { self := some name }) decl.bases
      let members ← v.draftMembers name decl.members
      return some
        { name := name, bases := bases, members := members, fusedIntoClass := fusedIntoClass }

/-- The artifact of the declaration under a key of the home scope. An
interface is fused when the scope has a class under its key's name. -/
def draftDeclaration (v : Viewpoint) (key : DeclKey) : Declaration → Draft (Option Artifact)
  | .functions overloads => do
      let a ← v.draftFunction key.name overloads
      return some (.function a)
  | .classType decl => do
      let a ← v.draftClass decl
      return a.map .classType
  | .interfaceType decl => do
      let paired := (v.index.scopes[v.home]?.bind fun s => s.class? key.name).isSome
      let a ← v.draftInterface decl paired
      return a.map .interfaceType

end Viewpoint

end Externals
