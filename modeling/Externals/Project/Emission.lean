import Externals.Project.Collect

/-!
# `Externals.Project.Emission`: artifacts for all declarations

Every declaration of every scope is drafted, scope by scope and in
the order of declaration. The imports of each go to a header of its
own below the header of the scope.
-/

set_option autoImplicit false

namespace Externals

namespace Project

/-- Draft the declaration under a key of a scope. -/
def emitDeclaration (p : Project) (scope : Nat) (key : DeclKey) (decl : Declaration) :
    Project × Option Artifact :=
  p.settle scope key.label ((Viewpoint.within p.index scope).draftDeclaration key decl)

/-- Draft declarations in order, with the artifacts of those that
have one. -/
def emitEntries (p : Project) (scope : Nat) :
    List (DeclKey × Declaration) → Project × List (DeclKey × Artifact)
  | [] => (p, [])
  | (key, decl) :: entries =>
      let (p, a) := p.emitDeclaration scope key decl
      let (p, as) := p.emitEntries scope entries
      (p, (a.map (key, ·)).toList ++ as)

/-- Keep artifacts in their scope. -/
def storeArtifacts (p : Project) (scope : Nat) (as : List (DeclKey × Artifact)) : Project :=
  { p with index := as.foldl (fun ix e => ix.storeArtifact scope e.1 e.2) p.index }

/-- Emit all declarations of one scope. -/
def emitScope (p : Project) (scope : Nat) : Project :=
  let entries := (p.index.scopes[scope]?.map fun s => s.declarations.entries).getD []
  let (p, as) := p.emitEntries scope entries
  p.storeArtifacts scope as

/-- Emit all declarations of all scopes. -/
def emitAll (p : Project) : Project := p.index.ids.foldl emitScope p

end Project

end Externals
