import Externals.Data.Table
import Externals.Declaration.Basic
import Externals.Emit.Artifact

/-!
# `Externals.Scope.Basic`: scopes and what they hold

A scope is a module, a namespace or the global scope, after all files
have been read together. It holds declarations, each under its kind
and name, the imports its files wrote down, and the artifacts that
were emitted from the declarations.
-/

set_option autoImplicit false

namespace Externals

/-- The kinds of declarations a scope tells apart. -/
inductive DeclKind where
  | function
  | classType
  | interfaceType
deriving DecidableEq, Inhabited

namespace DeclKind

/-- All kinds, in the order their declarations are rendered. -/
def all : List DeclKind := [function, classType, interfaceType]

/-- The word for a kind in the label of a key. -/
def label : DeclKind → String
  | function => "fun"
  | classType => "class"
  | interfaceType => "interface"

end DeclKind

/-- What a declaration is filed under: one declaration for each kind
and name. -/
structure DeclKey where
  kind : DeclKind
  name : String
deriving DecidableEq, Inhabited

/-- The label of the header that collects a declaration's imports. -/
def DeclKey.label (key : DeclKey) : String := key.kind.label ++ ":" ++ key.name

/-- A collected declaration: all overloads of a function, a class, or
an interface with its blocks merged. -/
inductive Declaration where
  | functions (overloads : List FunctionDecl)
  | classType (decl : ClassDecl)
  | interfaceType (decl : InterfaceDecl)
deriving DecidableEq, Inhabited

/-- What a local name was imported as: a name of a module, or the
whole module. -/
inductive ScopeImport where
  | named (source name : String)
  | whole (source : String)
deriving DecidableEq, Inhabited

/-- A module, a namespace, or the global scope. -/
structure Scope where
  /-- The name as written. -/
  rawName : String
  kind : ModuleKind
  /-- The stem of the file. -/
  stem : String
  /-- What the scope adds to the package of its parent. -/
  segment : String
  parent : Option Nat
  /-- The module name the generated file is bound to. -/
  jsModule : Option String
  /-- The header of the file. -/
  header : Nat
  imports : Table String ScopeImport := .empty
  declarations : Table DeclKey Declaration := .empty
  artifacts : Table DeclKey Artifact := .empty
deriving Inhabited

namespace Scope

/-- Some declaration of the scope has the name. -/
def declares (s : Scope) (name : String) : Bool :=
  DeclKind.all.any fun kind => s.declarations.contains ⟨kind, name⟩

/-- The class that a scope declares under a name. -/
def class? (s : Scope) (name : String) : Option ClassDecl :=
  match s.declarations.get? ⟨.classType, name⟩ with
  | some (.classType decl) => some decl
  | _ => none

/-- The interface that a scope declares under a name. -/
def interface? (s : Scope) (name : String) : Option InterfaceDecl :=
  match s.declarations.get? ⟨.interfaceType, name⟩ with
  | some (.interfaceType decl) => some decl
  | _ => none

end Scope

end Externals
