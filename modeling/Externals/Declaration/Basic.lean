/-!
# `Externals.Declaration.Basic`: the declaration model

What a TypeScript declaration file says, as plain data. A file is a
list of modules; a module holds functions, classes, interfaces,
imports and further modules. Everything that follows, from name
resolution to the emitted Kotlin text, reads this model and never
the source text again.

A type position is a `TypeRef`. Either its shape is known, and it is
a `ResolvedType` whose every node still carries the text it was
written with, or only the text is known.

Equality of type positions is decidable, which merging the blocks of
one interface relies on.
-/

set_option autoImplicit false

namespace Externals

/-! ### Types -/

/-- The shapes of resolved types that have no parts. `self` is the
type `this`; `other` is a type no rule speaks about, such as `never`
or a union. -/
inductive PlainShape where
  | string
  | stringLiteral
  | boolean
  | booleanLiteral
  | number
  | numberLiteral
  | undefined
  | void
  | object
  | any
  | unknown
  | self
  | other
deriving DecidableEq, Inhabited

/-- A type of known shape, each node with the text it was written
with. `nullable` is `T | undefined`; `reference` is a plain or dotted
name with its type arguments. -/
inductive ResolvedType where
  | plain (text : String) (shape : PlainShape)
  | array (text : String) (element : ResolvedType)
  | nullable (text : String) (inner : ResolvedType)
  | reference (text : String) (name : String) (args : List ResolvedType)
deriving Inhabited

namespace ResolvedType

/-- The text the type was written with. -/
def text : ResolvedType → String
  | plain text _ => text
  | array text _ => text
  | nullable text _ => text
  | reference text _ _ => text

mutual

/-- Equality of resolved types is decided node by node. -/
def decEq : (a b : ResolvedType) → Decidable (a = b)
  | plain t s, plain t' s' => decidable_of_iff (t = t' ∧ s = s') (by simp)
  | array t e, array t' e' =>
      have := decEq e e'
      decidable_of_iff (t = t' ∧ e = e') (by simp)
  | nullable t e, nullable t' e' =>
      have := decEq e e'
      decidable_of_iff (t = t' ∧ e = e') (by simp)
  | reference t n as, reference t' n' as' =>
      have := decEqList as as'
      decidable_of_iff (t = t' ∧ n = n' ∧ as = as') (by simp)
  | plain .., array .. => isFalse nofun
  | plain .., nullable .. => isFalse nofun
  | plain .., reference .. => isFalse nofun
  | array .., plain .. => isFalse nofun
  | array .., nullable .. => isFalse nofun
  | array .., reference .. => isFalse nofun
  | nullable .., plain .. => isFalse nofun
  | nullable .., array .. => isFalse nofun
  | nullable .., reference .. => isFalse nofun
  | reference .., plain .. => isFalse nofun
  | reference .., array .. => isFalse nofun
  | reference .., nullable .. => isFalse nofun

/-- Equality of argument lists, argument by argument. -/
def decEqList : (as bs : List ResolvedType) → Decidable (as = bs)
  | [], [] => isTrue rfl
  | [], _ :: _ => isFalse nofun
  | _ :: _, [] => isFalse nofun
  | a :: as, b :: bs =>
      have := decEq a b
      have := decEqList as bs
      decidable_of_iff (a = b ∧ as = bs) (by simp)

end

/-- Types are compared node by node, with their texts. -/
instance : DecidableEq ResolvedType := decEq

end ResolvedType

/-- A type position: a type of known shape, or only its text. -/
inductive TypeRef where
  | resolved (type : ResolvedType)
  | unresolved (text : String)
deriving DecidableEq, Inhabited

namespace TypeRef

/-- A position without annotation is of type `any`. -/
def implicitAny : TypeRef := unresolved "any"

end TypeRef

/-! ### Members -/

/-- A parameter of a function or method. -/
structure Param where
  name : String
  type : TypeRef
  /-- A parameter that takes all remaining arguments. -/
  rest : Bool := false
  /-- A parameter that may be left out. -/
  optional : Bool := false
deriving DecidableEq, Inhabited

/-- How the name of a member is written: as an identifier, as a
literal (a string, a number or a private name), or computed in square
brackets. The text is kept as written. -/
inductive MemberName where
  | identifier (text : String)
  | quoted (text : String)
  | computed (text : String)
deriving DecidableEq, Inhabited

/-- A method of a class or an interface, with its modifiers. -/
structure Method where
  name : MemberName
  params : List Param
  returns : TypeRef
  isStatic : Bool
  isAsync : Bool
  isOverride : Bool
  optional : Bool
deriving DecidableEq, Inhabited

/-- A property of a class or an interface, with its modifiers. -/
structure Property where
  name : MemberName
  type : TypeRef
  isStatic : Bool
  isOverride : Bool
  isReadonly : Bool
  optional : Bool
deriving DecidableEq, Inhabited

/-- A getter, a setter, or both under one name. -/
structure Accessor where
  name : MemberName
  type : TypeRef
  isStatic : Bool
  isOverride : Bool
  hasSetter : Bool
deriving DecidableEq, Inhabited

/-- A member of a class or an interface. -/
inductive Member where
  | method (m : Method)
  | property (p : Property)
  | accessor (a : Accessor)
deriving DecidableEq, Inhabited

namespace Member

/-- The name of a member, whatever kind it is of. -/
def name : Member → MemberName
  | method m => m.name
  | property p => p.name
  | accessor a => a.name

/-- A member of the class itself and not of its instances. -/
def isStatic : Member → Bool
  | method m => m.isStatic
  | property p => p.isStatic
  | accessor a => a.isStatic

end Member

/-! ### Declarations -/

/-- One signature of a function. -/
structure FunctionDecl where
  name : Option String
  params : List Param
  returns : TypeRef
  isAsync : Bool
deriving DecidableEq, Inhabited

/-- A class, with the parameter list of every constructor. -/
structure ClassDecl where
  name : Option String
  base : Option TypeRef
  constructors : List (List Param)
  members : List Member
deriving DecidableEq, Inhabited

/-- One block of an interface, with the types it extends. -/
structure InterfaceDecl where
  name : Option String
  bases : List TypeRef
  members : List Member
deriving DecidableEq, Inhabited

/-- What one import brings into a module: a name, perhaps under
another local name, or a whole module under a local name. -/
inductive ImportBinding where
  | named (name : String) (rename : Option String)
  | whole (rename : String)
deriving DecidableEq, Inhabited

namespace ImportBinding

/-- The name the binding introduces. -/
def localName : ImportBinding → String
  | named name rename => rename.getD name
  | whole rename => rename

end ImportBinding

/-- An import: the module that is imported from, and the names that it
binds. -/
structure ImportDecl where
  source : String
  bindings : List ImportBinding
deriving DecidableEq, Inhabited

/-- How a module was introduced: as the global scope, as an ambient
module with a string for its name, or as a namespace. -/
inductive ModuleKind where
  | global
  | ambient
  | namespaced
deriving DecidableEq, Inhabited

/-- A statement of a module body. -/
inductive Statement where
  | function (decl : FunctionDecl)
  | classDecl (decl : ClassDecl)
  | interfaceDecl (decl : InterfaceDecl)
  | moduleDecl (name : String) (kind : ModuleKind) (body : List Statement)
  | importDecl (decl : ImportDecl)
deriving Inhabited

/-- A module, a namespace or the global scope of one file. -/
structure Module where
  name : String
  kind : ModuleKind
  body : List Statement
deriving Inhabited

namespace Module

/-- The module of the declarations that stand in no other module. -/
def global (body : List Statement) : Module := ⟨"global", .global, body⟩

/-- A module as a statement of an enclosing module. -/
def toStatement (m : Module) : Statement := .moduleDecl m.name m.kind m.body

end Module

/-- A declaration file. -/
structure SourceFile where
  path : String
  modules : List Module
deriving Inhabited

end Externals
