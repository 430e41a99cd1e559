import Externals.Declaration.Basic

/-!
# `Externals.Source.Tree`: concrete declarations

What the grammar finds in a source text, before anything is read into
it. A node keeps the text it covers. Comments are nodes like any
other where a type, a list of types or a pattern is expected, because
a comment in such a place is taken for what was expected there.

Statements and members that declare nothing have no node.
-/

set_option autoImplicit false

namespace Externals.Source

/-- A piece of the source: where it starts, and its text. -/
structure Fragment where
  start : Nat
  text : String
deriving DecidableEq, Inhabited

/-- Where the piece ends. -/
def Fragment.stop (f : Fragment) : Nat := f.start + f.text.length

/-- The kinds of literal types. -/
inductive LiteralKind where
  | string
  | number
  | boolean
  | undefined
  | null
deriving DecidableEq, Inhabited

/-- A type as it is written. Lists of children hold the comments
between them. A union lists the members of its whole chain. -/
inductive TypeNode where
  /-- A type the language itself names, such as `string`. -/
  | predefined (source : Fragment)
  | literal (source : Fragment) (kind : LiteralKind)
  | template (source : Fragment)
  /-- The type `this`. -/
  | self (source : Fragment)
  | name (source : Fragment)
  /-- A dotted name. -/
  | qualified (source : Fragment)
  /-- A name with arguments. -/
  | generic (source : Fragment) (name : String) (args : List TypeNode)
  | array (source : Fragment) (children : List TypeNode)
  | parens (source : Fragment) (children : List TypeNode)
  | union (source : Fragment) (members : List TypeNode)
  /-- Every other type. -/
  | other (source : Fragment)
  | comment (source : Fragment)
deriving Inhabited

/-- The piece of the source a type covers. -/
def TypeNode.source : TypeNode → Fragment
  | predefined s | literal s _ | template s | self s | name s | qualified s | generic s _ _
  | array s _ | parens s _ | union s _ | other s | comment s => s

/-- A type annotation. Either a colon and what follows it, or a
statement about an argument such as `x is T`, colon included. -/
inductive Typing where
  | type (children : List TypeNode)
  | predicate (source : Fragment)
deriving Inhabited

/-- What a parameter binds: the receiver, a pattern, or the rest of
the arguments. A rest pattern lists what follows the dots. -/
inductive Pattern where
  | self
  | plain (text : String)
  | rest (children : List String)
deriving DecidableEq, Inhabited

/-- A parameter as it is written. -/
structure ParamNode where
  pattern : Pattern
  typing : Option Typing
  optional : Bool
deriving Inhabited

/-- The words and marks that modify a member. -/
structure Modifiers where
  isStatic : Bool := false
  isAsync : Bool := false
  isOverride : Bool := false
  isReadonly : Bool := false
  optional : Bool := false
  getter : Bool := false
  setter : Bool := false
deriving DecidableEq, Inhabited

/-- A member of a class or interface body. An index signature counts
only by the name of its key. -/
inductive MemberNode where
  | method (name : MemberName) (modifiers : Modifiers) (params : List ParamNode)
      (returns : Option Typing)
  | field (name : MemberName) (modifiers : Modifiers) (type : Option Typing)
  | index (key : String)
deriving Inhabited

/-- The name of a module as it is written. -/
inductive ModuleName where
  | quoted (text : String)
  | dotted (text : String)
deriving DecidableEq, Inhabited

/-- A part of an import: a whole module, which lists what follows
the star, or a name. -/
inductive ImportNode where
  | whole (children : List String)
  | named (name : String) (rename : Option String)
deriving DecidableEq, Inhabited

/-- A statement that declares something. -/
inductive StatementNode where
  | function (name : String) (params : List ParamNode) (returns : Option Typing)
      (isAsync : Bool)
  | classDecl (name : String) (base : Option String) (members : List MemberNode)
  | interfaceDecl (name : String) (bases : List TypeNode) (members : List MemberNode)
  | moduleDecl (name : ModuleName) (body : List StatementNode)
  | globalBlock (body : List StatementNode)
  | importDecl (source : String) (parts : List ImportNode)
deriving Inhabited

end Externals.Source
