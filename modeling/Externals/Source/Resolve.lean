import Externals.Source.Tree
import Externals.Text.Blank
import Externals.Text.Split

/-!
# `Externals.Source.Resolve`: from concrete declarations to the model

A type is resolved if the declaration model has a shape for it;
otherwise its text is kept. A part of a type that has no shape is of
shape `other`, except in a union, which then has no shape either.
A comment where a type is expected is a type without shape.

* `TypeNode.resolve?` gives the shape of a type.
* `addAccessor` merges getters and setters of one name.
* `StatementNode.toStatement?` gives the declaration of a statement.
* `modulesOf` sorts the statements of a file into modules.
-/

set_option autoImplicit false

namespace Externals.Source

open Text

/-! ### Types -/

/-- The shapes of the types the language itself names. -/
def predefinedShape : String → PlainShape
  | "string" => .string
  | "number" => .number
  | "boolean" => .boolean
  | "void" => .void
  | "any" => .any
  | "unknown" => .unknown
  | "object" => .object
  | _ => .other

/-- The shape of a literal. The literal `null` has none of its own. -/
def LiteralKind.shape : LiteralKind → PlainShape
  | string => .stringLiteral
  | number => .numberLiteral
  | boolean => .booleanLiteral
  | undefined => .undefined
  | null => .other

/-- The part of a piece from one piece in it to another. -/
def Fragment.between (whole first last : Fragment) : String :=
  String.ofList ((whole.text.toList.drop (first.start - whole.start)).take
    (last.stop - first.start))

/-- The type that the members of a union before its last stand for:
a single member itself, several by their text. -/
def restOfUnion (whole : Fragment) (sources : List Fragment) : List ResolvedType → ResolvedType
  | [type] => type
  | types =>
      match sources.take types.length with
      | [] => .plain "" .other
      | first :: more => .plain (whole.between first ((first :: more).getLast (by simp))) .other

/-- A union whose members are resolved. With `undefined` as its last
of several members it is nullable, otherwise it has no special shape. -/
def unionType (whole : Fragment) (sources : List Fragment) (types : List ResolvedType) :
    ResolvedType :=
  match types.getLast? with
  | some (.plain _ .undefined) =>
      if 2 ≤ types.length then .nullable whole.text (restOfUnion whole sources types.dropLast)
      else .plain whole.text .other
  | _ => .plain whole.text .other

/-- The type that a bare name stands for. The name `undefined` is no
keyword where only names can stand, and means the same there. -/
def nameType (text : String) : ResolvedType :=
  if text = "undefined" then .plain text .undefined else .reference text text []

namespace TypeNode

mutual

/-- The resolved form of a type, if it has a shape. -/
def resolve? : TypeNode → Option ResolvedType
  | predefined s => some (.plain s.text (predefinedShape s.text))
  | literal s kind => some (.plain s.text kind.shape)
  | template s => some (.plain s.text .stringLiteral)
  | self s => some (.plain s.text .self)
  | name s => some (nameType s.text)
  | qualified s => some (.reference s.text (squeezeString s.text) [])
  | generic s head args => some (.reference s.text (squeezeString head) (resolveParts args))
  | array s (element :: _) => some (.array s.text (resolvePart element))
  | parens _ (inner :: _) => resolve? inner
  | union s members => (resolveAll? members).map (unionType s (members.map source))
  | array _ [] | parens _ [] | other _ | comment _ => none

/-- A part of another type, resolved or of no special shape. -/
def resolvePart (node : TypeNode) : ResolvedType :=
  (resolve? node).getD (.plain node.source.text .other)

/-- All parts of another type. -/
def resolveParts : List TypeNode → List ResolvedType
  | [] => []
  | node :: nodes => resolvePart node :: resolveParts nodes

/-- Types that must all have a shape. -/
def resolveAll? : List TypeNode → Option (List ResolvedType)
  | [] => some []
  | node :: nodes => do
      let type ← resolve? node
      let types ← resolveAll? nodes
      return type :: types

end

/-- A type position that holds a type. -/
def toTypeRef (node : TypeNode) : TypeRef :=
  match node.resolve? with
  | some type => .resolved type
  | none => .unresolved node.source.text

end TypeNode

/-- A type position by its annotation. What follows the colon first is
the type. -/
def Typing.toTypeRef : Typing → TypeRef
  | type (node :: _) => node.toTypeRef
  | type [] => .unresolved ""
  | predicate source => .unresolved source.text

/-- A type position that may lack an annotation. -/
def typeAt : Option Typing → TypeRef
  | some a => a.toTypeRef
  | none => .implicitAny

/-! ### Parameters and members -/

/-- A parameter. The receiver is none. -/
def ParamNode.toParam? (p : ParamNode) : Option Param :=
  match p.pattern with
  | .self => none
  | .plain text =>
      some { name := text, type := typeAt p.typing, rest := false, optional := p.optional }
  | .rest children =>
      some { name := children.head?.getD "args", type := typeAt p.typing, rest := true,
             optional := p.optional }

/-- The parameters of a list that are kept, in order. -/
def paramsOf (ps : List ParamNode) : List Param := ps.filterMap ParamNode.toParam?

/-- Two accessors that are one: equal in name and in being static. -/
def pairs (a b : Accessor) : Bool := a.name == b.name && a.isStatic == b.isStatic

/-- What a further getter or setter adds to an accessor: a setter that
it can be written, a getter its type. -/
def absorb (a more : Accessor) : Accessor :=
  if more.hasSetter then { a with hasSetter := true } else { a with type := more.type }

/-- Add a getter or a setter to the first accessor it pairs with, or
as a new member. -/
def addAccessor (more : Accessor) : List Member → List Member
  | [] => [.accessor more]
  | .accessor a :: members =>
      if pairs a more then .accessor (absorb a more) :: members
      else .accessor a :: addAccessor more members
  | member :: members => member :: addAccessor more members

/-- The members with one more node of the body. -/
def MemberNode.addTo (members : List Member) : MemberNode → List Member
  | method name m ps returns =>
      if m.getter then
        addAccessor ⟨name, typeAt returns, m.isStatic, m.isOverride, false⟩ members
      else if m.setter then
        let type := ((paramsOf ps).head?.map Param.type).getD .implicitAny
        addAccessor ⟨name, type, m.isStatic, m.isOverride, true⟩ members
      else
        members ++ [.method ⟨name, paramsOf ps, typeAt returns, m.isStatic, m.isAsync, m.isOverride,
          m.optional⟩]
  | field name m type =>
      members ++ [.property ⟨name, typeAt type, m.isStatic, m.isOverride, m.isReadonly, m.optional⟩]
  | index _ => members

/-- The members of a body, in order. -/
def membersOf (nodes : List MemberNode) : List Member := nodes.foldl MemberNode.addTo []

/-- The text of a member's name, however it is written. -/
def memberNameText : MemberName → String
  | .identifier text | .quoted text | .computed text => text

/-- The text of a member's name. -/
def MemberNode.nameText : MemberNode → String
  | method name .. => memberNameText name
  | field name .. => memberNameText name
  | index key => key

/-- In a class, every member named `constructor` is a constructor,
whatever its form. -/
def MemberNode.isConstructor (node : MemberNode) : Bool := node.nameText == "constructor"

/-- The parameters of a member. -/
def MemberNode.params : MemberNode → List Param
  | method _ _ ps _ => paramsOf ps
  | _ => []

/-! ### Statements -/

/-- The marks that can be around a string. -/
def quoteChars : List Char := ['\x22', '\x27', '\x60']

/-- A text without the quotes at its ends, however many. -/
def unquote (s : String) : String :=
  let isQuote := fun c => quoteChars.contains c
  String.ofList (((s.toList.dropWhile isQuote).reverse.dropWhile isQuote).reverse)

/-- The parts of a dotted name. -/
def dottedParts (s : String) : List String :=
  (((splitOn '.' s.toList).map trim).filter fun part => !part.isEmpty).map String.ofList

/-- Namespaces in one another, the last one with a body. -/
def nestNamespaces (body : List Statement) : List String → Option Statement
  | [] => none
  | [name] => some (.moduleDecl name .namespaced body)
  | name :: names =>
      (nestNamespaces body names).map fun inner => .moduleDecl name .namespaced [inner]

/-- The name that a part of an import binds, if it binds one. -/
def ImportNode.toBinding? : ImportNode → Option ImportBinding
  | whole children => children.head?.map .whole
  | named name rename => some (.named (unquote name) rename)

mutual

/-- The declaration of a statement. -/
def StatementNode.toStatement? : StatementNode → Option Statement
  | .function name ps returns isAsync =>
      some (.function ⟨some name, paramsOf ps, typeAt returns, isAsync⟩)
  | .classDecl name base nodes =>
      some (.classDecl
        { name := some name
          base := base.map fun text => .unresolved (collapseString text)
          constructors := (nodes.filter MemberNode.isConstructor).map MemberNode.params
          members := membersOf (nodes.filter fun node => !node.isConstructor) })
  | .interfaceDecl name bases nodes =>
      some (.interfaceDecl ⟨some name, bases.map TypeNode.toTypeRef, membersOf nodes⟩)
  | .moduleDecl (.quoted text) body =>
      some (.moduleDecl (unquote text) .ambient (toStatements body))
  | .moduleDecl (.dotted text) body => nestNamespaces (toStatements body) (dottedParts text)
  | .globalBlock body => some (Module.global (toStatements body)).toStatement
  | .importDecl source parts =>
      some (.importDecl ⟨unquote source, parts.filterMap ImportNode.toBinding?⟩)

/-- The declarations of statements, in order. -/
def toStatements : List StatementNode → List Statement
  | [] => []
  | node :: nodes => (node.toStatement?).toList ++ toStatements nodes

end

/-- A statement that is a module by itself. -/
def toModule? : Statement → Option Module
  | .moduleDecl name kind body => some ⟨name, kind, body⟩
  | _ => none

/-- The modules of a file. All statements that stand in no module form
a global one, which comes first if there are any. -/
def modulesOf (statements : List Statement) : List Module :=
  let loose := statements.filter fun s => (toModule? s).isNone
  (if loose.isEmpty then [] else [Module.global loose]) ++ statements.filterMap toModule?

end Externals.Source
