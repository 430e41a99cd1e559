import Externals.Declaration.Basic
import Externals.Json.Basic

/-!
# `Externals.Declaration.Dump`: the declaration model as JSON

Every node of the model becomes an object. Statements are tagged
under `statement`; members, names, bindings, types and shapes are
tagged under `kind`. An absent name or base is `null`.
-/

set_option autoImplicit false

namespace Externals

open Json (obj str arr bool)

/-- A text that may be absent. -/
def Json.optional : Option String → Json
  | some s => str s
  | none => .null

/-- The word for a shape in the dump. -/
def PlainShape.word : PlainShape → String
  | string => "string"
  | stringLiteral => "stringLiteral"
  | boolean => "boolean"
  | booleanLiteral => "booleanLiteral"
  | number => "number"
  | numberLiteral => "numberLiteral"
  | undefined => "undefined"
  | void => "void"
  | object => "object"
  | any => "any"
  | unknown => "unknown"
  | self => "this"
  | other => "other"

namespace ResolvedType

/-- A resolved type: its text and its shape. -/
def toJson : ResolvedType → Json
  | plain text shape => obj [("text", str text), ("shape", obj [("kind", str shape.word)])]
  | array text element =>
      obj [("text", str text),
        ("shape", obj [("kind", str "array"), ("element", element.toJson)])]
  | nullable text inner =>
      obj [("text", str text),
        ("shape", obj [("kind", str "nullable"), ("inner", inner.toJson)])]
  | reference text name args =>
      obj [("text", str text),
        ("shape", obj [("kind", str "reference"), ("name", str name),
          ("type_arguments", arr (args.map toJson))])]

end ResolvedType

/-- A type position: a tree that was resolved, or the text that was
not. -/
def TypeRef.toJson : TypeRef → Json
  | resolved type => obj [("kind", str "resolved"), ("type", type.toJson)]
  | unresolved text => obj [("kind", str "unresolved"), ("type", str text)]

/-- A parameter with its type. -/
def Param.toJson (p : Param) : Json :=
  obj [("name", str p.name), ("ty", p.type.toJson), ("rest", bool p.rest),
    ("optional", bool p.optional)]

/-- The name of a member, and how it is written. -/
def MemberName.toJson : MemberName → Json
  | identifier text => obj [("kind", str "identifier"), ("text", str text)]
  | quoted text => obj [("kind", str "quoted"), ("text", str text)]
  | computed text => obj [("kind", str "computed"), ("text", str text)]

/-- A member with all its modifiers. -/
def Member.toJson : Member → Json
  | method m =>
      obj [("kind", str "method"), ("name", m.name.toJson),
        ("params", arr (m.params.map Param.toJson)), ("returnType", m.returns.toJson),
        ("isStatic", bool m.isStatic), ("isAsync", bool m.isAsync),
        ("isOverride", bool m.isOverride), ("optional", bool m.optional)]
  | property p =>
      obj [("kind", str "property"), ("name", p.name.toJson), ("ty", p.type.toJson),
        ("isStatic", bool p.isStatic), ("isOverride", bool p.isOverride),
        ("readonly", bool p.isReadonly), ("optional", bool p.optional)]
  | accessor a =>
      obj [("kind", str "accessor"), ("name", a.name.toJson), ("ty", a.type.toJson),
        ("isStatic", bool a.isStatic), ("isOverride", bool a.isOverride),
        ("hasSetter", bool a.hasSetter)]

/-- A name that an import binds. -/
def ImportBinding.toJson : ImportBinding → Json
  | named name rename =>
      obj [("kind", str "named"), ("name", str name), ("alias", .optional rename)]
  | whole rename => obj [("kind", str "namespace"), ("alias", str rename)]

/-- The word for a kind of module in the dump. -/
def ModuleKind.word : ModuleKind → String
  | global => "global"
  | ambient => "ambient"
  | namespaced => "namespace"

namespace Statement

/-- A statement, with the statements inside of it if it is a module. -/
def toJson : Statement → Json
  | function d =>
      obj [("statement", str "function"), ("name", .optional d.name),
        ("params", arr (d.params.map Param.toJson)), ("returnType", d.returns.toJson),
        ("isAsync", bool d.isAsync)]
  | classDecl d =>
      obj [("statement", str "class"), ("name", .optional d.name),
        ("extends", (d.base.map TypeRef.toJson).getD .null),
        ("constructors", arr (d.constructors.map fun ps => arr (ps.map Param.toJson))),
        ("members", arr (d.members.map Member.toJson))]
  | interfaceDecl d =>
      obj [("statement", str "interface"), ("name", .optional d.name),
        ("extends", arr (d.bases.map TypeRef.toJson)),
        ("members", arr (d.members.map Member.toJson))]
  | moduleDecl name kind body =>
      obj [("statement", str "module"), ("name", str name), ("kind", str kind.word),
        ("body", arr (body.map toJson))]
  | importDecl d =>
      obj [("statement", str "import"), ("module", str d.source),
        ("bindings", arr (d.bindings.map ImportBinding.toJson))]

end Statement

/-- A module with its body. -/
def Module.toJson (m : Module) : Json :=
  obj [("name", str m.name), ("kind", str m.kind.word), ("body", arr (m.body.map Statement.toJson))]

namespace SourceFile

/-- A file with its modules, as they are lowered. -/
def toJson (f : SourceFile) : Json :=
  obj [("path", str f.path), ("modules", arr (f.modules.map Module.toJson))]

/-- The text of a file's model. -/
def dump (f : SourceFile) : String := f.toJson.pretty

end SourceFile

end Externals
