import Externals.Mapping.Draft
import Externals.Mapping.KotlinType
import Externals.Mapping.Reading
import Externals.Scope.Index

/-!
# `Externals.Mapping.Mapper`: from type positions to Kotlin types

The mapping follows the reading of a type. A name that the scope
resolves comes first, whatever else the type might be; then come the
rules in the order the reading lists them. A type no rule speaks
about becomes `JsAny`.

The mapping looks names up from one scope and writes for another, its
*home*. The two differ only when members of an interface are drafted
again for a class elsewhere. A name is imported unless it is declared
in the home scope, or declared under the same name in the package of
the home scope.
-/

set_option autoImplicit false

namespace Externals

open Text

/-- Where a type is mapped: the scope that names are looked up from,
and the scope whose file the text is for. -/
structure Viewpoint where
  index : SymbolIndex
  home : Nat
  origin : Nat
deriving Inhabited

/-- The viewpoint of a scope on itself. -/
def Viewpoint.within (index : SymbolIndex) (scope : Nat) : Viewpoint := ⟨index, scope, scope⟩

/-- What the position of a type adds to it: the name it is bound to,
what `this` stands for, and whether comments are left out. -/
structure Position where
  name : Option String := none
  self : Option String := none
  quiet : Bool := false
deriving DecidableEq, Inhabited

/-- The same position without comments. -/
def Position.quietly (p : Position) : Position := { p with quiet := true }

/-- A type with the comment for a source text, unless the type says
exactly what the text says or comments are left out. -/
def Position.annotate (p : Position) (text : String) (exact : Bool) (base : String) : KotlinType :=
  { base := base, comment := if exact || p.quiet then none else some (commentText text) }

/-- The array types of the primitive element types. -/
def primitiveArray? (element : String) : Option String :=
  if element == "string" then some "JsStringArray"
  else if element == "number" then some "JsNumberArray"
  else if element == "boolean" then some "JsBooleanArray"
  else none

namespace Viewpoint

/-- Where a plain name leads. -/
def locate (v : Viewpoint) (name : String) : Option Location :=
  if v.index.hasName v.origin name then v.index.locate v.origin name else none

/-- The import that makes a located name visible under a name in the
home file, if one is needed. -/
def importFor? (v : Viewpoint) (name : String) (l : Location) : Option ImportLine :=
  let package := v.index.packageOf l.scope
  let rename := if l.name != name then some name else none
  if l.scope != v.home && (rename.isSome || package != v.index.packageOf v.home) then
    some ⟨package, l.name, rename⟩
  else none

/-- Resolve a plain name, asking for its import. Returns whether the
name means anything. -/
def resolve (v : Viewpoint) (name : String) : Draft Bool :=
  match v.locate name with
  | some l => ⟨true, (v.importFor? name l).toList, []⟩
  | none => pure false

/-- The import of `Promise`. -/
def promiseImport (v : Viewpoint) : ImportLine :=
  ⟨v.index.conventions.promisePackage, "Promise", none⟩

/-- The name a dotted reference gets in the generated file. -/
def qualifiedName (space name : String) : String := space ++ "_" ++ name

/-- The Kotlin type of an atom. -/
def mapAtom (v : Viewpoint) (p : Position) (text : String) : Atom → Draft KotlinType
  | .qualified space name => do
      let rename := qualifiedName space name
      Draft.request ⟨v.index.namespacePackage v.origin space, name, some rename⟩
      return p.annotate text (text == space ++ "." ++ name) rename
  | .string => return p.annotate text (text == "string") "String"
  | .boolean => return p.annotate text (text == "boolean") "Boolean"
  | .number =>
      let isId := (p.name.map v.index.conventions.idRule.holds).getD false
      return p.annotate text (text == "number") (if isId then "Int" else "Double")
  | .void => return p.annotate text true "Unit"
  | .barePromise => do
      Draft.request v.promiseImport
      return p.annotate text false "Promise<*>"
  | .dynamic => return p.annotate text true "JsAny"
  | .self =>
      match p.self.filter fun name => !name.isEmpty with
      | some name => return p.annotate text false name
      | none => do
          Draft.report (.noMappingRule text)
          return p.annotate text false "JsAny"
  | .unknown => do
      Draft.report (.noMappingRule text)
      return p.annotate text false "JsAny"

/-- A plain name that the scope resolves, or else the rule of the
reading. -/
def symbolOr (v : Viewpoint) (p : Position) (text : String) (symbol : Option String)
    (rule : Draft KotlinType) : Draft KotlinType :=
  match symbol with
  | some name => do
      if ← v.resolve name then return p.annotate text (text == name) name else rule
  | none => rule

/-- The Kotlin type of a reading. -/
def mapReading (v : Viewpoint) (p : Position) : Reading → Draft KotlinType
  | .nullable _ inner => do
      let type ← mapReading v p inner
      return { type with nullable := true }
  | .array text symbol element =>
      v.symbolOr p text symbol <|
        match primitiveArray? element.text with
        | some name => do
            Draft.request ⟨v.index.conventions.rootPackage, name, none⟩
            return p.annotate text false name
        | none => do
            let inner ← mapReading v p.quietly element
            return p.annotate text false ("JsArray<" ++ inner.bare ++ ">")
  | .promise text symbol argument =>
      v.symbolOr p text symbol do
        Draft.request v.promiseImport
        let inner ← mapReading v p.quietly argument
        return p.annotate text false ("Promise<" ++ inner.bare ++ ">")
  | .atom text symbol atom => v.symbolOr p text symbol (v.mapAtom p text atom)

/-- The Kotlin type of a type position. -/
def map (v : Viewpoint) (p : Position) (type : TypeRef) : Draft KotlinType :=
  v.mapReading p (Reading.of type)

/-- A mapped type wrapped in a promise, keeping its comment. -/
def promiseOf (v : Viewpoint) (inner : KotlinType) : Draft KotlinType := do
  Draft.request v.promiseImport
  return { base := "Promise<" ++ inner.bare ++ ">", comment := inner.comment }

end Viewpoint

end Externals
