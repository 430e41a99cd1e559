import Externals.Declaration.Basic
import Externals.Mapping.TypeText

/-!
# `Externals.Mapping.Reading`: what a type position says

A type position is answered for by its shape or by its text, and both
answer the same questions. Their answers come together in a
`Reading`, the one thing the mapping looks at: `T | undefined`, an
array, a promise, or an atom, each with the text it was written with
and the plain name it may refer to.

A reading lists for each type only the first rule that speaks about
it, in the order dotted name, string, boolean, number, array, nothing,
promise, any value, `this`. The plain name is kept beside it, because
whether it means anything depends on the scope.

* `Reading.ofResolved` follows the shape.
* `Reading.ofText` follows the text; it ends because every part of a
  text has less ink than the whole.
* `TypeRef.describe` gives all answers side by side.
-/

set_option autoImplicit false

namespace Externals

open Text

/-! ### Answers from the shape -/

namespace ResolvedType

/-- The type `T` of `T | undefined`. -/
def nullableInner? : ResolvedType → Option ResolvedType
  | nullable _ inner => some inner
  | _ => none

/-- The plain name a type refers to. -/
def symbol? : ResolvedType → Option String
  | reference _ name _ => if name.toList.contains '.' then none else some name
  | _ => none

/-- Namespace and name of a dotted reference without arguments. -/
def qualified? : ResolvedType → Option (String × String)
  | reference _ name [] =>
      (dottedName? name.toList).map fun (space, name) => (String.ofList space, String.ofList name)
  | _ => none

/-- Strings and their literals. -/
def isString : ResolvedType → Bool
  | plain _ .string | plain _ .stringLiteral => true
  | _ => false

/-- The booleans and their literals. -/
def isBoolean : ResolvedType → Bool
  | plain _ .boolean | plain _ .booleanLiteral => true
  | _ => false

/-- Numbers and their literals. -/
def isNumber : ResolvedType → Bool
  | plain _ .number | plain _ .numberLiteral => true
  | _ => false

/-- The element of an array type, or the one argument of an array
name. -/
def element? : ResolvedType → Option ResolvedType
  | array _ element => some element
  | reference _ name [element] => if isArrayName name.toList then some element else none
  | _ => none

/-- Types without a value. -/
def isVoid : ResolvedType → Bool
  | plain _ .undefined | plain _ .void => true
  | _ => false

/-- The argument of a promise: `some none` without arguments, the
first argument otherwise. -/
def promise? : ResolvedType → Option (Option ResolvedType)
  | reference _ name args => if name == "Promise" then some args.head? else none
  | _ => none

/-- Types that say nothing about their values. -/
def isDynamic : ResolvedType → Bool
  | plain _ .object | plain _ .any | plain _ .unknown => true
  | _ => false

/-- The type of the object itself. -/
def isSelf : ResolvedType → Bool
  | plain _ .self => true
  | _ => false

end ResolvedType

/-! ### Descriptions -/

/-- All answers a type position gives, side by side. Types appear by
their text. -/
structure Description where
  text : String
  nullable : Option String
  symbol : Option String
  qualified : Option (String × String)
  isString : Bool
  isBoolean : Bool
  isNumber : Bool
  element : Option String
  isVoid : Bool
  promise : Option (Option String)
  isDynamic : Bool
  isSelf : Bool
deriving DecidableEq, Inhabited

/-- All answers that a text gives about its type. -/
def TypeText.describe (t : TypeText) : Description where
  text := t.text
  nullable := t.nullableInner?.map text
  symbol := t.symbol?
  qualified := t.qualified?
  isString := t.isString
  isBoolean := t.isBoolean
  isNumber := t.isNumber
  element := t.element?.map text
  isVoid := t.isVoid
  promise := t.promise?.map fun a => a.map text
  isDynamic := t.isDynamic
  isSelf := t.isSelf

/-- All answers that a tree gives about its type. -/
def ResolvedType.describe (t : ResolvedType) : Description where
  text := t.text
  nullable := t.nullableInner?.map text
  symbol := t.symbol?
  qualified := t.qualified?
  isString := t.isString
  isBoolean := t.isBoolean
  isNumber := t.isNumber
  element := t.element?.map text
  isVoid := t.isVoid
  promise := t.promise?.map fun a => a.map text
  isDynamic := t.isDynamic
  isSelf := t.isSelf

/-- All answers of a type position. -/
def TypeRef.describe : TypeRef → Description
  | resolved type => type.describe
  | unresolved text => (TypeText.ofString text).describe

/-! ### Readings -/

/-- The types without parts, as the rules tell them apart. -/
inductive Atom where
  | qualified (space name : String)
  | string
  | boolean
  | number
  | void
  | barePromise
  | dynamic
  | self
  | unknown
deriving DecidableEq, Inhabited

/-- What a type position says. The text is trimmed; the symbol is the
plain name the type may refer to. -/
inductive Reading where
  | nullable (text : String) (inner : Reading)
  | array (text : String) (symbol : Option String) (element : Reading)
  | promise (text : String) (symbol : Option String) (argument : Reading)
  | atom (text : String) (symbol : Option String) (atom : Atom)
deriving DecidableEq, Inhabited

namespace Reading

/-- The text that a type was read from. -/
def text : Reading → String
  | nullable text _ => text
  | array text _ _ => text
  | promise text _ _ => text
  | atom text _ _ => text

/-- The reading of a type without parts, by the first rule that
applies. -/
def ofAnswers (text : String) (symbol : Option String) (qualified : Option (String × String))
    (isString isBoolean isNumber : Bool) (element : Option Reading) (isVoid : Bool)
    (promise : Option (Option Reading)) (isDynamic isSelf : Bool) : Reading :=
  match qualified with
  | some (space, name) => atom text symbol (.qualified space name)
  | none =>
      if isString then atom text symbol .string
      else if isBoolean then atom text symbol .boolean
      else if isNumber then atom text symbol .number
      else
        match element with
        | some element => array text symbol element
        | none =>
            if isVoid then atom text symbol .void
            else
              match promise with
              | some (some argument) => Reading.promise text symbol argument
              | some none => atom text symbol .barePromise
              | none =>
                  if isDynamic then atom text symbol .dynamic
                  else if isSelf then atom text symbol .self
                  else atom text symbol .unknown

/-- The reading of a text. -/
def ofText (t : TypeText) : Reading :=
  let text := trimString t.text
  match _h : t.nullableInner? with
  | some inner => nullable text (ofText inner)
  | none =>
      ofAnswers text t.symbol? t.qualified? t.isString t.isBoolean t.isNumber
        (match _he : t.element? with
          | some element => some (ofText element)
          | none => none)
        t.isVoid
        (match _hp : t.promise? with
          | some (some argument) => some (some (ofText argument))
          | some none => some none
          | none => none)
        t.isDynamic t.isSelf
termination_by ink t.chars
decreasing_by
  · exact TypeText.ink_nullableInner? _h
  · exact TypeText.ink_element? _he
  · exact TypeText.ink_promise? _hp

mutual

/-- The reading of a shape. -/
def ofResolved : ResolvedType → Reading
  | .plain text shape =>
      let t := ResolvedType.plain text shape
      ofAnswers (trimString text) t.symbol? t.qualified? t.isString t.isBoolean t.isNumber none
        t.isVoid none t.isDynamic t.isSelf
  | .array text element =>
      ofAnswers (trimString text) none none false false false (some (ofResolved element)) false
        none false false
  | .nullable text inner => nullable (trimString text) (ofResolved inner)
  | .reference text name args =>
      let t := ResolvedType.reference text name args
      let arguments := ofResolvedArgs args
      ofAnswers (trimString text) t.symbol? t.qualified? false false false
        (if isArrayName name.toList && arguments.length == 1 then arguments.head? else none) false
        (if name == "Promise" then some arguments.head? else none) false false

/-- The readings of type arguments, in order. -/
def ofResolvedArgs : List ResolvedType → List Reading
  | [] => []
  | t :: ts => ofResolved t :: ofResolvedArgs ts

end

/-- The reading of a type position. -/
def of : TypeRef → Reading
  | .resolved type => ofResolved type
  | .unresolved text => ofText (TypeText.ofString text)

end Reading

end Externals
