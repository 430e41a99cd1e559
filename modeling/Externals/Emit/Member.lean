import Externals.Emit.Artifact
import Externals.Mapping.Mapper

/-!
# `Externals.Emit.Member`: members and parameters

Methods become functions, properties and accessors become `val` or
`var`. An optional method becomes a value of nullable function type.
Members whose name is no identifier, and methods named `toString`,
have no counterpart and are left out.
-/

set_option autoImplicit false

namespace Externals

namespace Viewpoint

/-- One parameter. A rest parameter takes any values. -/
def draftParam (v : Viewpoint) (self : Option String) (param : Param) : Draft String :=
  if param.rest then return "vararg " ++ kotlinName param.name ++ ": JsAny"
  else do
    let type ← v.map { name := some param.name, self := self } param.type
    return kotlinName param.name ++ ": " ++ type.render

/-- A parameter list, without its parentheses. -/
def draftParams (v : Viewpoint) (self : Option String) (params : List Param) : Draft String := do
  let texts ← Draft.each (v.draftParam self) params
  return ", ".intercalate texts

/-- The return type of a function or method. -/
def draftReturn (v : Viewpoint) (p : Position) (type : TypeRef) (isAsync : Bool) :
    Draft KotlinType := do
  let type ← v.map p type
  if isAsync then v.promiseOf type else return type

/-- The word in front of a member that overrides another. -/
def overrideWord (isOverride : Bool) : String := if isOverride then "override " else ""

/-- A method. One that is optional may be missing, so it is written as a
value that can be `null`. -/
def draftMethod (v : Viewpoint) (self name : String) (m : Method) : Draft String := do
  let params ← v.draftParams (some self) m.params
  let returns ← v.draftReturn { name := some name, self := some self } m.returns m.isAsync
  if m.optional then
    return overrideWord m.isOverride ++ "val " ++ kotlinName name ++ ": ((" ++ params ++ ") -> "
      ++ returns.bare ++ ")?"
  else
    return overrideWord m.isOverride ++ "fun " ++ kotlinName name ++ "(" ++ params ++ "): "
      ++ returns.render

/-- A property or an accessor, which differ only in what makes them
writable. -/
def draftValue (v : Viewpoint) (self name : String) (type : TypeRef)
    (isOverride writable : Bool) : Draft String := do
  let type ← v.map { name := some name, self := some self } type
  return overrideWord isOverride ++ (if writable then "var " else "val ") ++ kotlinName name
    ++ ": " ++ type.render

/-- One member of the class or interface `self`, if it has a
counterpart. -/
def draftMember (v : Viewpoint) (self : String) (member : Member) : Draft (Option String) :=
  match member.name with
  | .computed text => do
      Draft.report (.computedMember text self)
      return none
  | .quoted text => do
      Draft.report (.quotedMember text self)
      return none
  | .identifier name =>
      match member with
      | .method m =>
          if name == "toString" then do
            Draft.report (.toStringMember self m.params.length)
            return none
          else do
            let text ← v.draftMethod self name m
            return some text
      | .property p => do
          let text ← v.draftValue self name p.type p.isOverride (!p.isReadonly)
          return some text
      | .accessor a => do
          let text ← v.draftValue self name a.type a.isOverride a.hasSetter
          return some text

/-- The members that have a counterpart, in order. -/
def draftMembers (v : Viewpoint) (self : String) (members : List Member) : Draft (List String) := do
  let texts ← Draft.each (v.draftMember self) members
  return texts.filterMap id

end Viewpoint

end Externals
