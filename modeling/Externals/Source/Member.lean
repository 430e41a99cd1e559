import Externals.Source.Expression

/-!
# `Externals.Source.Member`: parameters and members

A word such as `static`, `get` or `readonly` modifies a member only
if the name of the member, or a further modifier, follows on the same
line; otherwise it is itself the name.
-/

set_option autoImplicit false

namespace Externals.Source

/-! ### Parameters -/

/-- Words that can stand in front of a parameter of a constructor. -/
def paramModifiers : List String := ["public", "private", "protected", "override", "readonly"]

/-- A token that a pattern can start with. -/
def startsPattern (t : Token) : Bool :=
  t.kind == .word || t.isMark "\x7b" || t.isMark "[" || t.isMark "..."

/-- Pass the modifiers of a parameter. -/
def skipParamModifiers : Rule Unit := do
  let _ ← many do
    if (← aheadIs 0 fun t => t.kind == .word && paramModifiers.contains t.text)
        && (← aheadIs 1 startsPattern) then
      let _ ← take
      return some ()
    else return none

/-- The text of a pattern: a name, or a pattern in brackets. -/
def patternText : Rule String := do
  let some first ← peek | failure
  if first.kind == .word then
    let _ ← take
  else if first.isMark "\x7b" || first.isMark "[" then group
  else failure
  return (← fragmentFrom first).text

/-- What a parameter binds. -/
def pattern : Rule Pattern := do
  if ← skipMark "..." then
    let before ← leading
    let text ← patternText
    return .rest (before.map Comment.text ++ [text])
  else if ← skipWord "this" then return .self
  else return .plain (← patternText)

/-- A parameter: a pattern, perhaps a question mark, a type and a
default value. -/
def param (fuel : Nat) : Rule ParamNode := do
  skipDecorators fuel
  skipParamModifiers
  let binds ← pattern
  let isOptional ← skipMark "?"
  let type ← ifMark ":" (typing false fuel)
  skipInitializer fuel
  return ⟨binds, type, isOptional⟩

/-- A list of parameters in parentheses. -/
def params (fuel : Nat) : Rule (List ParamNode) := do
  let _ ← mark "("
  let found ← many do
    if (← atMark ")") || (← peek).isNone then return none
    else
      let p ← param fuel
      let _ ← skipMark ","
      return some p
  let _ ← mark ")"
  return found

/-! ### Members -/

/-- A token that the name of a member can start with. -/
def startsName (t : Token) : Bool :=
  match t.kind with
  | .word | .string | .number | .privateName => true
  | .mark => t.text == "[" || t.text == "*"
  | _ => false

/-- What a word adds to the modifiers of a member, if it is a
modifier. -/
def modifier? (m : Modifiers) : String → Option Modifiers
  | "static" => some { m with isStatic := true }
  | "async" => some { m with isAsync := true }
  | "override" => some { m with isOverride := true }
  | "readonly" => some { m with isReadonly := true }
  | "get" => some { m with getter := true }
  | "set" => some { m with setter := true }
  | "public" | "private" | "protected" | "abstract" | "declare" | "accessor" => some m
  | _ => none

/-- The modifiers before the name of a member, the given number of
words at most. -/
def modifiers (m : Modifiers) : Nat → Rule Modifiers
  | 0 => return m
  | n + 1 => do
      let some t ← peek | return m
      let follows ← aheadIs 1 fun next =>
        startsName next && (!next.newline || t.text == "abstract")
      match if t.kind == .word && follows then modifier? m t.text else none with
      | some m =>
          let _ ← take
          modifiers m n
      | none => return m

/-- Whether an index signature comes next: a key in square brackets
with its type, or one that runs through a type. -/
def atIndex : Rule Bool := do
  return (← atMark "[") && (← aheadIs 1 fun t => t.kind == .word)
    && (← aheadIs 2 fun t => t.isMark ":" || t.isWord "in")

/-- The name of a member. -/
def memberName : Rule MemberName := do
  let some first ← peek | failure
  match first.kind with
  | .word =>
      let _ ← take
      return .identifier first.text
  | .string | .number | .privateName =>
      let _ ← take
      return .quoted first.text
  | _ =>
      groupOf "["
      return .computed (← fragmentFrom first).text

/-- What follows the name of a member. -/
def memberTail (name : MemberName) (m : Modifiers) (fuel : Nat) : Rule MemberNode := do
  let isOptional ← skipMark "?"
  let _ ← skipMark "!"
  let m := { m with optional := isOptional }
  if (← atMark "(") || (← atMark "<") then
    skipAngles
    let ps ← params fuel
    let returns ← ifMark ":" (resultTyping true fuel)
    let _ ← ifMark "\x7b" group
    return .method name m ps returns
  else
    let type ← ifMark ":" (typing true fuel)
    skipInitializer fuel
    return .field name m type

/-- An index signature. -/
def indexMember (fuel : Nat) : Rule MemberNode := do
  let key := ((← ahead 1).map Token.text).getD ""
  group
  let _ ← ifMark ":" (typing true fuel)
  return .index key

/-- A member after its decorators, or a key-less signature, which
declares nothing. -/
def member (isClass : Bool) (fuel : Nat) : Rule (Option MemberNode) := do
  let m ← modifiers {} 16
  let _ ← skipMark "*"
  if ← atIndex then return some (← indexMember fuel)
  else
    let isCall ← aheadIs 0 fun t => t.isMark "(" || t.isMark "<"
    let isNew := (← atWord "new") && (← aheadIs 1 fun t => t.isMark "(" || t.isMark "<")
    if !isClass && (isCall || isNew) then
      let _ ← skipWord "new"
      skipAngles
      let _ ← params fuel
      let _ ← ifMark ":" (resultTyping true fuel)
      return none
    else
      let name ← memberName
      return some (← memberTail name m fuel)

/-- The body of a class or an interface. -/
def members (isClass : Bool) (fuel : Nat) : Rule (List MemberNode) := do
  let _ ← mark "\x7b"
  let found ← many do
    if (← atMark "\x7d") || (← peek).isNone then return none
    else if (← skipMark ";") || (← skipMark ",") then return some none
    else if ← atMark "@" then
      skipDecorators fuel
      return some none
    else if (← atWord "static") && (← aheadIs 1 fun t => t.isMark "\x7b") then
      let _ ← take
      group
      return some none
    else return some (← member isClass fuel)
  let _ ← mark "\x7d"
  return found.filterMap id

end Externals.Source
