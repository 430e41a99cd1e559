import Externals.Source.Rule

/-!
# `Externals.Source.Type`: how types are written

From the loosest to the tightest: conditional types, unions,
intersections, operators such as `keyof`, and operands followed by
square brackets. A function type reaches as far to the right as it
can.

Only the types that the declaration model has a shape for get nodes
with parts; of all others only the extent matters.

Where a statement or member may end at a line break, a type does not
go on with `[` or `extends` after one. `soft` says that a type stands
in such a place.

Rules that call each other count down `fuel`, which is chosen so
large that the tokens run out first.
-/

set_option autoImplicit false

namespace Externals.Source

/-- The types the language itself names. -/
def predefinedWords : List String :=
  ["any", "number", "boolean", "string", "symbol", "void", "unknown", "never", "object"]

/-- A token that a type can start with. -/
def startsType (t : Token) : Bool :=
  match t.kind with
  | .word => !(t.text == "extends" || t.text == "is" || t.text == "in" || t.text == "implements")
  | .string | .template | .number => true
  | .mark => ["(", "[", "\x7b", "<", "-"].contains t.text
  | _ => false

/-- Whether the word that comes next is an operator on the type after
it, on the same line. -/
def atTypeOperator (s : String) : Rule Bool := do
  return (← atWord s) && (← aheadIs 1 fun t => startsType t && !t.newline)

/-- Pass the names after a name, each with its dot. -/
def skipDots : Rule Bool := do
  let dots ← many do
    if (← atMark ".") && (← aheadIs 1 fun t => t.kind == .word) then
      let _ ← take
      let _ ← take
      return some ()
    else return none
  return !dots.isEmpty

mutual

/-- Any type. -/
def type (soft : Bool) : Nat → Rule TypeNode
  | 0 => failure
  | fuel + 1 => do
      let first ← peek
      let left ← union soft fuel
      let goesOn ← aheadIs 0 fun t => t.isWord "extends" && !(soft && t.newline)
      match first with
      | some first =>
          if goesOn then conditional soft first fuel <|> pure left else return left
      | none => return left

/-- The rest of a conditional type. -/
def conditional (soft : Bool) (first : Token) : Nat → Rule TypeNode
  | 0 => failure
  | fuel + 1 => do
      let _ ← word "extends"
      let _ ← union false fuel
      let _ ← mark "?"
      let _ ← type false fuel
      let _ ← mark ":"
      let _ ← type soft fuel
      return .other (← fragmentFrom first)

/-- A union, or a single type. -/
def union (soft : Bool) : Nat → Rule TypeNode
  | 0 => failure
  | fuel + 1 => do
      let some first ← peek | failure
      let marked ← skipMark "|"
      let comments ← if marked then leadingNodes else pure []
      let member ← intersection soft fuel
      let more ← unionTail soft fuel
      if marked || !more.isEmpty then
        return .union (← fragmentFrom first) (comments ++ member :: more)
      else return member

/-- The further members of a union. -/
def unionTail (soft : Bool) : Nat → Rule (List TypeNode)
  | 0 => failure
  | fuel + 1 => do
      if ← atMark "|" then
        let before ← leadingNodes
        let _ ← take
        let after ← leadingNodes
        let member ← intersection soft fuel
        let more ← unionTail soft fuel
        return before ++ after ++ member :: more
      else return []

/-- An intersection, or a single type. -/
def intersection (soft : Bool) : Nat → Rule TypeNode
  | 0 => failure
  | fuel + 1 => do
      let some first ← peek | failure
      let marked ← skipMark "&"
      let member ← operand soft fuel
      let more ← intersectionTail soft fuel
      if marked || more then return .other (← fragmentFrom first) else return member

/-- Pass the further members of an intersection. -/
def intersectionTail (soft : Bool) : Nat → Rule Bool
  | 0 => failure
  | fuel + 1 => do
      if ← skipMark "&" then
        let _ ← operand soft fuel
        let _ ← intersectionTail soft fuel
        return true
      else return false

/-- An operand of a union or intersection. -/
def operand (soft : Bool) : Nat → Rule TypeNode
  | 0 => failure
  | fuel + 1 => do
      let some first ← peek | failure
      if (← groupBefore "=>") && first.isMark "(" then functionType soft first fuel
      else if first.isMark "<" then functionType soft first fuel
      else if first.isWord "abstract" && (← aheadIs 1 fun t => t.isWord "new") then
        let _ ← take
        let _ ← take
        functionType soft first fuel
      else if first.isWord "new" && (← aheadIs 1 fun t => t.isMark "(" || t.isMark "<") then
        let _ ← take
        functionType soft first fuel
      else if (← atTypeOperator "readonly") || (← atTypeOperator "keyof") || first.isMark "?" then
        let _ ← take
        let _ ← operand soft fuel
        return .other (← fragmentFrom first)
      else if first.isWord "infer" && (← aheadIs 1 fun t => t.kind == .word && !t.newline) then
        let _ ← take
        let _ ← take
        if ← atWord "extends" then
          (do let _ ← take; let _ ← union false fuel; pure ()) <|> pure ()
        return .other (← fragmentFrom first)
      else
        let inner ← primary fuel
        postfixes soft first inner fuel

/-- A function or constructor type from its type parameters on. -/
def functionType (soft : Bool) (first : Token) : Nat → Rule TypeNode
  | 0 => failure
  | fuel + 1 => do
      skipAngles
      groupOf "("
      let _ ← mark "=>"
      result soft fuel
      return .other (← fragmentFrom first)

/-- The result of a function: a type, or a statement about an
argument. -/
def result (soft : Bool) : Nat → Rule Unit
  | 0 => failure
  | fuel + 1 => do
      let isAssertion :=
        (← atWord "asserts") && (← aheadIs 1 fun t => t.kind == .word && !t.newline)
      let isPredicate ← aheadIs 1 fun t => t.isWord "is" && !t.newline
      if isAssertion then
        let _ ← take
        let _ ← take
        if ← aheadIs 0 fun t => t.isWord "is" && !t.newline then
          let _ ← take
          let _ ← type soft fuel
      else if (← aheadIs 0 fun t => t.kind == .word) && isPredicate then
        let _ ← take
        let _ ← take
        let _ ← type soft fuel
      else
        let _ ← type soft fuel

/-- The square brackets after a type: empty for an array, with an
index for the type of a part. -/
def postfixes (soft : Bool) (first : Token) (inner : TypeNode) : Nat → Rule TypeNode
  | 0 => failure
  | fuel + 1 => do
      if ← aheadIs 0 fun t => t.isMark "[" && !(soft && t.newline) then
        let before ← leadingNodes
        let _ ← take
        let after ← leadingNodes
        if ← skipMark "]" then
          let node := .array (← fragmentFrom first) (inner :: before ++ after)
          postfixes soft first node fuel
        else
          let _ ← type false fuel
          let _ ← mark "]"
          postfixes soft first (.other (← fragmentFrom first)) fuel
      else return inner

/-- A type without operators around it. -/
def primary : Nat → Rule TypeNode
  | 0 => failure
  | fuel + 1 => do
      let some first ← peek | failure
      match first.kind with
      | .string =>
          let _ ← take
          return .literal (← fragmentFrom first) .string
      | .number =>
          let _ ← take
          return .literal (← fragmentFrom first) .number
      | .template =>
          let _ ← take
          return .template (← fragmentFrom first)
      | .word => named fuel
      | .mark =>
          if first.text == "(" then
            let _ ← take
            let before ← leadingNodes
            let inner ← type false fuel
            let after ← leadingNodes
            let _ ← mark ")"
            return .parens (← fragmentFrom first) (before ++ inner :: after)
          else if first.text == "[" || first.text == "\x7b" then
            group
            return .other (← fragmentFrom first)
          else if first.text == "-" || first.text == "+" then
            let _ ← take
            let _ ← takeIf fun t => t.kind == .number
            return .literal (← fragmentFrom first) .number
          else if first.text == "*" then
            let _ ← take
            return .other (← fragmentFrom first)
          else failure
      | _ => failure

/-- A type that starts with a word. -/
def named : Nat → Rule TypeNode
  | 0 => failure
  | fuel + 1 => do
      let first ← anyWord
      let here ← fragmentFrom first
      match first.text with
      | "null" => return .literal here .null
      | "undefined" => return .literal here .undefined
      | "true" | "false" => return .literal here .boolean
      | "this" => return .self here
      | "typeof" =>
          let query ← anyWord
          if query.text == "import" then groupOf "("
          let _ ← skipDots
          skipAngles
          return .other (← fragmentFrom first)
      | "import" =>
          groupOf "("
          let _ ← skipDots
          skipAngles
          return .other (← fragmentFrom first)
      | "unique" =>
          if ← skipWord "symbol" then return .predefined (← fragmentFrom first)
          else reference first fuel
      | text =>
          if predefinedWords.contains text then return .predefined here
          else reference first fuel

/-- A plain or dotted name with its arguments, the first word of
which was read. -/
def reference (first : Token) : Nat → Rule TypeNode
  | 0 => failure
  | fuel + 1 => do
      let dotted ← skipDots
      let name ← fragmentFrom first
      if ← atMark "<" then
        let args ← arguments fuel
        return .generic (← fragmentFrom first) name.text args
      else if dotted then return .qualified name
      else return .name name

/-- The arguments of a name, with the comments between them. -/
def arguments : Nat → Rule (List TypeNode)
  | 0 => failure
  | fuel + 1 => do
      let _ ← mark "<"
      let before ← leadingNodes
      let args ← argumentList fuel
      let _ ← mark ">"
      return before ++ args

/-- Arguments up to the closing mark. -/
def argumentList : Nat → Rule (List TypeNode)
  | 0 => failure
  | fuel + 1 => do
      let arg ← type false fuel
      let after ← leadingNodes
      if ← skipMark "," then
        let before ← leadingNodes
        if ← atMark ">" then return arg :: after ++ before
        else return arg :: after ++ before ++ (← argumentList fuel)
      else return arg :: after

end

/-- An annotation: a colon and a type. -/
def typing (soft : Bool) (fuel : Nat) : Rule Typing := do
  let _ ← mark ":"
  let before ← leadingNodes
  let node ← type soft fuel
  return .type (before ++ [node])

/-- The annotation of a result: a type, or a statement about an
argument. -/
def resultTyping (soft : Bool) (fuel : Nat) : Rule Typing := do
  let some first ← peek | failure
  let isAssertion :=
    (← aheadIs 1 fun t => t.isWord "asserts") &&
      (← aheadIs 2 fun t => t.kind == .word && !t.newline)
  let isPredicate :=
    (← aheadIs 1 fun t => t.kind == .word) && (← aheadIs 2 fun t => t.isWord "is" && !t.newline)
  if first.isMark ":" && (isAssertion || isPredicate) then
    let _ ← take
    result soft fuel
    return .predicate (← fragmentFrom first)
  else typing soft fuel

/-- A rule that applies only if a mark comes next. -/
def ifMark {α : Type} (s : String) (rule : Rule α) : Rule (Option α) := do
  if ← atMark s then return some (← rule) else return none

end Externals.Source
