import Externals.Source.Type

/-!
# `Externals.Source.Expression`: passing expressions

Expressions declare nothing, but where one ends decides where the
next statement or member begins. An expression alternates between
operands and operators. It ends before a closing bracket, a
semicolon or a comma it does not own, and at a line break after an
operand when no operator follows.
-/

set_option autoImplicit false

namespace Externals.Source

/-- Marks that can stand in front of an operand. -/
def prefixMarks : List String := ["!", "~", "+", "-", "++", "--", "...", "@"]

/-- Words that can stand in front of an operand. -/
def prefixWords : List String := ["typeof", "void", "delete", "await", "new", "yield", "throw"]

/-- The marks that stand between two operands. -/
def infixMarks : List String :=
  ["+", "-", "*", "/", "%", "**", "==", "===", "!=", "!==", "<", ">", "<=", "&", "|", "^", "&&",
   "||", "??", "=", "+=", "-=", "*=", "/=", "%=", "**=", "&=", "|=", "^=", "&&=", "||=", "??="]

/-- Words that can stand between operands. -/
def infixWords : List String := ["in", "instanceof"]

/-- A token that starts an operand and continues none. -/
def startsOperand (t : Token) : Bool :=
  match t.kind with
  | .word => !(infixWords.contains t.text || t.text == "as" || t.text == "satisfies") && !t.newline
  | .string | .number | .regex | .privateName => true
  | _ => false

/-- Pass the tokens of a class up to and including its body. -/
def skipClass : Rule Unit := do
  let _ ← many do
    if (← atMark "\x7b") || (← peek).isNone then return none
    else if ← aheadIs 0 Token.opens then
      group
      return some ()
    else
      let _ ← take
      return some ()
  groupOf "\x7b"

mutual

/-- Pass an expression. `commas` says whether commas belong to it. -/
def expression (commas : Bool) : Nat → Rule Unit
  | 0 => failure
  | fuel + 1 => do
      expressionOperand fuel
      expressionTail commas fuel

/-- Pass an operand with the operators before it. -/
def expressionOperand : Nat → Rule Unit
  | 0 => failure
  | fuel + 1 => do
      let some t ← peek | failure
      match t.kind with
      | .mark =>
          if prefixMarks.contains t.text then
            let _ ← take
            expressionOperand fuel
          else if t.text == "<" then
            skipAngles
            expressionOperand fuel
          else if t.text == "(" then
            group
            (arrowTail fuel) <|> pure ()
          else group
      | .word =>
          let _ ← take
          if prefixWords.contains t.text then expressionOperand fuel <|> pure ()
          else if t.text == "function" then functionTail fuel
          else if t.text == "class" then skipClass
          else if t.text == "async" then
            if ← aheadIs 0 fun t => t.isWord "function" && !t.newline then
              let _ ← take
              functionTail fuel
            else if ← aheadIs 0 fun t => t.kind == .word && !t.newline then expressionOperand fuel
            else if ← atMark "(" then
              group
              (arrowTail fuel) <|> pure ()
            else if ← atMark "<" then
              (do
                skipAngles
                groupOf "("
                arrowTail fuel) <|> pure ()
          else (arrowTail fuel) <|> pure ()
      | _ =>
          let _ ← take

/-- The rest of an arrow function after its parameters. -/
def arrowTail : Nat → Rule Unit
  | 0 => failure
  | fuel + 1 => do
      if ← atMark ":" then
        let _ ← resultTyping false fuel
      let _ ← mark "=>"
      if ← atMark "\x7b" then group
      else
        expressionOperand fuel
        expressionTail false fuel

/-- The rest of a function after its keyword. -/
def functionTail : Nat → Rule Unit
  | 0 => failure
  | fuel + 1 => do
      let _ ← skipMark "*"
      if ← aheadIs 0 fun t => t.kind == .word then
        let _ ← take
      skipAngles
      groupOf "("
      let _ ← ifMark ":" (resultTyping false fuel)
      groupOf "\x7b"

/-- Pass what follows an operand. -/
def expressionTail (commas : Bool) : Nat → Rule Unit
  | 0 => failure
  | fuel + 1 => do
      let some t ← peek | return
      match t.kind with
      | .mark =>
          if t.text == "(" || t.text == "[" then
            group
            expressionTail commas fuel
          else if t.text == "." || t.text == "?." then
            let _ ← take
            if ← aheadIs 0 fun t => t.kind == .word || t.kind == .privateName then
              let _ ← take
            expressionTail commas fuel
          else if (t.text == "!" || t.text == "++" || t.text == "--") && !t.newline then
            let _ ← take
            expressionTail commas fuel
          else if t.text == "?" then
            let _ ← take
            expression false fuel
            let _ ← mark ":"
            expression commas fuel
          else if t.text == "<" then
            (do
              let _ ← arguments fuel
              if ← aheadIs 0 startsOperand then failure
              expressionTail commas fuel)
            <|> (do
              let _ ← take
              expression commas fuel)
          else if t.text == "," then
            if commas then
              let _ ← take
              expression commas fuel
          else if infixMarks.contains t.text then
            let _ ← take
            let _ ← many do
              if ← aheadIs 0 fun t => t.isMark ">" || t.isMark "=" then
                let _ ← take
                return some ()
              else return none
            expression commas fuel
      | .word =>
          if infixWords.contains t.text then
            let _ ← take
            expression commas fuel
          else if (t.text == "as" || t.text == "satisfies") && !t.newline then
            let _ ← take
            let _ ← type false fuel
            expressionTail commas fuel
      | .template =>
          let _ ← take
          expressionTail commas fuel
      | _ => return

end

/-- Pass the end of a statement: a semicolon, if there is one. -/
def semicolon : Rule Unit := do
  let _ ← skipMark ";"

/-- Pass the value a parameter, a field or a variable starts with. -/
def skipInitializer (fuel : Nat) : Rule Unit := do
  if ← skipMark "=" then expression false fuel

/-- Pass decorators. -/
def skipDecorators (fuel : Nat) : Rule Unit := do
  let _ ← many do
    if ← skipMark "@" then
      if ← atMark "(" then group
      else
        let _ ← anyWord
        let _ ← skipDots
        if ← atMark "<" then
          let _ ← arguments fuel
        if ← aheadIs 0 fun t => t.isMark "(" then group
      return some ()
    else return none

end Externals.Source
