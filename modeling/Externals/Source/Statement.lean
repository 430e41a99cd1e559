import Externals.Source.Member

/-!
# `Externals.Source.Statement`: statements and whole files

The statements that declare something yield nodes: functions,
classes, interfaces, modules, global blocks and imports, with or
without `export` and `declare` around them. All other statements are
passed, and so are the bodies of functions and plain blocks.

When no rule applies, one token is passed over and reading goes on
with the next; the cursor remembers that this happened.
-/

set_option autoImplicit false

namespace Externals.Source

/-! ### Declarations -/

/-- A function, from its keyword on. A generator yields nothing. -/
def functionDecl (isAsync : Bool) (fuel : Nat) : Rule (List StatementNode) := do
  let _ ← word "function"
  let isGenerator ← skipMark "*"
  let name ← anyWord
  skipAngles
  let ps ← params fuel
  let returns ← ifMark ":" (resultTyping true fuel)
  if ← atMark "\x7b" then group else semicolon
  return if isGenerator then [] else [.function name.text ps returns isAsync]

/-- Pass the operand a class extends, with members, calls and indices. -/
def baseValue (fuel : Nat) : Rule Unit := do
  let some first ← peek | failure
  if first.isWord "new" then
    let _ ← take
  expressionOperand fuel
  let _ ← many do
    if (← atMark "(") || (← atMark "[") then
      group
      return some ()
    else if (← atMark ".") || (← atMark "?.") then
      let _ ← take
      if ← aheadIs 0 fun t => t.kind == .word || t.kind == .privateName then
        let _ ← take
      return some ()
    else if ← aheadIs 0 fun t => t.kind == .template || t.isMark "!" then
      let _ ← take
      return some ()
    else if ← atMark "<" then
      (do
        let _ ← arguments fuel
        let goesOn ← aheadIs 0 fun t =>
          t.kind == .template || t.isMark "(" || t.isMark "." || t.isMark "?."
        if goesOn then pure (some ()) else failure)
      <|> pure none
    else return none

/-- The further bases of a class. Yields the end of the first list of
type arguments among them. -/
def baseTail (fuel : Nat) : Rule (Option Nat) := do
  let stops ← many do
    if ← skipMark "," then
      baseValue fuel
      if ← atMark "<" then
        let _ ← arguments fuel
        return some (some (← get).stop)
      else return some none
    else return none
  return stops.findSome? id

/-- What a class extends: the text from its first base to the end of
the first type arguments, or of the base if there are none. -/
def classBase (fuel : Nat) : Rule String := do
  let _ ← word "extends"
  let some first ← peek | failure
  baseValue fuel
  let valueStop := (← get).stop
  if ← atMark "<" then
    let _ ← arguments fuel
    let stop := (← get).stop
    let _ ← baseTail fuel
    return first.textTo stop
  else
    let stop ← baseTail fuel
    return first.textTo (stop.getD valueStop)

/-- Pass the interfaces a class implements. -/
def skipImplements (fuel : Nat) : Rule Unit := do
  if ← skipWord "implements" then
    let _ ← many do
      if ← aheadIs 0 fun t => t.kind == .word then
        let _ ← type false fuel
        let _ ← skipMark ","
        return some ()
      else return none

/-- A class, from its keyword on. -/
def classDecl (fuel : Nat) : Rule (List StatementNode) := do
  let _ ← word "class"
  let name ← takeIf fun t => t.kind == .word && t.text != "extends"
  skipAngles
  let base ← if ← atWord "extends" then some <$> classBase fuel else pure none
  skipImplements fuel
  let body ← members true fuel
  return [.classDecl name.text base body]

/-- The types an interface extends, with the comments between them. -/
def interfaceBases (fuel : Nat) : Rule (List TypeNode) := do
  let found ← many do
    if ← aheadIs 0 fun t => t.kind == .word then
      let before ← leadingNodes
      let first ← anyWord
      let base ← reference first fuel
      if ← atMark "," then
        let after ← leadingNodes
        let _ ← take
        return some (before ++ base :: after)
      else return some (before ++ [base])
    else return none
  return found.flatten

/-- An interface, from its keyword on. -/
def interfaceDecl (fuel : Nat) : Rule (List StatementNode) := do
  let _ ← word "interface"
  let name ← anyWord
  skipAngles
  let bases ← if ← skipWord "extends" then interfaceBases fuel else pure []
  let body ← members false fuel
  return [.interfaceDecl name.text bases body]

/-- Pass a type declaration. -/
def typeDecl (fuel : Nat) : Rule (List StatementNode) := do
  let _ ← word "type"
  let _ ← anyWord
  skipAngles
  let _ ← mark "="
  let _ ← type true fuel
  semicolon
  return []

/-- Pass an enumeration. -/
def enumDecl : Rule (List StatementNode) := do
  let _ ← skipWord "const"
  let _ ← word "enum"
  let _ ← anyWord
  groupOf "\x7b"
  return []

/-- Pass a declaration of variables. -/
def variableDecl (fuel : Nat) : Rule (List StatementNode) := do
  let _ ← anyWord
  let _ ← many do
    if ← aheadIs 0 startsPattern then
      let _ ← patternText
      let _ ← skipMark "!"
      let _ ← ifMark ":" (typing true fuel)
      skipInitializer fuel
      if ← skipMark "," then return some () else return none
    else return none
  semicolon
  return []

/-! ### Imports -/

/-- The parts of an import specifier, by the number of its words. -/
def importSpecifier : List Token → Option ImportNode
  | [name] => some (.named name.text none)
  | [_, name] => some (.named name.text none)
  | [name, _, rename] => some (.named name.text (some rename.text))
  | [_, name, _, rename] => some (.named name.text (some rename.text))
  | _ => none

/-- The names in braces of an import. -/
def namedImports : Rule (List ImportNode) := do
  let _ ← mark "\x7b"
  let found ← many do
    if (← atMark "\x7d") || (← peek).isNone then return none
    else
      let words ← many do
        if ← aheadIs 0 fun t => t.kind == .word || t.kind == .string then return some (← take)
        else return none
      let separated ← skipMark ","
      if words.isEmpty && !separated then failure
      return some (importSpecifier words)
  let _ ← mark "\x7d"
  return found.filterMap id

/-- A whole module under a name. -/
def wholeImport : Rule (List ImportNode) := do
  let _ ← mark "*"
  let beforeAs ← leading
  let _ ← word "as"
  let beforeName ← leading
  let name ← anyWord
  return [.whole ((beforeAs ++ beforeName).map Comment.text ++ [name.text])]

/-- What an import brings in, before its source. -/
def importClause : Rule (List ImportNode) := do
  if ← atMark "*" then wholeImport
  else if ← atMark "\x7b" then namedImports
  else
    let _ ← anyWord
    if ← skipMark "," then if ← atMark "*" then wholeImport else namedImports
    else return []

/-- Pass what a module is to be read as. -/
def skipAttributes : Rule Unit := do
  if (← skipWord "with") || (← skipWord "assert") then groupOf "\x7b"
  semicolon

/-- An import that names its source. -/
def importFrom : Rule (List StatementNode) := do
  let parts ← importClause
  let _ ← word "from"
  let source ← takeIf fun t => t.kind == .string
  skipAttributes
  return [.importDecl source.text parts]

/-- An import, from its keyword on. An import of another declaration's
name yields nothing. -/
def importDecl (fuel : Nat) : Rule (List StatementNode) := do
  let _ ← word "import"
  if ← aheadIs 0 fun t => t.kind == .string then
    let source ← take
    skipAttributes
    return [.importDecl source.text []]
  else if ← aheadIs 1 fun t => t.isMark "=" then
    let _ ← take
    let _ ← take
    expression false fuel
    semicolon
    return []
  else if (← atWord "type") && (← aheadIs 2 fun t => t.isMark "=") then
    let _ ← take
    let _ ← take
    let _ ← take
    expression false fuel
    semicolon
    return []
  else
    (do
      if !((← skipWord "type") || (← skipWord "typeof")) then failure
      importFrom)
    <|> importFrom

/-! ### Exports that declare nothing -/

/-- Pass the source of an export. -/
def skipFrom : Rule Unit := do
  if ← skipWord "from" then
    let _ ← takeIf fun t => t.kind == .string
    pure ()
  skipAttributes

/-- Pass a list of exported names, or a star. -/
def exportList : Rule (List StatementNode) := do
  let _ ← skipWord "type"
  if ← skipMark "*" then
    if ← skipWord "as" then
      let _ ← take
  else groupOf "\x7b"
  skipFrom
  return []

/-! ### Statements -/

/-- The words that declarations start with. -/
def declarationWords : List String :=
  ["function", "async", "class", "abstract", "interface", "module", "namespace", "type", "enum",
   "const", "let", "var", "import", "declare", "global"]

/-- Whether a module or a namespace comes next. -/
def atModule : Rule Bool := do
  return ((← atWord "module") || (← atWord "namespace"))
    && (← aheadIs 1 fun t => t.kind == .word || t.kind == .string)

/-- The name of a module. -/
def moduleName : Rule ModuleName := do
  let some first ← peek | failure
  if first.kind == .string then
    let _ ← take
    return .quoted first.text
  else
    let _ ← anyWord
    let _ ← skipDots
    return .dotted (← fragmentFrom first).text

/-- Whether a function comes next that has a name. -/
def atNamedFunction : Rule Bool := do
  let places := if ← atWord "async" then 1 else 0
  return (← aheadIs places fun t => t.isWord "function")
    && (← aheadIs (places + 1) fun t => t.kind == .word || t.isMark "*")

/-- Whether a class comes next that has a name. -/
def atNamedClass : Rule Bool := do
  let places := if ← atWord "abstract" then 1 else 0
  return (← aheadIs places fun t => t.isWord "class")
    && (← aheadIs (places + 1) fun t => t.kind == .word && t.text != "extends")

/-- Whether an interface or a type declaration comes next. -/
def atTypeDeclaration : Rule Bool := do
  return ((← atWord "interface") && (← aheadIs 1 fun t => t.kind == .word))
    || ((← atWord "type") && (← aheadIs 1 fun t => t.kind == .word)
      && (← aheadIs 2 fun t => t.isMark "=" || t.isMark "<"))

/-- Whether an enumeration comes next. -/
def atEnum : Rule Bool := do
  let places := if ← atWord "const" then 1 else 0
  return (← aheadIs places fun t => t.isWord "enum")
    && (← aheadIs (places + 1) fun t => t.kind == .word)

/-- Pass one token over. -/
def recover : Rule (List StatementNode) := do
  let _ ← take
  modify fun c => { c with failed := true }
  return []

mutual

/-- One statement. -/
def statement : Nat → Rule (List StatementNode)
  | 0 => failure
  | fuel + 1 => do
      let some t ← peek | failure
      if t.isMark ";" then
        let _ ← take
        return []
      else if t.isMark "\x7b" then
        group
        return []
      else if t.isMark "@" then
        skipDecorators fuel
        statement fuel
      else if t.isWord "export" then exportStatement fuel
      else if t.isWord "declare"
          && (← aheadIs 1 fun t => t.kind == .word && declarationWords.contains t.text) then
        let _ ← take
        ambient fuel
      else if t.isWord "import" && !(← aheadIs 1 fun t => t.isMark "(" || t.isMark ".") then
        importDecl fuel
      else (declaration fuel) <|> (passing t fuel)

/-- A declaration that may stand behind `export` and `declare`. -/
def declaration : Nat → Rule (List StatementNode)
  | 0 => failure
  | fuel + 1 => do
      if ← atNamedFunction then
        let isAsync ← skipWord "async"
        functionDecl isAsync fuel
      else if ← atNamedClass then
        let _ ← skipWord "abstract"
        classDecl fuel
      else if ← atEnum then enumDecl
      else if ← atTypeDeclaration then
        if ← atWord "interface" then interfaceDecl fuel else typeDecl fuel
      else if ← atModule then
        let _ ← take
        let name ← moduleName
        let body ← if ← atMark "\x7b" then block fuel else pure []
        return [.moduleDecl name body]
      else if (← atWord "const") || (← atWord "let") || (← atWord "var") then variableDecl fuel
      else failure

/-- What follows `declare`. -/
def ambient : Nat → Rule (List StatementNode)
  | 0 => failure
  | fuel + 1 => do
      if (← atWord "global") && (← aheadIs 1 fun t => t.isMark "\x7b") then
        let _ ← take
        return [.globalBlock (← block fuel)]
      else if ← atWord "import" then importDecl fuel
      else if ← skipWord "declare" then ambient fuel
      else declaration fuel

/-- A statement that starts with `export`. -/
def exportStatement : Nat → Rule (List StatementNode)
  | 0 => failure
  | fuel + 1 => do
      let _ ← word "export"
      let listsTypes := (← atWord "type") && (← aheadIs 1 fun t => t.isMark "\x7b" || t.isMark "*")
      if (← atMark "*") || (← atMark "\x7b") || listsTypes then exportList
      else if ← skipMark "=" then
        expression true fuel
        semicolon
        return []
      else if (← atWord "as") && (← aheadIs 1 fun t => t.isWord "namespace") then
        let _ ← take
        let _ ← take
        let _ ← anyWord
        semicolon
        return []
      else if ← atWord "import" then
        let _ ← importDecl fuel
        return []
      else
        let isDefault ← skipWord "default"
        skipDecorators fuel
        if isDefault then
          exported fuel <|> do
            expression true fuel
            semicolon
            return []
        else exported fuel

/-- A declaration behind `export`. -/
def exported : Nat → Rule (List StatementNode)
  | 0 => failure
  | fuel + 1 => do
      if ← skipWord "declare" then ambient fuel else declaration fuel

/-- The statements in braces. -/
def block : Nat → Rule (List StatementNode)
  | 0 => failure
  | fuel + 1 => do
      let _ ← mark "\x7b"
      let found ← many do
        if (← atMark "\x7d") || (← peek).isNone then return none
        else return some (← statement fuel <|> recover)
      let _ ← mark "\x7d"
      return found.flatten

/-- Pass a statement that declares nothing and starts with a token. -/
def passing (t : Token) : Nat → Rule (List StatementNode)
  | 0 => failure
  | fuel + 1 => do
      if t.kind == .word && (← aheadIs 1 fun t => t.isMark ":") then
        let _ ← take
        let _ ← take
        let _ ← statement fuel
        return []
      else
        match t.kind, t.text with
        | .word, "if" =>
            let _ ← take
            group
            let _ ← statement fuel
            if ← skipWord "else" then
              let _ ← statement fuel
            return []
        | .word, "for" | .word, "while" | .word, "with" =>
            let _ ← take
            let _ ← skipWord "await"
            group
            let _ ← statement fuel
            return []
        | .word, "do" =>
            let _ ← take
            let _ ← statement fuel
            let _ ← word "while"
            group
            semicolon
            return []
        | .word, "try" =>
            let _ ← take
            group
            if ← skipWord "catch" then
              let _ ← ifMark "(" group
              group
            if ← skipWord "finally" then group
            return []
        | .word, "switch" =>
            let _ ← take
            group
            group
            return []
        | .word, "return" | .word, "break" | .word, "continue" | .word, "debugger" =>
            let _ ← take
            let ends ← aheadIs 0 fun t => t.newline || t.isMark ";" || t.isMark "\x7d"
            if !ends then expression true fuel <|> pure ()
            semicolon
            return []
        | _, _ =>
            expression true fuel
            semicolon
            return []

end

/-- All statements of a text, and whether something was passed over. -/
def program (source : String) : List StatementNode × Bool :=
  let tokens := tokens source
  let fuel := 32 * tokens.length + 64
  let rule : Rule (List (List StatementNode)) := many do
    if (← peek).isNone then return none
    else return some (← statement fuel <|> recover)
  match rule.run { tokens := tokens } with
  | some (found, c) => (found.flatten, c.failed || !c.tokens.isEmpty)
  | none => ([], true)

end Externals.Source
