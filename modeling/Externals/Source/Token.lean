/-!
# `Externals.Source.Token`: the tokens of a declaration file

A source text is read as words, private names, strings, templates,
numbers, regular expressions and marks. Every token knows where it
starts, the source from there on, whether a line break stands before
it, and which comments do.

A token is found by its *extent*: the number of characters that
belong to it after its first one. So every token has at least one
character, and reading ends with the text.

The mark `>` is always a token of its own, because type arguments
close with as many of them as were opened.
-/

set_option autoImplicit false

namespace Externals.Source

/-! ### Character classes -/

/-- A line break, as far as the end of a statement is concerned. -/
def isBreak (c : Char) : Bool := c == '\n' || c.toNat == 0x2028 || c.toNat == 0x2029

/-- A character that stands between tokens. The byte order mark and
the zero-width space count. -/
def isSpace (c : Char) : Bool :=
  let n := c.toNat
  (9 ≤ n && n ≤ 13) || n == 0x20 || n == 0xA0 || n == 0x1680 || (0x2000 ≤ n && n ≤ 0x200B)
    || n == 0x2028 || n == 0x2029 || n == 0x202F || n == 0x205F || n == 0x2060 || n == 0x3000
    || n == 0xFEFF

/-- A decimal digit. -/
def isDecimal (c : Char) : Bool := '0' ≤ c && c ≤ '9'

/-- The ASCII characters that are no part of a name. -/
def markChars : List Char := ":;`\"'@#.,|^&<=>+-*/\\%?!~()[]\x7b\x7d".toList

/-- Every character may start a name unless it is a space, a control
character, a digit or a mark. -/
def isNameStart (c : Char) : Bool :=
  0x20 ≤ c.toNat && !isSpace c && !isDecimal c && !markChars.contains c

/-- What a name can go on with. -/
def isNamePart (c : Char) : Bool := isNameStart c || isDecimal c

/-! ### Extents -/

/-- The characters up to and including the quote that ends a string.
A backslash takes the next character with it. -/
def stringExtent (quote : Char) : List Char → Nat
  | [] => 0
  | '\\' :: _ :: cs => stringExtent quote cs + 2
  | c :: cs => if c == quote then 1 else stringExtent quote cs + 1

/-- What a position inside a template belongs to: the template
itself, a substitution in braces, or a string in a substitution. -/
inductive Nesting where
  | template
  | braces
  | string (quote : Char)
deriving DecidableEq

/-- The characters of a template up to the end of the outermost
nesting. -/
def templateExtent : List Nesting → List Char → Nat
  | [], _ => 0
  | _, [] => 0
  | .template :: outer, '\\' :: _ :: cs => templateExtent (.template :: outer) cs + 2
  | .template :: outer, '$' :: '\x7b' :: cs =>
      templateExtent (.braces :: .template :: outer) cs + 2
  | .template :: outer, c :: cs =>
      templateExtent (if c == '\x60' then outer else .template :: outer) cs + 1
  | .string quote :: outer, '\\' :: _ :: cs => templateExtent (.string quote :: outer) cs + 2
  | .string quote :: outer, c :: cs =>
      templateExtent (if c == quote then outer else .string quote :: outer) cs + 1
  | .braces :: outer, c :: cs =>
      templateExtent
        (if c == '\x7d' then outer
         else if c == '\x7b' then .braces :: .braces :: outer
         else if c == '\x60' then .template :: .braces :: outer
         else if c == '\x22' || c == '\x27' then .string c :: .braces :: outer
         else .braces :: outer) cs + 1

/-- The characters of a block comment up to and including its end. -/
def blockCommentExtent : List Char → Nat
  | [] => 0
  | '*' :: '/' :: _ => 2
  | _ :: cs => blockCommentExtent cs + 1

/-- The characters of the line up to its break. -/
def lineExtent (cs : List Char) : Nat :=
  (cs.takeWhile fun c => !isBreak c && c != '\r').length

/-- A digit of a number in any base, or a separator between digits. -/
def isNumberPart (c : Char) : Bool := c.isAlphanum || c == '_'

/-- The letter after a zero that announces another base than ten, or
ends a big number. -/
def isBaseLetter (c : Char) : Bool := c.isAlpha && c != 'e' && c != 'E'

/-- The characters of a number after its first one: digits, letters
for a base, an exponent or a big number, one point, and the sign of
an exponent. `decimal` says whether the base is ten, `point` whether
a point may still come, `sign` whether a sign may stand here. -/
def numberExtent (decimal point sign : Bool) : List Char → Nat
  | [] => 0
  | c :: cs =>
      if c == '.' && point then numberExtent decimal false false cs + 1
      else if (c == '+' || c == '-') && sign then numberExtent decimal false false cs + 1
      else if isNumberPart c then
        let exponent := decimal && (c == 'e' || c == 'E')
        numberExtent decimal (point && !exponent) exponent cs + 1
      else 0

/-- The characters of a regular expression up to its closing slash,
if it closes on its line. `inClass` says whether a slash is inside
square brackets. -/
def regexExtent (inClass : Bool) : List Char → Option Nat
  | [] => none
  | '\\' :: _ :: cs => (regexExtent inClass cs).map (· + 2)
  | c :: cs =>
      if isBreak c then none
      else if c == '/' && !inClass then some 1
      else (regexExtent ((inClass || c == '[') && c != ']') cs).map (· + 1)

/-- The marks of more than one character, the longer ones first. -/
def longMarks : List (List Char) :=
  ["...", "===", "!==", "**=", "&&=", "||=", "??=", "=>", "==", "!=", "<=", "++", "--", "&&", "||",
   "??", "?.", "+=", "-=", "*=", "/=", "%=", "&=", "|=", "^=", "**"].map String.toList

/-- The length of a mark. An optional chain is none before a digit. -/
def markLength (cs : List Char) : Nat :=
  match longMarks.find? fun m => m.isPrefixOf cs with
  | some m =>
      if m == ['?', '.'] && ((cs.drop 2).head?.map isDecimal).getD false then 1 else m.length
  | none => 1

/-! ### Tokens -/

/-- The kinds of tokens. -/
inductive TokenKind where
  | word
  | privateName
  | string
  | template
  | number
  | regex
  | mark
deriving DecidableEq, Inhabited

/-- A comment, with its delimiters. -/
structure Comment where
  start : Nat
  text : String
deriving DecidableEq, Inhabited

/-- A token of a source text. -/
structure Token where
  kind : TokenKind
  text : String
  /-- How many characters stand before the token. -/
  start : Nat
  /-- The source from the token on. -/
  tail : List Char
  /-- A line break stands between the token and the one before. -/
  newline : Bool
  /-- The comments between the token and the one before. -/
  comments : List Comment
deriving Inhabited

namespace Token

/-- Where the token ends. -/
def stop (t : Token) : Nat := t.start + t.text.length

/-- The token is this mark. -/
def isMark (t : Token) (s : String) : Bool := t.kind == .mark && t.text == s

/-- The token is this word. -/
def isWord (t : Token) (s : String) : Bool := t.kind == .word && t.text == s

/-- The source from the token up to a position. -/
def textTo (t : Token) (stop : Nat) : String := String.ofList (t.tail.take (stop - t.start))

end Token

/-- The words an expression goes on after. -/
def operandWords : List String :=
  ["return", "typeof", "case", "do", "else", "in", "instanceof", "new", "void", "delete", "throw",
   "of", "await", "yield"]

/-- Whether a slash after a token starts a regular expression. -/
def regexMayFollow : Option Token → Bool
  | none => true
  | some t =>
      match t.kind with
      | .mark => !(t.text == ")" || t.text == "]" || t.text == "\x7d")
      | .word => operandWords.contains t.text
      | _ => false

/-- The kind and the extent of the token that starts with a character
after which the given characters follow. -/
def lexeme (before : Option Token) (c : Char) (cs : List Char) : TokenKind × Nat :=
  if isNameStart c then (.word, (cs.takeWhile isNamePart).length)
  else if c == '#' && (cs.head?.map isNameStart).getD false then
    (.privateName, (cs.takeWhile isNamePart).length)
  else if c == '\x22' || c == '\x27' then (.string, stringExtent c cs)
  else if c == '\x60' then (.template, templateExtent [.template] cs)
  else if isDecimal c then
    let decimal := !(c == '0' && (cs.head?.map isBaseLetter).getD false)
    (.number, numberExtent decimal decimal false cs)
  else if c == '.' && (cs.head?.map isDecimal).getD false then
    (.number, numberExtent true false false cs)
  else
    match if c == '/' && regexMayFollow before then regexExtent false cs else none with
    | some n => (.regex, n + ((cs.drop n).takeWhile isNamePart).length)
    | none => (.mark, markLength (c :: cs) - 1)

/-- What stands before the next token: whether a line break does, and
the comments. -/
structure Gap where
  newline : Bool := false
  comments : List Comment := []

/-- The extent of the comment that starts with a character, if one
does. -/
def commentExtent? (c : Char) (cs : List Char) : Option Nat :=
  if c == '/' && cs.head? == some '/' then some (lineExtent cs)
  else if c == '/' && cs.head? == some '*' then some (1 + blockCommentExtent cs.tail)
  else none

/-- The tokens of a text, from a position on and after a token and a
gap. A first line that starts with `#!` counts as a gap. -/
def tokensFrom (position : Nat) (before : Option Token) (gap : Gap) : List Char → List Token
  | [] => []
  | c :: cs =>
      if isSpace c then
        tokensFrom (position + 1) before { gap with newline := gap.newline || isBreak c } cs
      else if before.isNone && c == '#' && cs.head? == some '!' then
        tokensFrom (position + 1 + lineExtent cs) before gap (cs.drop (lineExtent cs))
      else
        match commentExtent? c cs with
        | some n =>
            let text := c :: cs.take n
            let comment : Comment := ⟨position, String.ofList text⟩
            tokensFrom (position + 1 + n) before
              ⟨gap.newline || text.any isBreak, gap.comments ++ [comment]⟩ (cs.drop n)
        | none =>
            let (kind, n) := lexeme before c cs
            let token : Token :=
              ⟨kind, String.ofList (c :: cs.take n), position, c :: cs, gap.newline, gap.comments⟩
            token :: tokensFrom (position + 1 + n) (some token) {} (cs.drop n)
termination_by cs => cs.length
decreasing_by all_goals simp only [List.length_cons, List.length_drop]; omega

/-- The tokens of a text. -/
def tokens (source : String) : List Token := tokensFrom 0 none {} source.toList

end Externals.Source
