import Externals.Toml.Scalar

/-!
# `Externals.Toml.Quoted`: the four kinds of strings

Strings in double quotes have escapes, strings in single quotes do
not. With one quote on each side a string stays on its line; with
three it may go over lines, loses a line break right after the
opening quotes, and may end in one or two further quotes.

Each function reads from behind the opening quotes and yields the
characters of the string and what follows it.
-/

set_option autoImplicit false

namespace Externals.Toml

/-- A character that stands for itself in a string or a comment: any
but the control characters, of which only the tab is one. -/
def isPlain (c : Char) : Bool := c == '\t' || (0x20 ≤ c.toNat && c.toNat != 0x7F)

/-- The number that hexadecimal digits write. -/
def hex? (cs : List Char) : Option Nat := if cs.all isHexDigit then some (natOf 16 cs) else none

/-- The character of a number, if it is a scalar value of Unicode. -/
def scalarValue? (n : Nat) : Option Char := if n.isValidChar then some (Char.ofNat n) else none

/-- The character an escape of a single letter stands for. -/
def shortEscape? (c : Char) : Option Char :=
  if c == 'b' then some (Char.ofNat 8)
  else if c == 't' then some '\t'
  else if c == 'n' then some '\n'
  else if c == 'f' then some (Char.ofNat 12)
  else if c == 'r' then some '\r'
  else if c == '\x22' then some '\x22'
  else if c == '\\' then some '\\'
  else none

/-- What was scanned, and the rest of the text, if scanning succeeded. -/
abbrev Scanned := Option (List Char × List Char)

/-- One more character in front of what was read. -/
def Scanned.cons (c : Option Char) (s : Scanned) : Scanned := do
  let c ← c
  let (cs, rest) ← s
  return (c :: cs, rest)

/-- A string in double quotes. -/
def basicString : List Char → Scanned
  | [] => none
  | '\x22' :: rest => some ([], rest)
  | '\\' :: 'u' :: a :: b :: c :: d :: cs =>
      Scanned.cons (hex? [a, b, c, d] >>= scalarValue?) (basicString cs)
  | '\\' :: 'U' :: a :: b :: c :: d :: e :: f :: g :: h :: cs =>
      Scanned.cons (hex? [a, b, c, d, e, f, g, h] >>= scalarValue?) (basicString cs)
  | '\\' :: c :: cs => Scanned.cons (shortEscape? c) (basicString cs)
  | c :: cs => if isPlain c && c != '\\' then Scanned.cons (some c) (basicString cs) else none

/-- A string in single quotes. -/
def literalString : List Char → Scanned
  | [] => none
  | c :: cs =>
      if c == '\x27' then some ([], cs)
      else if isPlain c then Scanned.cons (some c) (literalString cs)
      else none

/-- Text without a line break at its start. -/
def dropBreak : List Char → List Char
  | '\n' :: cs => cs
  | '\r' :: '\n' :: cs => cs
  | cs => cs

/-- What follows the quotes that end a string over lines: up to two of
them belong to the string. -/
def closing (quote : Char) (cs : List Char) : Scanned :=
  let quotes := (cs.takeWhile (· == quote)).length
  let kept := min (quotes - 3) 2
  some (List.replicate kept quote, cs.drop (kept + 3))

/-- Three quotes come next. -/
def atClosing (quote : Char) (cs : List Char) : Bool := [quote, quote, quote].isPrefixOf cs

/-- A string in three single quotes, after its first line break. -/
def literalLines : List Char → Scanned
  | [] => none
  | '\r' :: '\n' :: cs => Scanned.cons (some '\n') (literalLines cs)
  | c :: cs =>
      if atClosing '\x27' (c :: cs) then closing '\x27' (c :: cs)
      else if isPlain c || c == '\n' then Scanned.cons (some c) (literalLines cs)
      else none

/-- Where reading a string in three double quotes is: in its text, in
the blanks behind a backslash, or in the blank lines after one. -/
inductive Fold where
  | text
  | blanks
  | lines
deriving DecidableEq

/-- A string in three double quotes, after its first line break. A
backslash at the end of a line takes the blanks and line breaks that
follow with it. -/
def basicLines (fold : Fold) : List Char → Scanned
  | [] => none
  | '\r' :: '\n' :: cs =>
      match fold with
      | .text => Scanned.cons (some '\n') (basicLines .text cs)
      | _ => basicLines .lines cs
  | '\\' :: 'u' :: a :: b :: c :: d :: cs =>
      if fold == .blanks then none
      else Scanned.cons (hex? [a, b, c, d] >>= scalarValue?) (basicLines .text cs)
  | '\\' :: 'U' :: a :: b :: c :: d :: e :: f :: g :: h :: cs =>
      if fold == .blanks then none
      else Scanned.cons (hex? [a, b, c, d, e, f, g, h] >>= scalarValue?) (basicLines .text cs)
  | '\\' :: c :: cs =>
      if fold == .blanks then none
      else if c == ' ' || c == '\t' then basicLines .blanks cs
      else if c == '\n' then basicLines .lines cs
      else if c == '\r' then if cs.head? == some '\n' then basicLines .blanks cs else none
      else Scanned.cons (shortEscape? c) (basicLines .text cs)
  | c :: cs =>
      if fold != .text && (c == ' ' || c == '\t') then basicLines fold cs
      else if fold != .text && c == '\n' then basicLines .lines cs
      else if fold == .blanks then none
      else if atClosing '\x22' (c :: cs) then closing '\x22' (c :: cs)
      else if (isPlain c && c != '\\') || c == '\n' then Scanned.cons (some c) (basicLines .text cs)
      else none

/-- The string that a text starts with, and what follows it. -/
def quoted? (cs : List Char) : Scanned :=
  if atClosing '\x22' cs then basicLines .text (dropBreak (cs.drop 3))
  else if atClosing '\x27' cs then literalLines (dropBreak (cs.drop 3))
  else
    match cs with
    | '\x22' :: rest => basicString rest
    | '\x27' :: rest => literalString rest
    | _ => none

end Externals.Toml
