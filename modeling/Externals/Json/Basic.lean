/-!
# `Externals.Json.Basic`: JSON values and their pretty form

A JSON value keeps the fields of an object in the order they were
written, because the printed form shows that order.

The pretty form puts each element of an array and each field of an
object on a line of its own, two spaces deeper than the bracket that
holds it. An empty array is `[]` and an empty object is an empty pair
of braces. Strings escape the quote, the backslash and the control
characters, those with a short escape by it and the others by four
hexadecimal digits; all other characters stand for themselves.
-/

set_option autoImplicit false

namespace Externals

/-- A value of the dump. Objects keep the order of their fields. -/
inductive Json where
  | null
  | bool (b : Bool)
  | num (n : Nat)
  | str (s : String)
  | arr (items : List Json)
  | obj (fields : List (String × Json))
deriving BEq, Repr, Inhabited

namespace Json

/-- A digit of an escaped character, in lower case. -/
def hexDigit (n : Nat) : Char := (Nat.digitChar n)

/-- How one character of a string is written. -/
def escapeChar (c : Char) : List Char :=
  if c == '\x22' then ['\\', '\x22']
  else if c == '\\' then ['\\', '\\']
  else if c == '\n' then ['\\', 'n']
  else if c == '\r' then ['\\', 'r']
  else if c == '\t' then ['\\', 't']
  else if c.toNat == 8 then ['\\', 'b']
  else if c.toNat == 12 then ['\\', 'f']
  else if c.toNat < 32 then ['\\', 'u', '0', '0', hexDigit (c.toNat / 16), hexDigit (c.toNat % 16)]
  else [c]

/-- A string with its quotes. -/
def quote (s : String) : List Char := '\x22' :: s.toList.flatMap escapeChar ++ ['\x22']

/-- A line break and the blanks that open a line of the given level. -/
def newline (level : Nat) : List Char := '\n' :: List.replicate (2 * level) ' '

mutual

/-- The pretty form of a value whose bracket opens at a level. -/
def prettyAt (level : Nat) : Json → List Char
  | null => "null".toList
  | bool true => "true".toList
  | bool false => "false".toList
  | num n => (toString n).toList
  | str s => quote s
  | arr [] => ['[', ']']
  | arr (item :: items) =>
      '[' :: newline (level + 1) ++ prettyAt (level + 1) item ++ prettyItems level items
        ++ newline level ++ [']']
  | obj [] => ['\x7b', '\x7d']
  | obj ((key, value) :: fields) =>
      '\x7b' :: newline (level + 1) ++ quote key ++ [':', ' '] ++ prettyAt (level + 1) value
        ++ prettyFields level fields ++ newline level ++ ['\x7d']

/-- The elements after the first, each on a line of its own. -/
def prettyItems (level : Nat) : List Json → List Char
  | [] => []
  | item :: items =>
      ',' :: newline (level + 1) ++ prettyAt (level + 1) item ++ prettyItems level items

/-- The fields after the first, each on a line of its own. -/
def prettyFields (level : Nat) : List (String × Json) → List Char
  | [] => []
  | (key, value) :: fields =>
      ',' :: newline (level + 1) ++ quote key ++ [':', ' '] ++ prettyAt (level + 1) value
        ++ prettyFields level fields

end

/-- The pretty form. -/
def pretty (j : Json) : String := String.ofList (prettyAt 0 j)

end Json

end Externals
