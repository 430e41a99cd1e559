import Externals.Text.Split

/-!
# `Externals.Files.Glob`: file name patterns

A pattern is matched part by part against the parts of a path. In a
part, `*` stands for any characters, `?` for one, and square brackets
for one of a class or, after `!`, for one outside of it. The part
`**` stands for any number of directories.

A pattern that is not well formed is refused, with the position and
the reason.
-/

set_option autoImplicit false

namespace Externals

namespace Glob

/-- A member of a class: a character or a range. -/
inductive ClassItem where
  | char (c : Char)
  | range (first last : Char)
deriving DecidableEq, Inhabited

/-- What one place of a pattern stands for. -/
inductive Wildcard where
  | char (c : Char)
  | anyChar
  | anyChars
  | anyDirs
  | within (items : List ClassItem)
  | outside (items : List ClassItem)
deriving DecidableEq, Inhabited

/-- One part of a pattern. -/
abbrev Part := List Wildcard

/-- Why a pattern is refused. -/
inductive Reason where
  | wildcards
  | recursive
  | range
deriving DecidableEq, Inhabited

/-- What is wrong with a pattern, and near which character. -/
structure Error where
  position : Nat
  reason : Reason
deriving DecidableEq, Inhabited

/-- The reason in words. -/
def Reason.message : Reason → String
  | wildcards => "wildcards are either regular `*` or recursive `**`"
  | recursive => "recursive wildcards must form a single path component"
  | range => "invalid range pattern"

/-- The whole text of the error. -/
def Error.message (e : Error) : String :=
  "Pattern syntax error near position " ++ toString e.position ++ ": " ++ e.reason.message

/-! ### Reading patterns -/

/-- The members of a class. -/
def classItems : List Char → List ClassItem
  | a :: '-' :: b :: cs => .range a b :: classItems cs
  | c :: cs => .char c :: classItems cs
  | [] => []

/-- A class from behind its opening bracket: the characters in it,
whose first may be a closing bracket, and those after it. -/
def cutClass : List Char → Option (List Char × List Char)
  | [] => none
  | first :: cs =>
      let body := cs.takeWhile (· != ']')
      match cs.dropWhile (· != ']') with
      | _ :: rest => some (first :: body, rest)
      | [] => none

/-- A class from behind its opening bracket, and what follows it. -/
def class? (cs : List Char) : Option (Wildcard × List Char) :=
  match cs with
  | '!' :: cs => (cutClass cs).map fun (body, rest) => (.outside (classItems body), rest)
  | cs => (cutClass cs).map fun (body, rest) => (.within (classItems body), rest)

/-- Read a pattern from a position on. `before` is the character
before it. -/
def wildcardsFrom (position : Nat) (before : Option Char) :
    Nat → List Char → Except Error (List Wildcard)
  | 0, _ => .ok []
  | _, [] => .ok []
  | fuel + 1, c :: cs =>
      if c == '?' then do
        let rest ← wildcardsFrom (position + 1) (some c) fuel cs
        return .anyChar :: rest
      else if c == '*' then
        let stars := (cs.takeWhile (· == '*')).length + 1
        let after := cs.drop (stars - 1)
        if 2 < stars then .error ⟨position + 2, .wildcards⟩
        else if stars == 2 then
          if before.isSome && before != some '/' then .error ⟨position - 1, .recursive⟩
          else
            match after with
            | [] => .ok [.anyDirs]
            | '/' :: after => do
                let rest ← wildcardsFrom (position + 3) (some '/') fuel after
                return .anyDirs :: rest
            | _ => .error ⟨position + 2, .recursive⟩
        else do
          let rest ← wildcardsFrom (position + 1) (some c) fuel cs
          return .anyChars :: rest
      else if c == '[' then
        match class? cs with
        | some (w, after) => do
            let taken := cs.length - after.length
            let rest ← wildcardsFrom (position + 1 + taken) (some ']') fuel after
            return w :: rest
        | none => .error ⟨position, .range⟩
      else do
        let rest ← wildcardsFrom (position + 1) (some c) fuel cs
        return .char c :: rest

/-- The wildcards of a pattern or of a part of one. -/
def wildcards (cs : List Char) : Except Error (List Wildcard) :=
  wildcardsFrom 0 none (cs.length + 1) cs

/-! ### Matching -/

/-- A character belongs to an item of a class. -/
def ClassItem.holds (c : Char) : ClassItem → Bool
  | char a => c == a
  | range a b => a ≤ c && c ≤ b

/-- A run of characters: every way to skip some is tried. -/
def anyTail (rest : List Char → Bool) : List Char → Bool
  | [] => rest []
  | c :: cs => rest (c :: cs) || anyTail rest cs

/-- A part matches a name. -/
def accepts : Part → List Char → Bool
  | [], cs => cs.isEmpty
  | .anyChars :: part, cs => anyTail (accepts part) cs
  | .anyDirs :: part, cs => anyTail (accepts part) cs
  | .char a :: part, c :: cs => a == c && accepts part cs
  | .anyChar :: part, _ :: cs => accepts part cs
  | .within items :: part, c :: cs => items.any (ClassItem.holds c) && accepts part cs
  | .outside items :: part, c :: cs => !items.any (ClassItem.holds c) && accepts part cs
  | _ :: _, [] => false

/-- The text of a part without wildcards. -/
def literal? : Part → Option String
  | [] => some ""
  | .char c :: part => (literal? part).map fun s => String.ofList (c :: s.toList)
  | _ => none

/-- The part for any number of directories. -/
def isRecursive (part : Part) : Bool := part.contains .anyDirs

/-- The pieces of a pattern between slashes; a slash at the end opens
no further piece. -/
def pieces (cs : List Char) : List (List Char) :=
  let all := Text.splitOn '/' cs
  if all.getLast? == some [] then all.dropLast else all

end Glob

/-- A pattern, part by part. -/
structure Glob where
  absolute : Bool
  parts : List Glob.Part
  /-- The pattern ends in a slash and asks for directories. -/
  directories : Bool
deriving Inhabited

namespace Glob

/-- The pattern a text writes. The text is checked as a whole and
then part by part. -/
def ofString (text : String) : Except Error Glob := do
  let cs := text.toList
  let _ ← wildcards cs
  let absolute := cs.head? == some '/'
  let parts ← (pieces (if absolute then cs.tail else cs)).mapM wildcards
  return ⟨absolute, parts, cs.getLast? == some '/'⟩

/-- Whether a text is taken for a pattern at all. -/
def isPattern (text : String) : Bool := text.toList.any fun c => c == '*' || c == '?'

end Glob

end Externals
