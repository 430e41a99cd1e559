/-!
# `Externals.Text.Split`: cutting at single characters

Plain cuts that know nothing of brackets: at every occurrence of a
character, at line ends, and at the front of a text.
-/

set_option autoImplicit false

namespace Externals.Text

/-- The pieces between the occurrences of a character. There is
always at least one piece. -/
def splitOn (sep : Char) : List Char → List (List Char)
  | [] => [[]]
  | c :: cs =>
      if c == sep then [] :: splitOn sep cs
      else
        match splitOn sep cs with
        | [] => [[c]]
        | s :: ss => (c :: s) :: ss

/-- A text without a given front. A text that begins otherwise stays
as it is. -/
def dropFront (front cs : List Char) : List Char :=
  if front.isPrefixOf cs then cs.drop front.length else cs

/-- A line without the carriage return of its line end. -/
def dropReturn (cs : List Char) : List Char :=
  if cs.getLast? == some '\r' then cs.dropLast else cs

/-- The lines of a text from its pieces between line feeds. A carriage
return before a line feed belongs to the line end, and nothing after
the last line feed is no line. -/
def linesOfPieces : List (List Char) → List (List Char)
  | [] => []
  | [s] => if s.isEmpty then [] else [s]
  | s :: t :: ss => dropReturn s :: linesOfPieces (t :: ss)

/-- The lines of a text. -/
def lines (cs : List Char) : List (List Char) := linesOfPieces (splitOn '\n' cs)

end Externals.Text
