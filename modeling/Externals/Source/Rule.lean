import Externals.Source.Token
import Externals.Source.Tree

/-!
# `Externals.Source.Rule`: rules over tokens

A rule of the grammar reads tokens from a cursor and yields a value,
or it does not apply and leaves the cursor alone. The cursor also
knows where the last token ended, so that a node can be cut out of
the source, and whether something had to be passed over.

Brackets whose inside does not matter are passed in one step, up to
the bracket that closes them.
-/

set_option autoImplicit false

namespace Externals.Source

/-- Where a rule reads. -/
structure Cursor where
  tokens : List Token
  /-- Where the last token read ends. -/
  stop : Nat := 0
  /-- Some token was passed over because no rule applied. -/
  failed : Bool := false
deriving Inhabited

/-- A rule of the grammar. -/
abbrev Rule := StateT Cursor Option

/-! ### Looking ahead -/

/-- The token a number of places ahead. -/
def ahead (places : Nat) : Rule (Option Token) := do return (← get).tokens[places]?

/-- The next token, which stays where it is. -/
def peek : Rule (Option Token) := ahead 0

/-- Whether the token some places ahead has a property. -/
def aheadIs (places : Nat) (p : Token → Bool) : Rule Bool := do
  return ((← ahead places).map p).getD false

/-- The next token is a mark. -/
def atMark (s : String) : Rule Bool := aheadIs 0 fun t => t.isMark s

/-- The next token is a word. -/
def atWord (s : String) : Rule Bool := aheadIs 0 fun t => t.isWord s

/-- The comments before the next token. -/
def leading : Rule (List Comment) := do return ((← peek).map Token.comments).getD []

/-- The comments before the next token, as nodes. -/
def leadingNodes : Rule (List TypeNode) := do
  return (← leading).map fun c => .comment ⟨c.start, c.text⟩

/-! ### Taking tokens -/

/-- The next token, and go on behind it. At the end of the tokens it
fails. -/
def take : Rule Token := do
  let c ← get
  match c.tokens with
  | t :: ts =>
      set { c with tokens := ts, stop := t.stop }
      return t
  | [] => failure

/-- The next token if it has a property. -/
def takeIf (p : Token → Bool) : Rule Token := do
  if ← aheadIs 0 p then take else failure

/-- A mark, or fail. -/
def mark (s : String) : Rule Token := takeIf fun t => t.isMark s

/-- A word, or fail. -/
def word (s : String) : Rule Token := takeIf fun t => t.isWord s

/-- Some word, or fail. -/
def anyWord : Rule Token := takeIf fun t => t.kind == .word

/-- Take the mark if it comes next. -/
def skipMark (s : String) : Rule Bool := do
  if ← atMark s then
    let _ ← take
    return true
  else return false

/-- Take the word if it comes next. -/
def skipWord (s : String) : Rule Bool := do
  if ← atWord s then
    let _ ← take
    return true
  else return false

/-- The source from a token to the last token read. -/
def fragmentFrom (first : Token) : Rule Fragment := do
  return ⟨first.start, first.textTo (← get).stop⟩

/-! ### Brackets -/

/-- A bracket that opens. Angle brackets are not among them, as they may
compare. -/
def Token.opens (t : Token) : Bool := t.isMark "(" || t.isMark "[" || t.isMark "\x7b"

/-- A bracket that closes. -/
def Token.closes (t : Token) : Bool := t.isMark ")" || t.isMark "]" || t.isMark "\x7d"

/-- The cursor behind the bracket that closes the given number of
open ones. -/
def Cursor.afterGroup (c : Cursor) (depth : Nat) : List Token → Option Cursor
  | [] => none
  | t :: ts =>
      if t.opens then c.afterGroup (depth + 1) ts
      else if t.closes then
        if depth ≤ 1 then some { c with tokens := ts, stop := t.stop }
        else c.afterGroup (depth - 1) ts
      else c.afterGroup depth ts

/-- The cursor behind the `>` that closes the given number of open
angle brackets. Inside other brackets none is counted. -/
def Cursor.afterAngles (c : Cursor) (depth angles : Nat) : List Token → Option Cursor
  | [] => none
  | t :: ts =>
      if t.opens then c.afterAngles (depth + 1) angles ts
      else if t.closes then if depth == 0 then none else c.afterAngles (depth - 1) angles ts
      else if depth != 0 then c.afterAngles depth angles ts
      else if t.isMark "<" then c.afterAngles depth (angles + 1) ts
      else if t.isMark ">" then
        if angles ≤ 1 then some { c with tokens := ts, stop := t.stop }
        else c.afterAngles depth (angles - 1) ts
      else c.afterAngles depth angles ts

/-- Pass a bracket that comes next, with everything in it. -/
def group : Rule Unit := do
  let c ← get
  match c.tokens with
  | t :: ts =>
      match if t.opens then c.afterGroup 1 ts else none with
      | some c => set c
      | none => failure
  | [] => failure

/-- Pass a bracket of the given kind. -/
def groupOf (s : String) : Rule Unit := do
  if ← atMark s then group else failure

/-- Pass a list of type parameters or arguments, if one comes next. -/
def skipAngles : Rule Unit := do
  if ← atMark "<" then
    let c ← get
    match c.afterAngles 0 0 c.tokens with
    | some c => set c
    | none => failure

/-- Whether a bracket comes next behind which a mark stands. -/
def groupBefore (s : String) : Rule Bool := do
  let c ← get
  match c.tokens with
  | t :: ts =>
      match if t.opens then c.afterGroup 1 ts else none with
      | some after => return (after.tokens.head?.map fun t => t.isMark s).getD false
      | none => return false
  | [] => return false

/-! ### Repetition -/

/-- Apply a rule as often as it yields something, at most the given
number of times. -/
def manyUpTo {α : Type} (rule : Rule (Option α)) : Nat → Rule (List α)
  | 0 => return []
  | n + 1 => do
      match ← rule with
      | some a => return a :: (← manyUpTo rule n)
      | none => return []

/-- Apply a rule as often as it yields something. Every rule that
yields something takes a token, so the number of tokens is enough. -/
def many {α : Type} (rule : Rule (Option α)) : Rule (List α) := do
  manyUpTo rule ((← get).tokens.length + 1)

end Externals.Source
