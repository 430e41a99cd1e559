import Externals.Toml.Quoted

/-!
# `Externals.Toml.Document`: reading TOML documents

A document is a sequence of lines: blank ones, comments, keys with
values, and headers that say which table the keys after them belong
to. `parse?` yields the entries of the document's table, or nothing
if the text is no valid document.

Arrays and tables in braces may be nested only so deep, and dotted
keys may be only so long.
-/

set_option autoImplicit false

namespace Externals.Toml

/-- A step of reading: from the text that is left. -/
abbrev Scan := StateT (List Char) Option

/-- The depth that values and keys stay below. -/
def depthLimit : Nat := 80

/-- Spacing within a line. -/
def isSpacing (c : Char) : Bool := c == ' ' || c == '\t'

/-- Go on behind the spacing. -/
def skipSpacing : Scan Unit := modify fun cs => cs.dropWhile isSpacing

/-- Whether a character comes next. -/
def at? (c : Char) : Scan Bool := do return (← get).head? == some c

/-- Take a character. -/
def char (c : Char) : Scan Unit := do
  if ← at? c then modify List.tail else failure

/-- Take a character if it comes next. -/
def skipChar (c : Char) : Scan Bool := do
  if ← at? c then
    modify List.tail
    return true
  else return false

/-- Take the end of a line: spacing, a comment, and a line break or
the end of the text. -/
def lineEnd : Scan Unit := do
  skipSpacing
  if ← skipChar '#' then modify fun cs => cs.dropWhile isPlain
  match ← get with
  | [] => return
  | '\n' :: cs => set cs
  | '\r' :: '\n' :: cs => set cs
  | _ => failure

/-- A text from its first character that is no spacing, line break or
part of a comment. -/
def dropGaps (inComment : Bool) : List Char → List Char
  | [] => []
  | '\r' :: '\n' :: cs => dropGaps false cs
  | c :: cs =>
      if c == '\n' then dropGaps false cs
      else if inComment then if isPlain c then dropGaps true cs else c :: cs
      else if isSpacing c then dropGaps false cs
      else if c == '#' then dropGaps true cs
      else c :: cs

/-- Go on behind spacing, ends of lines and comments. -/
def skipGaps : Scan Unit := modify (dropGaps false)

/-! ### Keys -/

/-- What a key without quotes can be made of. -/
def isBareKeyChar (c : Char) : Bool := c.isAlphanum || c == '-' || c == '_'

/-- A string read from the text. -/
def quoted : Scan String := do
  match quoted? (← get) with
  | some (cs, rest) =>
      set rest
      return String.ofList cs
  | none => failure

/-- One part of a key. -/
def keyPart : Scan String := do
  let cs ← get
  if atClosing '\x22' cs || atClosing '\x27' cs then failure
  if (← at? '\x22') || (← at? '\x27') then quoted
  else
    let part := cs.takeWhile isBareKeyChar
    if part.isEmpty then failure
    set (cs.dropWhile isBareKeyChar)
    return String.ofList part

/-- The parts of a dotted key, at most the given number. -/
def keyParts : Nat → Scan (List String)
  | 0 => failure
  | n + 1 => do
      skipSpacing
      let part ← keyPart
      skipSpacing
      if ← skipChar '.' then return part :: (← keyParts n) else return [part]

/-- A key with the spacing around it. -/
def key : Scan (List String) := keyParts (depthLimit - 1)

/-! ### Values -/

/-- A scalar that is no string. A date may be followed by a blank and
a time. -/
def scalar : Scan Value := do
  let cs ← get
  let run := cs.takeWhile isScalarChar
  let rest := cs.dropWhile isScalarChar
  match rest with
  | ' ' :: more =>
      let time := more.takeWhile isScalarChar
      if afterDate? run == some [] && isOffsetTime time then
        set (more.dropWhile isScalarChar)
        return .datetime (String.ofList (run ++ ' ' :: time))
  | _ => pure ()
  match scalar? run with
  | some v =>
      set rest
      return v
  | none => failure

/-- The values of an array up to its end, at most the given number. -/
def arrayItems (one : Scan Value) : Nat → Scan (List Value)
  | 0 => failure
  | n + 1 => do
      skipGaps
      if ← skipChar ']' then return []
      else
        let v ← one
        skipGaps
        if ← skipChar ',' then return v :: (← arrayItems one n)
        else
          char ']'
          return [v]

/-- The entries of a table in braces up to its end, at most the given
number. -/
def inlineEntries (one : Scan Value) (entries : Entries) : Nat → Scan Entries
  | 0 => failure
  | n + 1 => do
      let path ← key
      char '='
      skipSpacing
      let v ← one
      skipSpacing
      match entries.put (.value v) path true with
      | none => failure
      | some entries =>
          if ← skipChar ',' then inlineEntries one entries n
          else
            char '\x7d'
            return entries

/-- A value that is nested less deep than the given number. -/
def value : Nat → Scan Value
  | 0 => failure
  | depth + 1 => do
      let size := (← get).length
      if (← at? '\x22') || (← at? '\x27') then return .string (← quoted)
      else if ← skipChar '[' then
        if depth == 0 then failure
        return .array (← arrayItems (value depth) (size + 1))
      else if ← skipChar '\x7b' then
        if depth == 0 then failure
        skipSpacing
        if ← skipChar '\x7d' then return .table []
        else return .table (finish (← inlineEntries (value depth) [] (size + 1)))
      else scalar

/-! ### Documents -/

/-- A document under construction: its entries, and the path of the
table that keys go to. -/
structure Progress where
  entries : Entries := []
  path : List String := []

/-- Open the table of a header. -/
def Progress.header (p : Progress) (make : Option Item → Option Item) (path : List String) :
    Option Progress :=
  match path.getLast? with
  | some last =>
      (p.entries.within (fun es => es.alter last make) path.dropLast).map fun entries =>
        ⟨entries, path⟩
  | none => none

/-- Put a value under a key of the open table. -/
def Progress.put (p : Progress) (path : List String) (v : Value) : Option Progress :=
  (p.entries.within (fun es => es.put (.value v) path true) p.path).map fun entries =>
    ⟨entries, p.path⟩

/-- One line of a document. -/
def line (p : Progress) : Scan Progress := do
  skipSpacing
  if (← at? '#') || (← at? '\n') || (← at? '\r') || (← get).isEmpty then
    lineEnd
    return p
  else if ← skipChar '[' then
    let double ← skipChar '['
    let path ← key
    char ']'
    if double then char ']'
    lineEnd
    p.header (if double then Entries.openElement else Entries.openTable) path
  else
    let path ← key
    char '='
    skipSpacing
    let v ← value depthLimit
    lineEnd
    p.put path v

/-- The lines of a document, at most the given number. -/
def documentLines (p : Progress) : Nat → Scan Progress
  | 0 => return p
  | n + 1 => do
      if (← get).isEmpty then return p
      else documentLines (← line p) n

/-- A text without the byte order mark at its start. -/
def dropMark : List Char → List Char
  | c :: cs => if c.toNat == 0xFEFF then cs else c :: cs
  | [] => []

/-- The entries of a document. -/
def parse? (text : String) : Option (List (String × Value)) :=
  let cs := dropMark text.toList
  match (documentLines {} (cs.length + 1)).run cs with
  | some (p, []) => some (finish p.entries)
  | _ => none

end Externals.Toml
