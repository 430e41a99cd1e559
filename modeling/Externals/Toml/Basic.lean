/-!
# `Externals.Toml.Basic`: TOML values and tables under construction

A document is a table. While it is read, tables grow in three ways: a
header opens one, a longer header implies the tables on its path, and
a dotted key makes the tables on its path. `Origin` remembers which,
because a table may be opened by one header only, and dotted keys may
add to no table that a header opened.

Every operation on a table under construction fails where a document
would say two different things about one key.
-/

set_option autoImplicit false

namespace Externals.Toml

/-- A value of a document. Numbers and times that nothing reads are kept
as they are written. -/
inductive Value where
  | string (s : String)
  | integer (n : Int)
  /-- A number with a fraction or an exponent, as written. -/
  | float (text : String)
  | boolean (b : Bool)
  /-- A date, a time or both, as written. -/
  | datetime (text : String)
  | array (items : List Value)
  | table (entries : List (String × Value))
deriving Inhabited

/-- How a table came to be: opened by a header, implied by a longer
header, or made by a dotted key. -/
inductive Origin where
  | header
  | implied
  | dotted
deriving DecidableEq, Inhabited

/-- What stands under a key while a document is read: a value, a
table, or the tables of an array, of which the last one is open. -/
inductive Item where
  | value (v : Value)
  | table (origin : Origin) (entries : List (String × Item))
  | tables (elements : List (List (String × Item)))
deriving Inhabited

/-- The entries of a table under construction. -/
abbrev Entries := List (String × Item)

namespace Entries

/-- Change what stands under a key, or fail. -/
def alter (key : String) (f : Option Item → Option Item) : Entries → Option Entries
  | [] => (f none).map fun item => [(key, item)]
  | (k, item) :: entries =>
      if k == key then (f (some item)).map fun item => (key, item) :: entries
      else (alter key f entries).map ((k, item) :: ·)

/-- Change the open table of an array. -/
def alterLast (f : Entries → Option Entries) : List Entries → Option (List Entries)
  | [] => none
  | [last] => (f last).map ([·])
  | first :: elements => (alterLast f elements).map (first :: ·)

/-- Change the table under a key on the path of a header. A table that
is missing is implied. -/
def enter (f : Entries → Option Entries) : Option Item → Option Item
  | none => (f []).map (.table .implied)
  | some (.table origin entries) => (f entries).map (.table origin)
  | some (.tables elements) => (alterLast f elements).map .tables
  | some (.value _) => none

/-- Change the table at the end of a path. -/
def within (f : Entries → Option Entries) : List String → Entries → Option Entries
  | [], entries => f entries
  | key :: path, entries => entries.alter key (enter (within f path))

/-- What a header makes of its last key: a table that none opened. -/
def openTable : Option Item → Option Item
  | none => some (.table .header [])
  | some (.table .implied entries) => some (.table .header entries)
  | _ => none

/-- What a double header makes of its last key: one more table of an
array. -/
def openElement : Option Item → Option Item
  | none => some (.tables [[]])
  | some (.tables elements) => some (.tables (elements ++ [[]]))
  | _ => none

/-- Put a value under a dotted key. `free` says whether the table
takes values from here: the table a dotted key starts in does, and so
do the tables that dotted keys made. -/
def put (v : Item) : List String → Bool → Entries → Option Entries
  | [], _, _ => none
  | [key], free, entries =>
      if free then
        entries.alter key fun
          | none => some v
          | some _ => none
      else none
  | key :: path, _, entries =>
      entries.alter key fun
        | none => (put v path true []).map (.table .dotted)
        | some (.table .header _) => none
        | some (.table origin inner) => (put v path (origin == .dotted) inner).map (.table origin)
        | some (.tables elements) => (alterLast (put v path false) elements).map .tables
        | some (.value _) => none

end Entries

mutual

/-- The finished form of an item. -/
def Item.toValue : Item → Value
  | .value v => v
  | .table _ entries => .table (finish entries)
  | .tables elements => .array (finishAll elements)

/-- The finished entries of a table. -/
def finish : List (String × Item) → List (String × Value)
  | [] => []
  | (key, item) :: entries => (key, item.toValue) :: finish entries

/-- The finished tables of an array. -/
def finishAll : List (List (String × Item)) → List Value
  | [] => []
  | entries :: elements => .table (finish entries) :: finishAll elements

end

end Externals.Toml
