import Externals.Text.Brackets
import Externals.Text.WordChar

/-!
# `Externals.Mapping.TypeText`: a type known only by its text

When the shape of a type is unknown, its text still answers the
questions the mapping asks: is it `T | undefined`, a plain name, a
dotted name, a literal, an array, a promise? A `TypeText` is a text
that was trimmed and freed of the parentheses around the whole.

The answers only look at the text outside of brackets, so a union of
two promises is no promise and a function that returns an array is no
array.

The lemmas at the end say that each type read out of another has
strictly less ink. The union case is the subtle one: putting the
members together again with ` | ` may make the text longer, but never
inkier.
-/

set_option autoImplicit false

namespace Externals

open Text

/-! ### Lexical classes -/

/-- The characters a plain name may begin with. -/
def isNameStart (c : Char) : Bool := c.isAlpha || c == '_' || c == '$'

/-- The characters a plain name may go on with. -/
def isNamePart (c : Char) : Bool := isWordChar c || c == '$'

/-- A plain name. -/
def isName : List Char → Bool
  | [] => false
  | c :: cs => isNameStart c && cs.all isNamePart

/-- Two plain names with a dot between them. -/
def dottedName? (cs : List Char) : Option (List Char × List Char) :=
  match cs.dropWhile (· != '.') with
  | [] => none
  | _ :: name =>
      let space := cs.takeWhile (· != '.')
      if isName space && isName name then some (space, name) else none

/-- A text between two equal quotes that do not occur inside. -/
def isQuotedBy (quote : Char) : List Char → Bool
  | [] => false
  | c :: cs => c == quote && cs.getLast? == some quote && !cs.dropLast.contains quote

/-- The double quote, the single quote and the backquote. -/
def quoteMarks : List Char := ['\x22', '\x27', '\x60']

/-- A run of one or more decimal digits and nothing else. -/
def isDigits (cs : List Char) : Bool := !cs.isEmpty && cs.all isDigit

/-- What may follow the digits and the fraction of a number: nothing,
or an exponent. -/
def isExponent : List Char → Bool
  | [] => true
  | e :: cs =>
      (e == 'e' || e == 'E') &&
        match cs with
        | [] => false
        | c :: rest => if c == '+' || c == '-' then isDigits rest else isDigits cs

/-- What may follow the integer digits of a number: a fraction, an
exponent, both or nothing. -/
def isFractionAndExponent : List Char → Bool
  | [] => true
  | c :: cs =>
      if c == '.' then
        !(cs.takeWhile isDigit).isEmpty && isExponent (cs.dropWhile isDigit)
      else isExponent (c :: cs)

/-- A decimal number, with underscores after the first digit. -/
def isDecimal : List Char → Bool
  | [] => false
  | c :: cs =>
      isDigit c && isFractionAndExponent (cs.dropWhile fun d => isDigit d || d == '_')

/-- A digit of a hexadecimal number, in either case. -/
def isHexDigit (c : Char) : Bool :=
  c.isDigit || ('a' ≤ c && c ≤ 'f') || ('A' ≤ c && c ≤ 'F')

/-- A hexadecimal number. -/
def isHexadecimal : List Char → Bool
  | z :: x :: cs => z == '0' && (x == 'x' || x == 'X') && !cs.isEmpty && cs.all isHexDigit
  | _ => false

/-- A number literal with an optional minus sign. -/
def isNumberLiteral (cs : List Char) : Bool :=
  let body := if cs.head? == some '-' then cs.tail else cs
  isDecimal body || isHexadecimal body

/-- The two names that stand for arrays when given one argument. -/
def isArrayName (name : List Char) : Bool :=
  name == "Array".toList || name == "ReadonlyArray".toList

/-! ### The questions -/

/-- The text of a type of unknown shape. -/
structure TypeText where
  chars : List Char
deriving DecidableEq, Inhabited

namespace TypeText

/-- The type a text denotes: trimmed, without parentheses around it. -/
def of (cs : List Char) : TypeText := ⟨unwrapParens (trim cs)⟩

/-- The type in a text, as it is written. -/
def ofString (s : String) : TypeText := of s.toList

/-- The text of a type. -/
def text (t : TypeText) : String := String.ofList t.chars

/-- One type, and no union, intersection or function at the top. -/
def isSingle (cs : List Char) : Bool :=
  !hasTopLevelArrow cs && (splitTopLevel '|' cs).length ≤ 1 && (splitTopLevel '&' cs).length ≤ 1

/-- Head and arguments of `Head<args>` with a plain name for its head. -/
def generic? (t : TypeText) : Option (List Char × List Char) :=
  (splitGeneric t.chars).filter fun g => isName g.1

/-- The type `T` of a union `T | undefined`. -/
def nullableInner? (t : TypeText) : Option TypeText :=
  if hasTopLevelArrow t.chars then none
  else
    let members := splitTopLevel '|' t.chars
    if members.getLast? == some "undefined".toList && !members.dropLast.isEmpty then
      some (of ([' ', '|', ' '].intercalate members.dropLast))
    else none

/-- The plain name a type refers to, with or without arguments. -/
def symbol? (t : TypeText) : Option String :=
  if isName t.chars then some t.text
  else t.generic?.map fun g => String.ofList g.1

/-- Namespace and name of a dotted reference. -/
def qualified? (t : TypeText) : Option (String × String) :=
  (dottedName? t.chars).map fun (space, name) => (String.ofList space, String.ofList name)

/-- The word `string`, or a literal in quotes of any kind. -/
def isString (t : TypeText) : Bool :=
  t.chars == "string".toList || quoteMarks.any fun quote => isQuotedBy quote t.chars

/-- The word `boolean`, or one of its two literals. -/
def isBoolean (t : TypeText) : Bool :=
  t.text == "boolean" || t.text == "true" || t.text == "false"

/-- The word `number`, or a literal. -/
def isNumber (t : TypeText) : Bool := t.text == "number" || isNumberLiteral t.chars

/-- The text before a final pair of square brackets. -/
def beforeBrackets? (cs : List Char) : Option (List Char) :=
  if ['[', ']'].isSuffixOf cs then some (cs.take (cs.length - 2)) else none

/-- The element type of `T[]`, `Array<T>` or `ReadonlyArray<T>`. A
text that ends in brackets is read as `T[]` or not at all. -/
def element? (t : TypeText) : Option TypeText :=
  match beforeBrackets? t.chars with
  | some element => if isSingle element then some (of element) else none
  | none =>
      match t.generic? with
      | some (head, args) =>
          match splitTopLevel ',' args with
          | [element] => if isArrayName head then some (of element) else none
          | _ => none
      | none => none

/-- A type without a value. -/
def isVoid (t : TypeText) : Bool := t.text == "undefined" || t.text == "void"

/-- The argument of a promise: `some none` for a promise without
arguments, the first argument otherwise. -/
def promise? (t : TypeText) : Option (Option TypeText) :=
  if t.text == "Promise" then some none
  else
    match t.generic? with
    | some (head, args) =>
        if head == "Promise".toList then some ((splitTopLevel ',' args).head?.map of) else none
    | none => none

/-- The types that stand for any value. -/
def isDynamic (t : TypeText) : Bool :=
  t.text == "object" || t.text == "any" || t.text == "unknown"

/-- The type of the object itself. -/
def isSelf (t : TypeText) : Bool := t.text == "this"

/-! ### Ink -/

/-- Trimming and taking parentheses off add no ink. -/
theorem ink_of_le (cs : List Char) : ink (of cs).chars ≤ ink cs := by
  rw [of, ← ink_trim cs]
  exact ink_unwrapParens_le (trim cs)

/-- A part has at most the ink of all parts together. -/
theorem ink_mem_le {ss : List (List Char)} {s : List Char} (h : s ∈ ss) :
    ink s ≤ ink ss.flatten :=
  ink_le_of_sublist (List.sublist_flatten_of_mem h)

/-- A piece of a text at a separator that is not blank. -/
theorem ink_mem_splitTopLevel {sep : Char} (hsep : isBlank sep = false) {cs s : List Char}
    (h : s ∈ splitTopLevel sep cs) : ink s ≤ ink cs := by
  have hmem := ink_mem_le h
  have hsum := ink_splitTopLevel_le hsep cs
  have hpos : 0 < (splitTopLevel sep cs).length := List.length_pos_of_mem h
  omega

/-- Joined by ` | `, pieces weigh their ink and one for each bar. -/
theorem ink_intercalate (ss : List (List Char)) :
    ink ([' ', '|', ' '].intercalate ss) = ink ss.flatten + (ss.length - 1) := by
  induction ss with
  | nil => rfl
  | cons s ss ih =>
      cases ss with
      | nil => simp [List.intercalate]
      | cons t ss =>
          have hbar : ink [' ', '|', ' '] = 1 := by decide
          have hstep : [' ', '|', ' '].intercalate (s :: t :: ss)
              = s ++ [' ', '|', ' '] ++ [' ', '|', ' '].intercalate (t :: ss) := by
            simp [List.intercalate, List.intersperse]
          rw [hstep, ink_append, ink_append, ih, hbar]
          simp only [List.flatten_cons, ink_append, List.length_cons]
          omega

/-- Dropping `| undefined` loses ink. -/
theorem ink_nullableInner? {t inner : TypeText} (h : t.nullableInner? = some inner) :
    ink inner.chars < ink t.chars := by
  unfold nullableInner? at h
  simp only at h
  split at h
  · cases h
  · split at h
    · rename_i hlast
      cases h
      refine Nat.lt_of_le_of_lt (ink_of_le _) ?_
      rw [ink_intercalate]
      have hsum := ink_splitTopLevel_le (by decide : isBlank '|' = false) t.chars
      revert hlast hsum
      generalize splitTopLevel '|' t.chars = members
      intro hlast hsum
      simp only [Bool.and_eq_true, beq_iff_eq, Bool.not_eq_true', List.isEmpty_eq_false_iff]
        at hlast
      obtain ⟨hlast, hne⟩ := hlast
      have hpos : 0 < members.dropLast.length := List.length_pos_iff.mpr hne
      obtain ⟨rest, rfl⟩ := List.getLast?_eq_some_iff.mp hlast
      rw [List.dropLast_concat] at hpos ⊢
      have hink : ink "undefined".toList = 9 := by decide
      simp only [List.flatten_concat, ink_append, List.length_append, List.length_cons,
        List.length_nil, hink] at hsum
      omega
    · cases h

/-- Arguments have less ink than the type, which has its brackets in
addition. -/
theorem ink_generic? {t : TypeText} {head args : List Char} (h : t.generic? = some (head, args)) :
    ink args < ink t.chars :=
  ink_of_splitGeneric (Option.filter_eq_some_iff.mp h).1

/-- What stands before square brackets has less ink than the whole. -/
theorem ink_beforeBrackets? {cs element : List Char} (h : beforeBrackets? cs = some element) :
    ink element < ink cs := by
  unfold beforeBrackets? at h
  split at h
  · rename_i hsuffix
    cases h
    obtain ⟨front, rfl⟩ := List.isSuffixOf_iff_suffix.mp hsuffix
    have hink : ink ['[', ']'] = 2 := by decide
    simp [ink_append, hink]
  · cases h

/-- The element of an array has less ink than the array. -/
theorem ink_element? {t e : TypeText} (h : t.element? = some e) : ink e.chars < ink t.chars := by
  unfold element? at h
  split at h
  · rename_i element hbrackets
    split at h
    · cases h
      exact Nat.lt_of_le_of_lt (ink_of_le _) (ink_beforeBrackets? hbrackets)
    · cases h
  · split at h
    · rename_i head args hgeneric
      split at h
      · rename_i element hsplit
        split at h
        · cases h
          refine Nat.lt_of_le_of_lt (ink_of_le _) (Nat.lt_of_le_of_lt ?_ (ink_generic? hgeneric))
          exact ink_mem_splitTopLevel (by decide : isBlank ',' = false) (by rw [hsplit]; simp)
        · cases h
      · cases h
    · cases h

/-- The argument of a promise has less ink than the promise. -/
theorem ink_promise? {t a : TypeText} (h : t.promise? = some (some a)) :
    ink a.chars < ink t.chars := by
  unfold promise? at h
  split at h
  · cases h
  · split at h
    · rename_i head args hgeneric
      split at h
      · simp only [Option.some.injEq, Option.map_eq_some_iff] at h
        obtain ⟨first, hfirst, rfl⟩ := h
        refine Nat.lt_of_le_of_lt (ink_of_le _) (Nat.lt_of_le_of_lt ?_ (ink_generic? hgeneric))
        exact ink_mem_splitTopLevel (by decide : isBlank ',' = false) (List.mem_of_head? hfirst)
      · cases h
    · cases h

end TypeText

end Externals
