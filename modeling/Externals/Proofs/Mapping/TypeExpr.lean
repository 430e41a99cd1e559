import Externals.Mapping.Reading
import Externals.Proofs.Text.Balanced
import Externals.Source.Resolve

/-!
# `Externals.Proofs.Mapping.TypeExpr`: type expressions and how they are written

The types that both a tree and a text can answer for: words such as
`string`, literals, plain and dotted names, arrays, names with
arguments, unions with `undefined`, and parentheses around any of
them.

The grammar has three levels, so that only well-formed expressions
exist. An *operand* may be followed by square brackets or by
`| undefined`; a union may not, unless it stands in parentheses. A
list of arguments is never empty.

* `TypeExpr.print` is the text of an expression.
* `TypeExpr.node` is its concrete tree, each node with the text it
  covers and the place where it starts.
* `TypeExpr.lowered` is its resolved form: each node with its own
  text, parentheses left out, `T | undefined` a nullable type.
* `resolve?_node` says that the resolved form is the one the concrete
  tree is resolved to.
* `TypeExpr.neat`, `TypeOperand.neat`: what every scanner may rely on
  in a printed text.
-/

set_option autoImplicit false

namespace Externals

open Text Source

/-! ### Words, names and literals -/

/-- The types with a word of their own. `self` is the type `this`, and
the last two are the literals `true` and `false`, which both mean a
Boolean. -/
inductive TypeWord where
  | string
  | boolean
  | number
  | void
  | undefined
  | any
  | unknown
  | object
  | self
  | yes
  | no
deriving DecidableEq, Inhabited

namespace TypeWord

/-- How a word is written. No two words share a text, and each text is
itself a plain name, which is why the reading of a text asks the scope
before it applies the rule of a word. -/
def text : TypeWord → String
  | string => "string"
  | boolean => "boolean"
  | number => "number"
  | void => "void"
  | undefined => "undefined"
  | any => "any"
  | unknown => "unknown"
  | object => "object"
  | self => "this"
  | yes => "true"
  | no => "false"

/-- The text of a word as characters, the form in which the scanners of
type texts see it. -/
def chars (w : TypeWord) : List Char := w.text.toList

/-- The shape of a word once it is resolved. `true` and `false` share
one, since a literal type is widened to the type of its values. -/
def shape : TypeWord → PlainShape
  | string => .string
  | boolean => .boolean
  | number => .number
  | void => .void
  | undefined => .undefined
  | any => .any
  | unknown => .unknown
  | object => .object
  | self => .self
  | yes => .booleanLiteral
  | no => .booleanLiteral

/-- The concrete tree of a word at a place. The grammar keeps three
kinds apart: `undefined` and the Booleans are literals, `this` has a
node of its own, and the other words are predefined types. -/
def node (start : Nat) (w : TypeWord) : TypeNode :=
  match w with
  | undefined => .literal ⟨start, w.text⟩ .undefined
  | yes => .literal ⟨start, w.text⟩ .boolean
  | no => .literal ⟨start, w.text⟩ .boolean
  | self => .self ⟨start, w.text⟩
  | w => .predefined ⟨start, w.text⟩

end TypeWord

/-- A plain name: a letter, an underscore or a dollar sign, and name
characters behind it. The proof travels with the characters, so no lemma
below has to ask for it again. -/
structure PlainName where
  chars : List Char
  isName : isName chars = true

/-- A plain name as a string, the form in which a scope is asked for
it. -/
def PlainName.text (n : PlainName) : String := String.ofList n.chars

/-- A plain name that can stand for a declared type: one that is no
word. Without this condition an expression could be printed to a text
that is read as another expression. -/
structure TypeName extends PlainName where
  notWord : ∀ w : TypeWord, w.chars ≠ chars

/-- A decimal integer, with underscores after the first digit as
separators of groups. -/
structure IntegerLiteral where
  first : Char
  more : List Char
  first_isDigit : first.isDigit = true
  more_isDigit : ∀ c ∈ more, c.isDigit = true ∨ c = '_'

/-- The characters that may stand in a quoted literal: no quote, no
bracket, and none of `|`, `&`, `,` and `=`. The scanners of type texts
do not know quotes, so any of these inside a literal would be taken for
one outside of it. -/
def isQuotable (c : Char) : Bool :=
  !quoteMarks.contains c && !isOpening c && !isClosing c && c != '|' && c != '&' && c != ','
    && c != '='

/-- A text between two equal quotes. A backquote is allowed as well, and
makes the literal a template in the concrete tree. -/
structure QuotedLiteral where
  quote : Char
  content : List Char
  quote_mem : quote ∈ quoteMarks
  content_isQuotable : ∀ c ∈ content, isQuotable c = true

/-! ### Expressions -/

mutual

/-- A type that can be followed by square brackets. Unions are not among
them, unless they stand in parentheses. -/
inductive TypeOperand where
  | word (w : TypeWord)
  | integer (n : IntegerLiteral)
  | quoted (s : QuotedLiteral)
  | name (n : TypeName)
  | dotted (space name : PlainName)
  | array (element : TypeOperand)
  | generic (head : TypeName) (args : TypeArgs)
  | parens (inner : TypeExpr)

/-- A type: an operand, or `T | undefined`, where `wraps` counts the
parentheses around `undefined`. The count matters: the tree forgets
these parentheses and the reading of the text does not. -/
inductive TypeExpr where
  | operand (o : TypeOperand)
  | orUndefined (o : TypeOperand) (wraps : Nat)

/-- One or more type arguments. The list is never empty, because `T<>`
is no type. -/
inductive TypeArgs where
  | last (e : TypeExpr)
  | more (e : TypeExpr) (rest : TypeArgs)

end

/-- The word `undefined` in a number of parentheses, as the right member
of a union is written. -/
def wrappedUndefined : Nat → List Char
  | 0 => TypeWord.undefined.chars
  | n + 1 => '(' :: (wrappedUndefined n ++ [')'])

mutual

/-- The text of an operand, character by character. Brackets are written
without blanks around them. -/
def TypeOperand.print : TypeOperand → List Char
  | .word w => w.chars
  | .integer n => n.first :: n.more
  | .quoted s => s.quote :: (s.content ++ [s.quote])
  | .name n => n.chars
  | .dotted space name => space.chars ++ '.' :: name.chars
  | .array element => element.print ++ ['[', ']']
  | .generic head args => head.chars ++ '<' :: (args.print ++ ['>'])
  | .parens inner => '(' :: (inner.print ++ [')'])

/-- The text of a type. A union has one blank on each side of its bar. -/
def TypeExpr.print : TypeExpr → List Char
  | .operand o => o.print
  | .orUndefined o wraps => o.print ++ [' ', '|', ' '] ++ wrappedUndefined wraps

/-- The text of type arguments, with a comma and a blank between two of
them. -/
def TypeArgs.print : TypeArgs → List Char
  | .last e => e.print
  | .more e rest => e.print ++ [',', ' '] ++ rest.print

end

/-- The text of an operand as a string, the form that nodes of the tree
and events carry. -/
def TypeOperand.text (o : TypeOperand) : String := String.ofList o.print

/-- The text of a type as a string. -/
def TypeExpr.text (e : TypeExpr) : String := String.ofList e.print

/-! ### The concrete tree -/

/-- The concrete tree of `undefined` in a number of parentheses: one
node for each pair, and each node covers its own text. -/
def undefinedNode (start : Nat) : Nat → TypeNode
  | 0 => TypeWord.undefined.node start
  | n + 1 =>
      .parens ⟨start, String.ofList (wrappedUndefined (n + 1))⟩ [undefinedNode (start + 1) n]

mutual

/-- The concrete tree of an operand that is written from a place on.
Every node records where it starts and the text it covers, so the places
of later parts are computed from the lengths of the earlier ones. -/
def TypeOperand.node (start : Nat) : TypeOperand → TypeNode
  | .word w => w.node start
  | .integer n => .literal ⟨start, (TypeOperand.integer n).text⟩ .number
  | .quoted s =>
      if s.quote == '\x60' then .template ⟨start, (TypeOperand.quoted s).text⟩
      else .literal ⟨start, (TypeOperand.quoted s).text⟩ .string
  | .name n => .name ⟨start, n.text⟩
  | .dotted space name => .qualified ⟨start, (TypeOperand.dotted space name).text⟩
  | .array element => .array ⟨start, (TypeOperand.array element).text⟩ [element.node start]
  | .generic head args =>
      .generic ⟨start, (TypeOperand.generic head args).text⟩ head.text
        (args.nodes (start + head.chars.length + 1))
  | .parens inner => .parens ⟨start, (TypeOperand.parens inner).text⟩ [inner.node (start + 1)]

/-- The concrete tree of a type that is written from a place on. The
second member of a union starts behind the operand and the three
characters of the bar. -/
def TypeExpr.node (start : Nat) : TypeExpr → TypeNode
  | .operand o => o.node start
  | .orUndefined o wraps =>
      .union ⟨start, (TypeExpr.orUndefined o wraps).text⟩
        [o.node start, undefinedNode (start + o.print.length + 3) wraps]

/-- The concrete trees of type arguments, the first one at a place, and
each further one behind a comma and a blank. -/
def TypeArgs.nodes (start : Nat) : TypeArgs → List TypeNode
  | .last e => [e.node start]
  | .more e rest => e.node start :: rest.nodes (start + e.print.length + 2)

end

/-! ### The resolved form -/

mutual

/-- The resolved form of an operand: what is left of the tree when
places and parentheses are forgotten. A dotted name is a reference like
a plain one, under its whole text. -/
def TypeOperand.lowered : TypeOperand → ResolvedType
  | .word w => .plain w.text w.shape
  | .integer n => .plain (TypeOperand.integer n).text .numberLiteral
  | .quoted s => .plain (TypeOperand.quoted s).text .stringLiteral
  | .name n => .reference n.text n.text []
  | .dotted space name =>
      .reference (TypeOperand.dotted space name).text (TypeOperand.dotted space name).text []
  | .array element => .array (TypeOperand.array element).text element.lowered
  | .generic head args => .reference (TypeOperand.generic head args).text head.text args.lowered
  | .parens inner => inner.lowered

/-- The resolved form of a type. The union with `undefined` is a
nullable type that keeps the text of the whole union. -/
def TypeExpr.lowered : TypeExpr → ResolvedType
  | .operand o => o.lowered
  | .orUndefined o wraps => .nullable (TypeExpr.orUndefined o wraps).text o.lowered

/-- The resolved forms of type arguments, in their order. -/
def TypeArgs.lowered : TypeArgs → List ResolvedType
  | .last e => [e.lowered]
  | .more e rest => e.lowered :: rest.lowered

end

/-! ### The characters of names

Nothing a name is made of means anything to a scanner. -/

/-- The code points of the blanks, as an explicit list. Facts about all
blanks are then decided by one evaluation over the list. -/
def blankCodes : List Nat :=
  [0x9, 0xa, 0xb, 0xc, 0xd, 0x20, 0x85, 0xa0, 0x1680, 0x2000, 0x2001, 0x2002, 0x2003, 0x2004,
   0x2005, 0x2006, 0x2007, 0x2008, 0x2009, 0x200a, 0x2028, 0x2029, 0x202f, 0x205f, 0x3000]

/-- The list has every blank: the ranges in the definition of a blank
hold no other code points. -/
theorem mem_blankCodes {c : Char} (h : isBlank c = true) : c.toNat ∈ blankCodes := by
  simp only [isBlank, Bool.or_eq_true, Bool.and_eq_true, decide_eq_true_eq, beq_iff_eq] at h
  simp only [blankCodes, List.mem_cons, List.not_mem_nil, or_false]
  omega

/-- No character of a name is a blank. The code points of blanks are
outside of the ranges of word characters, and none is the dollar sign;
both are checked on the list. -/
theorem not_isBlank_of_isNamePart {c : Char} (h : isNamePart c = true) : isBlank c = false := by
  rw [Bool.eq_false_iff]
  intro hblank
  have hcodes : ∀ n ∈ blankCodes, inRanges wordRanges n = false ∧ n ≠ '$'.toNat := by
    decide +kernel
  have hc := hcodes c.toNat (mem_blankCodes hblank)
  simp only [isNamePart, isWordChar, hc.1, Bool.false_or, beq_iff_eq] at h
  exact hc.2 (congrArg Char.toNat h)

/-- A character of a name differs from one that cannot be in a name.
Used to separate names from punctuation. -/
theorem ne_of_isNamePart {c d : Char} (h : isNamePart c = true) (hd : isNamePart d = false) :
    c ≠ d := by
  rintro rfl
  rw [h] at hd
  cases hd

/-- The characters with a meaning of their own to some scanner:
brackets, separators, dots and quotes. -/
def punctuation : List Char :=
  ['<', '(', '[', '\x7b', '>', ')', ']', '\x7d', '=', '|', '&', ',', '.'] ++ quoteMarks

/-- No punctuation character can be in a name. -/
theorem not_isNamePart_of_mem_punctuation {c : Char} (h : c ∈ punctuation) :
    isNamePart c = false := by
  -- One evaluation over the list: a quantifier over characters would be decided on all of them.
  have hmarks : (punctuation.all fun d => !isNamePart d) = true := by decide +kernel
  simpa using List.all_eq_true.mp hmarks c h

/-- A text of name characters has no punctuation in it, so a scanner
that looks for a punctuation character passes over all of it. -/
theorem not_mem_of_isNamePart {cs : List Char} (h : ∀ c ∈ cs, isNamePart c = true) {mark : Char}
    (hmark : mark ∈ punctuation) : mark ∉ cs := by
  intro hmem
  have hpart := h mark hmem
  rw [not_isNamePart_of_mem_punctuation hmark] at hpart
  cases hpart

/-- A character whose code lies in one of the ranges of word characters
may be in a name. The table of ranges is long, so the proofs below pick
their range by its place in it. -/
theorem isNamePart_of_range {c : Char} {r : Nat × Nat} (hr : r ∈ wordRanges)
    (hc : r.1 ≤ c.toNat ∧ c.toNat ≤ r.2) : isNamePart c = true := by
  have hword : isWordChar c = true :=
    List.any_eq_true.mpr ⟨r, hr, by simpa using hc⟩
  simp [isNamePart, hword]

/-- The codes of the letters: those between the ends of the two
alphabets. This is what connects the test for a letter with the table of
ranges. -/
theorem code_of_isAlpha {c : Char} (h : c.isAlpha = true) :
    0x41 ≤ c.toNat ∧ c.toNat ≤ 0x5a ∨ 0x61 ≤ c.toNat ∧ c.toNat ≤ 0x7a := by
  have hcase : (decide ('A'.val ≤ c.val ∧ c.val ≤ 'Z'.val)
      || decide ('a'.val ≤ c.val) && decide (c.val ≤ 'z'.val)) = true := h
  simp only [Bool.or_eq_true, Bool.and_eq_true, decide_eq_true_eq, UInt32.le_iff_toNat_le] at hcase
  exact hcase

/-- A digit may be in a name, though not at its front. -/
theorem isNamePart_of_isDigit {c : Char} (h : c.isDigit = true) : isNamePart c = true := by
  have hmem : (0x30, 0x39) ∈ wordRanges := by
    unfold wordRanges
    exact .head _
  refine isNamePart_of_range hmem ?_
  simp only [Char.isDigit, Bool.and_eq_true, decide_eq_true_eq, ge_iff_le,
    UInt32.le_iff_toNat_le] at h
  exact h

/-- Whatever may begin a name may also stand inside of one. -/
theorem isNamePart_of_isNameStart {c : Char} (h : isNameStart c = true) :
    isNamePart c = true := by
  simp only [isNameStart, Bool.or_eq_true, beq_iff_eq] at h
  rcases h with (halpha | rfl) | rfl
  -- The letters are two ranges of the table; membership is shown by position, since deciding
  -- it would compare every range.
  · rcases code_of_isAlpha halpha with hupper | hlower
    · have hmem : (0x41, 0x5a) ∈ wordRanges := by
        unfold wordRanges
        exact .tail _ (.head _)
      exact isNamePart_of_range hmem hupper
    · have hmem : (0x61, 0x7a) ∈ wordRanges := by
        unfold wordRanges
        exact .tail _ (.tail _ (.tail _ (.head _)))
      exact isNamePart_of_range hmem hlower
  · decide +kernel
  · decide +kernel

/-- All characters of a plain name are name characters, the first one
included. The other conditions of scanners follow from this one. -/
theorem PlainName.isNamePart_mem (n : PlainName) {c : Char} (h : c ∈ n.chars) :
    isNamePart c = true := by
  obtain ⟨chars, hname⟩ := n
  cases chars with
  | nil => cases h
  | cons d ds =>
      simp only [Externals.isName, Bool.and_eq_true, List.all_eq_true] at hname
      cases h with
      | head => exact isNamePart_of_isNameStart hname.1
      | tail _ hmem => exact hname.2 c hmem

/-- A plain name is not empty: the empty text fails the test for a
name. -/
theorem PlainName.ne_nil (n : PlainName) : n.chars ≠ [] := by
  intro h
  have hname := n.isName
  rw [h] at hname
  cases hname

/-- An integer literal is made of name characters too, digits and
underscores, so the scanners pass over it as over a name. -/
theorem IntegerLiteral.isNamePart_mem (n : IntegerLiteral) {c : Char}
    (h : c ∈ n.first :: n.more) : isNamePart c = true := by
  cases h with
  | head => exact isNamePart_of_isDigit n.first_isDigit
  | tail _ hmem =>
      rcases n.more_isDigit c hmem with hdigit | rfl
      · exact isNamePart_of_isDigit hdigit
      · decide +kernel

/-! ### What scanners see of a printed type -/

/-- The separators that an operand keeps inside of its brackets: those
of unions, of intersections and of arguments. -/
def operandStop (c : Char) : Bool := c == '|' || c == '&' || c == ','

/-- The separators that a type keeps inside of its brackets. A union
shows its bar, so only two are left of those of an operand. -/
def exprStop (c : Char) : Bool := c == '&' || c == ','

/-- A text that every scanner passes over: closed with respect to a
class of separators, without blanks at its ends, and with its
parentheses balanced among themselves. -/
structure Neat (stop : Char → Bool) (cs : List Char) : Prop where
  closed : Closed stop cs
  tight : Tight cs
  parens : ParensEven cs

/-- An inert character is no bracket, in particular no parenthesis. -/
theorem not_paren_of_isInert {stop : Char → Bool} {c : Char} (h : isInert stop c = true) :
    c ≠ '(' ∧ c ≠ ')' := by
  constructor <;> rintro rfl <;> simp [isInert, isOpening, isClosing] at h

/-- A tight text of inert characters is neat. Names, numbers and quoted
literals are neat for this reason. -/
theorem neat_of_inert {stop : Char → Bool} {cs : List Char}
    (h : ∀ c ∈ cs, isInert stop c = true) (ht : Tight cs) : Neat stop cs where
  closed := closed_of_inert h
  tight := ht
  parens := parensEven_of_inert fun c hc => not_paren_of_isInert (h c hc)

/-- A name character is inert for the widest class of separators,
because everything that is not inert is punctuation. -/
theorem isInert_of_isNamePart {c : Char} (h : isNamePart c = true) :
    isInert operandStop c = true := by
  have hne : ∀ d ∈ punctuation, c ≠ d := fun d hd =>
    ne_of_isNamePart h (not_isNamePart_of_mem_punctuation hd)
  simp only [punctuation, List.cons_append, List.forall_mem_cons] at hne
  simp [isInert, isOpening, isClosing, operandStop, hne]

/-- A text of name characters is tight: its first and its last character
are no blanks. -/
theorem tight_of_isNamePart {cs : List Char} (hne : cs ≠ [])
    (h : ∀ c ∈ cs, isNamePart c = true) : Tight cs where
  first := ⟨cs.head hne, List.head?_eq_some_head hne,
    not_isBlank_of_isNamePart (h _ (List.head_mem hne))⟩
  last := ⟨cs.getLast hne, List.getLast?_eq_some_getLast hne,
    not_isBlank_of_isNamePart (h _ (List.getLast_mem hne))⟩

/-- A text of name characters is neat. This covers words, names and
integers at once. -/
theorem neat_of_isNamePart {cs : List Char} (hne : cs ≠ [])
    (h : ∀ c ∈ cs, isNamePart c = true) : Neat operandStop cs :=
  neat_of_inert (fun c hc => isInert_of_isNamePart (h c hc)) (tight_of_isNamePart hne h)

/-- Every word is spelled like a plain name. Both readings of a text
have to tell the two apart. -/
theorem TypeWord.isName_chars (w : TypeWord) : isName w.chars = true := by
  cases w <;> decide +kernel

/-- A word as the plain name it is spelled like, so that the lemmas on
plain names apply to it. -/
def TypeWord.toPlainName (w : TypeWord) : PlainName := ⟨w.chars, w.isName_chars⟩

/-- The text of a plain name is neat. -/
theorem PlainName.neat (n : PlainName) : Neat operandStop n.chars :=
  neat_of_isNamePart n.ne_nil fun _ => n.isNamePart_mem

/-- A quote is inert: no scanner of type texts knows what a quote is. -/
theorem QuotedLiteral.isInert_quote (s : QuotedLiteral) : isInert operandStop s.quote = true := by
  have hmarks : quoteMarks.all (isInert operandStop) = true := by decide
  exact List.all_eq_true.mp hmarks s.quote s.quote_mem

/-- A quote is no blank, so a quoted literal is tight even when its
content begins or ends with blanks. -/
theorem QuotedLiteral.not_isBlank_quote (s : QuotedLiteral) : isBlank s.quote = false := by
  have hmarks : (quoteMarks.all fun q => !isBlank q) = true := by decide
  simpa using List.all_eq_true.mp hmarks s.quote s.quote_mem

/-- What may stand in a quoted literal is inert. This is the reason for
the conditions in `isQuotable`. -/
theorem isInert_of_isQuotable {c : Char} (h : isQuotable c = true) :
    isInert operandStop c = true := by
  simp only [isQuotable, Bool.and_eq_true, Bool.not_eq_true', bne_iff_ne, ne_eq] at h
  obtain ⟨⟨⟨⟨⟨⟨-, hopen⟩, hclose⟩, hbar⟩, hand⟩, hcomma⟩, heq⟩ := h
  simp [isInert, operandStop, hopen, hclose, hbar, hand, hcomma, heq]

/-- Every character of a quoted literal is inert, those of its quotes
included. -/
theorem QuotedLiteral.isInert_mem (s : QuotedLiteral) {c : Char}
    (hc : c ∈ s.quote :: (s.content ++ [s.quote])) : isInert operandStop c = true := by
  simp only [List.mem_cons, List.mem_append, List.not_mem_nil, or_false] at hc
  rcases hc with rfl | hmem | rfl
  · exact s.isInert_quote
  · exact isInert_of_isQuotable (s.content_isQuotable c hmem)
  · exact s.isInert_quote

/-- The text of a quoted literal is neat. -/
theorem QuotedLiteral.neat (s : QuotedLiteral) :
    Neat operandStop (s.quote :: (s.content ++ [s.quote])) := by
  refine neat_of_inert (fun c hc => s.isInert_mem hc) ?_
  exact ⟨⟨s.quote, rfl, s.not_isBlank_quote⟩,
    ⟨s.quote, by rw [← List.cons_append, List.getLast?_concat], s.not_isBlank_quote⟩⟩

/-- A neat text in parentheses is neat for every class of separators:
whatever it shows at its top level is inside of brackets now. -/
theorem Neat.wrap {stop : Char → Bool} {cs : List Char} (stop' : Char → Bool)
    (h : Neat stop cs) : Neat stop' ('(' :: (cs ++ [')'])) where
  closed := h.closed.bracket stop' (by decide) (by decide) (by decide)
  tight := ⟨⟨'(', rfl, by decide⟩,
    ⟨')', by rw [← List.cons_append, List.getLast?_concat], by decide⟩⟩
  parens := h.parens.wrap

/-- A text that hides many separators hides fewer of them too. -/
theorem Neat.mono {stop stop' : Char → Bool} (hsub : ∀ c, stop' c = true → stop c = true)
    {cs : List Char} (h : Neat stop cs) : Neat stop' cs :=
  ⟨h.closed.mono hsub, h.tight, h.parens⟩

/-- Two neat texts with inert characters between them are neat together.
The blanks around a bar and the dot of a qualified name are such
characters. -/
theorem Neat.join {stop : Char → Bool} {as cs : List Char} (ha : Neat stop as)
    {b : List Char} (hb : b.all (isInert stop) = true) (hc : Neat stop cs) :
    Neat stop (as ++ b ++ cs) where
  closed := (ha.closed.append (closed_of_inert (List.all_eq_true.mp hb))).append hc.closed
  tight := ha.tight.append hc.tight
  parens := (ha.parens.append
    (parensEven_of_inert fun c hmem =>
      not_paren_of_isInert (List.all_eq_true.mp hb c hmem))).append hc.parens

/-- What separates the arguments of a type is also kept inside of an
operand. -/
theorem exprStop_sub (c : Char) (h : exprStop c = true) : operandStop c = true := by
  simp only [exprStop, operandStop, Bool.or_eq_true] at h ⊢
  exact h.imp .inr id

/-- The word `undefined` in parentheses is neat for every class that an
operand keeps to itself. With no parentheses it is a word, and otherwise
a neat text in parentheses. -/
theorem neat_wrappedUndefined (stop : Char → Bool)
    (hsub : ∀ c, stop c = true → operandStop c = true) (n : Nat) :
    Neat stop (wrappedUndefined n) := by
  cases n with
  | zero => exact (TypeWord.toPlainName .undefined).neat.mono hsub
  | succ n => exact (neat_wrappedUndefined operandStop (fun _ => id) n).wrap stop

-- The three kinds of types are printed into one another, so one induction runs over all of them.
mutual

/-- The text of an operand is neat, and keeps all separators inside of
its brackets. -/
theorem TypeOperand.neat : (o : TypeOperand) → Neat operandStop o.print
  | .word w => w.toPlainName.neat
  | .integer n => neat_of_isNamePart (by simp [TypeOperand.print]) fun _ => n.isNamePart_mem
  | .quoted s => s.neat
  | .name n => n.toPlainName.neat
  | .dotted space name => by
      have h := space.neat.join (b := ['.']) (by decide) name.neat
      simpa [TypeOperand.print] using h
  -- The front is that of the element, the end is the bracket, and the brackets have no
  -- parentheses.
  | .array element => by
      have hbrackets : Closed operandStop ['[', ']'] := by decide
      refine ⟨element.neat.closed.append hbrackets, ⟨?_, ?_⟩, element.neat.parens.append ?_⟩
      · obtain ⟨c, hc, hblank⟩ := element.neat.tight.first
        exact ⟨c, by simp [TypeOperand.print, List.head?_append, hc], hblank⟩
      · exact ⟨']', by simp [TypeOperand.print], by decide⟩
      · exact parensEven_of_inert (by simp)
  -- The arguments hide nothing outside of their brackets, but the brackets hide it all.
  | .generic head args => by
      obtain ⟨hclosed, hparens⟩ := args.neat
      refine ⟨head.neat.closed.append (hclosed.bracket operandStop (by decide) (by decide)
        (by decide)), ⟨?_, ?_⟩, ?_⟩
      · obtain ⟨c, hc, hblank⟩ := head.neat.tight.first
        exact ⟨c, by simp [TypeOperand.print, List.head?_append, hc], hblank⟩
      · exact ⟨'>', by simp [TypeOperand.print, List.getLast?_cons], by decide⟩
      · have hopen : ParensEven ['<'] := parensEven_of_inert (by simp)
        have hclose : ParensEven ['>'] := parensEven_of_inert (by simp)
        have h := head.neat.parens.append (hopen.append (hparens.append hclose))
        simpa [TypeOperand.print] using h
  | .parens inner => inner.neat.wrap operandStop

/-- The text of a type is neat, and keeps the separators of arguments
inside of its brackets. The bar of a union is not among them. -/
theorem TypeExpr.neat : (e : TypeExpr) → Neat exprStop e.print
  | .operand o => o.neat.mono exprStop_sub
  | .orUndefined o wraps =>
      (o.neat.mono exprStop_sub).join (by decide)
        (neat_wrappedUndefined exprStop exprStop_sub wraps)

/-- The text of arguments is closed and has its parentheses balanced. It
need not hide any separator, since it only ever stands in angle
brackets. -/
theorem TypeArgs.neat : (as : TypeArgs) → Closed (fun _ => false) as.print ∧ ParensEven as.print
  | .last e => ⟨e.neat.closed.mono (by simp), e.neat.parens⟩
  | .more e rest => by
      obtain ⟨hclosed, hparens⟩ := rest.neat
      have hcomma : Closed (fun _ => false) [',', ' '] := by decide
      exact ⟨((e.neat.closed.mono (by simp)).append hcomma).append hclosed,
        (e.neat.parens.append (parensEven_of_inert (by simp))).append hparens⟩

end

/-- A text that begins with name characters does not begin with a
parenthesis, whatever follows them. -/
theorem append_ne_paren_cons {as : List Char} (hne : as ≠ [])
    (h : ∀ c ∈ as, isNamePart c = true) (bs cs : List Char) : as ++ bs ≠ '(' :: cs := by
  obtain ⟨c, ds, rfl⟩ := List.exists_cons_of_ne_nil hne
  intro heq
  simp only [List.cons_append, List.cons.injEq] at heq
  exact ne_of_isNamePart (h c (.head _)) (not_isNamePart_of_mem_punctuation (by decide)) heq.1

/-- A printed operand that begins with a parenthesis closes it again, so
the text after that parenthesis has one parenthesis too many. The test
for a redundant pair of parentheses therefore never takes the first
character of one operand and the last of another for a pair. -/
theorem TypeOperand.parensBalanced_tail :
    (o : TypeOperand) → ∀ cs, o.print = '(' :: cs → ∀ rest, parensBalanced 0 (cs ++ rest) = false
  | .parens inner, cs, h, rest => by
      simp only [TypeOperand.print, List.cons.injEq, true_and] at h
      rw [← h, List.append_assoc]
      exact parensBalanced_surplus inner.neat.parens rest
  | .array element, cs, h, rest => by
      -- The parenthesis belongs to the element, and the square brackets join the rest.
      obtain ⟨c, hc, -⟩ := element.neat.tight.first
      obtain ⟨ds, hds⟩ := List.head?_eq_some_iff.mp hc
      simp only [TypeOperand.print, hds, List.cons_append, List.cons.injEq] at h
      rw [← h.2, List.append_assoc]
      exact element.parensBalanced_tail ds (by rw [hds, h.1]) _
  | .quoted s, cs, h, rest => by
      simp only [TypeOperand.print, List.cons.injEq] at h
      exact absurd h.1 (not_paren_of_isInert s.isInert_quote).1
  | .word w, cs, h, rest =>
      absurd ((List.append_nil _).trans h)
        (append_ne_paren_cons w.toPlainName.ne_nil (fun _ => w.toPlainName.isNamePart_mem) _ _)
  | .name n, cs, h, rest =>
      absurd ((List.append_nil _).trans h)
        (append_ne_paren_cons n.ne_nil (fun _ => n.isNamePart_mem) _ _)
  | .integer n, cs, h, rest =>
      absurd ((List.append_nil _).trans h)
        (append_ne_paren_cons (by simp) (fun _ => n.isNamePart_mem) _ _)
  | .dotted space _, cs, h, rest =>
      absurd h (append_ne_paren_cons space.ne_nil (fun _ => space.isNamePart_mem) _ _)
  | .generic head _, cs, h, rest =>
      absurd h (append_ne_paren_cons head.ne_nil (fun _ => head.isNamePart_mem) _ _)

/-! ### The resolved form is what the tree is resolved to -/

/-- A text without blanks is one word, or none, so leaving out the
blanks between its words changes nothing. -/
theorem flatten_words {cs : List Char} (h : ∀ c ∈ cs, isBlank c = false) :
    (words cs).flatten = cs := by
  induction cs with
  | nil => rfl
  | cons c cs ih =>
      have hc := h c (.head _)
      have hcs : ∀ d ∈ cs, isBlank d = false := fun d hd => h d (.tail _ hd)
      have ih := ih hcs
      cases cs with
      | nil => simp [words, hc]
      | cons d ds =>
          have hd := hcs d (.head _)
          rw [words]
          simp only [hc, hd, List.head?_cons, Option.map_some, Option.getD_some,
            Bool.false_eq_true, if_false]
          -- The character joins the first word of the rest, which exists because the rest is
          -- not empty.
          cases hw : words (d :: ds) with
          | nil =>
              rw [hw] at ih
              cases ih
          | cons w ws =>
              rw [hw] at ih
              simpa using ih

/-- Squeezing the blanks out of a text without blanks leaves it as it
is. -/
theorem squeezeString_of_not_isBlank {cs : List Char} (h : ∀ c ∈ cs, isBlank c = false) :
    squeezeString (String.ofList cs) = String.ofList cs := by
  rw [squeezeString, squeeze, String.toList_ofList, flatten_words h]

/-- A plain name has no blanks to squeeze out, so a reference is
resolved under the name as it was written. -/
theorem PlainName.squeezeString_text (n : PlainName) : squeezeString n.text = n.text :=
  squeezeString_of_not_isBlank fun _ hc => not_isBlank_of_isNamePart (n.isNamePart_mem hc)

/-- The same for a dotted name: its dot is no blank either. -/
theorem squeezeString_dotted (space name : PlainName) :
    squeezeString (TypeOperand.dotted space name).text = (TypeOperand.dotted space name).text := by
  refine squeezeString_of_not_isBlank fun c hc => ?_
  simp only [TypeOperand.print, List.mem_append, List.mem_cons] at hc
  rcases hc with hspace | rfl | hname
  · exact not_isBlank_of_isNamePart (space.isNamePart_mem hspace)
  · decide
  · exact not_isBlank_of_isNamePart (name.isNamePart_mem hname)

/-- The concrete tree of a word is resolved to the plain shape of the
word, whichever of its three kinds of nodes it has. -/
theorem TypeWord.resolve?_node (start : Nat) (w : TypeWord) :
    (w.node start).resolve? = some (.plain w.text w.shape) := by
  cases w <;>
    simp [TypeWord.node, TypeNode.resolve?, shape, LiteralKind.shape, predefinedShape, text]

/-- A name that is no word is not `undefined`, which would be resolved
as the word. -/
theorem TypeName.text_ne_undefined (n : TypeName) : n.text ≠ "undefined" := by
  intro htext
  refine n.notWord .undefined ?_
  rw [← String.toList_ofList (l := n.chars), ← PlainName.text, htext]
  rfl

/-- Parentheses around `undefined` leave no trace in the resolved form,
not even in its text. -/
theorem resolve?_undefinedNode (start n : Nat) :
    (undefinedNode start n).resolve? = some (.plain "undefined" .undefined) := by
  induction n generalizing start with
  | zero => exact TypeWord.resolve?_node start .undefined
  | succ n ih =>
      rw [undefinedNode, TypeNode.resolve?]
      exact ih (start + 1)

mutual

/-- The concrete tree of an operand is resolved to its resolved form,
wherever it was written. -/
theorem TypeOperand.resolve?_node (start : Nat) :
    (o : TypeOperand) → (o.node start).resolve? = some o.lowered
  | .word w => w.resolve?_node start
  | .integer n => by
      rw [TypeOperand.node, TypeOperand.lowered, TypeNode.resolve?]
      rfl
  | .quoted s => by
      -- A template and a literal have different nodes but one shape.
      rw [TypeOperand.node, TypeOperand.lowered]
      split
      · rw [TypeNode.resolve?]
      · rw [TypeNode.resolve?]
        rfl
  | .name n => by
      rw [TypeOperand.node, TypeOperand.lowered, TypeNode.resolve?, nameType,
        if_neg n.text_ne_undefined]
  | .dotted space name => by
      rw [TypeOperand.node, TypeOperand.lowered, TypeNode.resolve?, squeezeString_dotted]
  | .array element => by
      rw [TypeOperand.node, TypeOperand.lowered, TypeNode.resolve?, TypeNode.resolvePart,
        element.resolve?_node start]
      rfl
  | .generic head args => by
      rw [TypeOperand.node, TypeOperand.lowered, TypeNode.resolve?, head.squeezeString_text,
        args.resolveParts_nodes]
  | .parens inner => by
      rw [TypeOperand.node, TypeOperand.lowered, TypeNode.resolve?]
      exact inner.resolve?_node (start + 1)

/-- The concrete tree of a type is resolved to its resolved form. For a
union both members are resolved first, and the member `undefined` makes
it nullable. -/
theorem TypeExpr.resolve?_node (start : Nat) :
    (e : TypeExpr) → (e.node start).resolve? = some e.lowered
  | .operand o => o.resolve?_node start
  | .orUndefined o wraps => by
      have hall : TypeNode.resolveAll?
          [o.node start, undefinedNode (start + o.print.length + 3) wraps]
            = some [o.lowered, .plain "undefined" .undefined] := by
        simp [TypeNode.resolveAll?, o.resolve?_node start, resolve?_undefinedNode]
      rw [TypeExpr.node, TypeExpr.lowered, TypeNode.resolve?, hall]
      rfl

/-- The trees of arguments are resolved one by one. None of them fails,
so no argument is left as a text. -/
theorem TypeArgs.resolveParts_nodes (start : Nat) :
    (as : TypeArgs) → TypeNode.resolveParts (as.nodes start) = as.lowered
  | .last e => by
      rw [TypeArgs.nodes, TypeArgs.lowered, TypeNode.resolveParts, TypeNode.resolvePart,
        e.resolve?_node start, TypeNode.resolveParts]
      rfl
  | .more e rest => by
      rw [TypeArgs.nodes, TypeArgs.lowered, TypeNode.resolveParts, TypeNode.resolvePart,
        e.resolve?_node start, rest.resolveParts_nodes]
      rfl

end

/-- So a type position with such a tree is always mapped by its shape,
never by its text. -/
theorem TypeExpr.toTypeRef_node (start : Nat) (e : TypeExpr) :
    (e.node start).toTypeRef = .resolved e.lowered := by
  rw [TypeNode.toTypeRef, e.resolve?_node start]

end Externals
