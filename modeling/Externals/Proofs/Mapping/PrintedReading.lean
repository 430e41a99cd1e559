import Externals.Proofs.Mapping.TypeExpr
import Mathlib.Data.List.TakeWhile

/-!
# `Externals.Proofs.Mapping.PrintedReading`: reading a printed type

The reading of a text is found by many questions, each answered by a
scanner of its own. For the text of a type expression all of them
come down to the form of the expression, and this module gives the
reading of each form in terms of the readings of its parts.

* `ofText_word`, `ofText_name`, `ofText_integer`, `ofText_quoted`,
  `ofText_dotted`: the forms without parts.
* `ofText_array`, `ofText_generic`, `ofText_parens`,
  `ofText_orUndefined_bare`: the forms with parts.
* `ofText_orUndefined_wrapped`: a union whose `undefined` stands in
  parentheses is a type without a rule.
* `ofResolved_…`: the readings of the resolved forms.
-/

set_option autoImplicit false

namespace Externals

open Text Source

/-! ### One step of a reading -/

namespace Reading

/-- A text is read as `T | undefined` if it is one, and else by its
answers, where the parts are read in turn. This is the recursion of the
reading as one equation, without the proofs that make it terminate. -/
theorem ofText_eq (t : TypeText) :
    ofText t = match t.nullableInner? with
      | some inner => nullable (trimString t.text) (ofText inner)
      | none =>
          ofAnswers (trimString t.text) t.symbol? t.qualified? t.isString t.isBoolean t.isNumber
            (t.element?.map ofText) t.isVoid (t.promise?.map fun a => a.map ofText) t.isDynamic
            t.isSelf := by
  rw [ofText]
  split
  · rename_i inner hinner
    rw [hinner]
  · rename_i hinner
    rw [hinner]
    -- The parts are read under a proof that they are parts, which the result does not show.
    congr 1
    · split <;> rename_i h <;> rw [h] <;> rfl
    · split <;> rename_i h <;> rw [h] <;> rfl

end Reading

/-- A text without blanks at its ends is not changed by trimming, so
readings carry the text as it was printed. -/
theorem trimString_of_tight {cs : List Char} (h : Tight cs) :
    trimString (String.ofList cs) = String.ofList cs := by
  rw [trimString, String.toList_ofList, trim_of_tight h]

/-! ### Names with arguments -/

/-- A text without `<`, in the form that `takeWhile` and `dropWhile` ask
for. -/
theorem ne_angle_of_not_mem {cs : List Char} (h : '<' ∉ cs) : ∀ c ∈ cs, (c != '<') = true := by
  intro c hc
  rw [bne_iff_ne]
  rintro rfl
  exact h hc

/-- Without `<` there are no type arguments to split off. Names,
literals and words are told from generic types by this. -/
theorem splitGeneric_of_not_mem {cs : List Char} (h : '<' ∉ cs) : splitGeneric cs = none := by
  have hdrop : cs.dropWhile (· != '<') = [] :=
    List.dropWhile_eq_nil_iff.mpr (ne_angle_of_not_mem h)
  simp [splitGeneric, hdrop]

/-- A text that closes its brackets, with more to come after it, does
not end in the bracket that closes its first `<`. So `A<B>[]` and `A<B>
| undefined` are not taken for a name with arguments. -/
theorem splitGeneric_closed_append {stop : Char → Bool} {cs suffix : List Char}
    (h : Closed stop cs) (hmem : '<' ∉ suffix) (hne : suffix ≠ []) :
    splitGeneric (cs ++ suffix) = none := by
  by_cases hangle : '<' ∈ cs
  · -- The search starts behind the first `<` and ends before the suffix.
    obtain ⟨front, rest, rfl, hfront⟩ := List.eq_append_cons_of_mem hangle
    have hwalk : walk stop 0 (front ++ '<' :: rest) = some 0 := h
    rw [walk_append, Option.bind_eq_some_iff] at hwalk
    obtain ⟨depth, -, hwalk⟩ := hwalk
    rw [walk_opening (by decide)] at hwalk
    -- The walk ends at depth 0, so it crosses back below the depth that the `<` opened.
    obtain ⟨inside, after, hclosed⟩ := untilClosed_crossing (by decide : '<' ≠ '=') 1 hwalk
      (Nat.le_refl 1) (by omega) suffix
    have hdrop : (front ++ '<' :: rest ++ suffix).dropWhile (· != '<')
        = '<' :: (rest ++ suffix) := by
      rw [List.append_assoc, List.dropWhile_append_of_pos (ne_angle_of_not_mem hfront)]
      simp
    rw [splitGeneric, hdrop]
    simp only
    rw [show (1 : Int) = ((1 : Nat) : Int) from rfl, hclosed]
    cases hafter : after ++ suffix with
    | nil => exact absurd (List.append_eq_nil_iff.mp hafter).2 hne
    | cons c cs => rfl
  · refine splitGeneric_of_not_mem ?_
    simp [hangle, hmem]

/-- A head without `<`, and closed arguments in angle brackets: the two
parts are found again, as they were written. -/
theorem splitGeneric_angle {stop : Char → Bool} {head args : List Char} (hhead : '<' ∉ head)
    (ht : Tight head) (h : Closed stop args) :
    splitGeneric (head ++ '<' :: (args ++ ['>'])) = some (head, args) := by
  have hkeep := ne_angle_of_not_mem hhead
  have hdrop : (head ++ '<' :: (args ++ ['>'])).dropWhile (· != '<') = '<' :: (args ++ ['>']) := by
    rw [List.dropWhile_append_of_pos hkeep]
    simp
  have htake : (head ++ '<' :: (args ++ ['>'])).takeWhile (· != '<') = head := by
    rw [List.takeWhile_append_of_pos hkeep]
    simp
  -- The arguments close what they open, so the search stops at the last bracket and not before.
  have hclosed : untilClosed '<' 1 (args ++ ['>']) = some (args, []) := by
    have happend := untilClosed_append (by decide : '<' ≠ '=') h ['>']
    have hlast : untilClosed ' ' 1 ['>'] = some ([], []) := by decide
    rw [Int.natCast_zero, Int.zero_add, hlast] at happend
    simpa using happend
  rw [splitGeneric, hdrop]
  simp only [hclosed, htake, trim_of_tight ht]

/-! ### Texts that end in a bracket

A name, a literal and a word never do, so most questions are answered
by the last character. -/

/-- All characters of a text that is a name are name characters, the
first one included. -/
theorem isNamePart_of_isName {cs : List Char} (h : isName cs = true) {c : Char} (hc : c ∈ cs) :
    isNamePart c = true :=
  (PlainName.mk cs h).isNamePart_mem hc

/-- A closing bracket cannot be in a name. This is the fact behind all
answers for a text that ends in one. -/
theorem not_isNamePart_of_isClosing {c : Char} (h : isClosing c = true) :
    isNamePart c = false := by
  simp only [isClosing, Bool.or_eq_true, beq_iff_eq] at h
  rcases h with ((rfl | rfl) | rfl) | rfl <;> exact not_isNamePart_of_mem_punctuation (by decide)

/-- One character that cannot be in a name is enough for a text to be
none. -/
theorem isName_eq_false_of_mem {cs : List Char} {c : Char} (hmem : c ∈ cs)
    (hc : isNamePart c = false) : isName cs = false := by
  rw [Bool.eq_false_iff]
  intro hname
  rw [isNamePart_of_isName hname hmem] at hc
  cases hc

/-- A text whose last character cannot be in a name is no dotted name
either: the part behind the dot would end in that character. -/
theorem dottedName?_of_last {cs : List Char} {c : Char} (hlast : cs.getLast? = some c)
    (hc : isNamePart c = false) : dottedName? cs = none := by
  unfold dottedName?
  split
  · rfl
  · rename_i d name hdrop
    have hname : isName name = false := by
      cases name with
      | nil => rfl
      -- The part behind the first dot ends where the whole text ends.
      | cons e es =>
          refine isName_eq_false_of_mem (c := c) ?_ hc
          obtain ⟨front, hfront⟩ := List.dropWhile_suffix (· != '.') (l := cs)
          rw [hdrop] at hfront
          rw [← hfront, List.getLast?_append] at hlast
          simp only [List.getLast?_cons_cons, List.getLast?_eq_some_getLast (List.cons_ne_nil e es),
            Option.some_or, Option.some.injEq] at hlast
          rw [← hlast]
          exact List.getLast_mem _
    simp [hname]

/-- A text is quoted only if its last character is the quote. So a text
that ends in a bracket or in a letter is no literal. -/
theorem isQuotedBy_of_last {quote c : Char} {cs : List Char} (hlast : cs.getLast? = some c)
    (hc : c ≠ quote) : isQuotedBy quote cs = false := by
  cases cs with
  | nil => rfl
  | cons d ds =>
      cases ds with
      | nil => simp [isQuotedBy]
      | cons e es =>
          rw [List.getLast?_cons_cons] at hlast
          simp [isQuotedBy, hlast, hc]

/-- A text that does not end in a quote is a string type only as the
word `string`. -/
theorem isString_of_not_quoted {cs : List Char} {c : Char} (hlast : cs.getLast? = some c)
    (hc : c ∉ quoteMarks) : TypeText.isString ⟨cs⟩ = (cs == "string".toList) := by
  have hquoted : (quoteMarks.any fun quote => isQuotedBy quote cs) = false := by
    rw [List.any_eq_false]
    intro quote hquote
    rw [isQuotedBy_of_last hlast (by rintro rfl; exact hc hquote)]
    exact Bool.false_ne_true
  simp only [TypeText.isString, hquoted, Bool.or_false]

/-- The text is spelled like none of the words. Then none of the rules
for words answers it. -/
def IsNoWord (cs : List Char) : Prop := ∀ w : TypeWord, w.chars ≠ cs

/-- Every word is a name, so a text that is no name is no word. Arrays,
generic types and unions are told from words by this. -/
theorem isNoWord_of_not_isName {cs : List Char} (h : isName cs = false) : IsNoWord cs := by
  rintro w rfl
  rw [w.isName_chars] at h
  cases h

namespace IsNoWord

variable {cs : List Char} (h : IsNoWord cs)
include h

/-- The comparison with each word fails, as the scanners write it. The
lemmas below use it once for each word that they ask for. -/
theorem text_ne (w : TypeWord) : (TypeText.text ⟨cs⟩ == w.text) = false := by
  rw [beq_eq_false_iff_ne]
  intro heq
  refine h w ?_
  rw [TypeWord.chars, ← heq, TypeText.text, String.toList_ofList]

/-- It is no Boolean, neither the word nor one of its two literals. -/
theorem isBoolean : TypeText.isBoolean ⟨cs⟩ = false := by
  rw [TypeText.isBoolean, show "boolean" = TypeWord.boolean.text from rfl, h.text_ne,
    show "true" = TypeWord.yes.text from rfl, h.text_ne, show "false" = TypeWord.no.text from rfl,
    h.text_ne]
  rfl

/-- It is neither `undefined` nor `void`. -/
theorem isVoid : TypeText.isVoid ⟨cs⟩ = false := by
  rw [TypeText.isVoid, show "undefined" = TypeWord.undefined.text from rfl, h.text_ne,
    show "void" = TypeWord.void.text from rfl, h.text_ne]
  rfl

/-- It is none of the three words that are mapped to a dynamic type. -/
theorem isDynamic : TypeText.isDynamic ⟨cs⟩ = false := by
  rw [TypeText.isDynamic, show "object" = TypeWord.object.text from rfl, h.text_ne,
    show "any" = TypeWord.any.text from rfl, h.text_ne,
    show "unknown" = TypeWord.unknown.text from rfl, h.text_ne]
  rfl

/-- It is no number, if it is no literal of one. -/
theorem isNumber (hnumber : isNumberLiteral cs = false) : TypeText.isNumber ⟨cs⟩ = false := by
  rw [TypeText.isNumber, hnumber, Bool.or_false]
  exact h.text_ne .number

/-- It is no string, if it does not end in a quote. -/
theorem isString {c : Char} (hlast : cs.getLast? = some c) (hc : c ∉ quoteMarks) :
    TypeText.isString ⟨cs⟩ = false := by
  rw [isString_of_not_quoted hlast hc]
  exact beq_eq_false_iff_ne.mpr fun heq => h .string heq.symm

end IsNoWord

/-- No bracket closes in the text. Every form of a number literal has
this property, which is how a text that ends in a bracket is seen to be
none. -/
def NoClosing (cs : List Char) : Prop := ∀ c ∈ cs, isClosing c = false

/-- One further character that is no closing bracket, in front of a text
without one. -/
theorem noClosing_cons {c : Char} {cs : List Char} (hc : isClosing c = false)
    (h : NoClosing cs) : NoClosing (c :: cs) := by
  intro d hd
  cases hd with
  | head => exact hc
  | tail _ hmem => exact h d hmem

/-- A run of characters of a class without closing brackets, and a rest
without them. The parts of a number are scanned off in this way. -/
theorem noClosing_of_dropWhile {p : Char → Bool} (hp : ∀ c, p c = true → isClosing c = false)
    {cs : List Char} (h : NoClosing (cs.dropWhile p)) : NoClosing cs := by
  intro c hc
  rw [← List.takeWhile_append_dropWhile (p := p) (l := cs), List.mem_append] at hc
  rcases hc with htake | hdrop
  · exact hp c (List.all_eq_true.mp List.all_takeWhile c htake)
  · exact h c hdrop

/-- A class of characters that has none of the four closing brackets.
The condition is one evaluation for each class. -/
theorem not_isClosing_of {p : Char → Bool}
    (hp : (['>', ')', ']', '\x7d'].all fun c => !p c) = true) (c : Char) (h : p c = true) :
    isClosing c = false := by
  rw [Bool.eq_false_iff]
  intro hclose
  simp only [isClosing, Bool.or_eq_true, beq_iff_eq] at hclose
  have hmem : c ∈ ['>', ')', ']', '\x7d'] := by
    simpa [or_assoc] using hclose
  have hnot := List.all_eq_true.mp hp c hmem
  rw [h] at hnot
  cases hnot

/-- No digit of any script is a closing bracket. -/
theorem not_isClosing_of_isDigit (c : Char) (h : isDigit c = true) : isClosing c = false :=
  not_isClosing_of (p := isDigit) (by decide +kernel) c h

/-- A run of digits has no closing bracket. -/
theorem noClosing_of_isDigits {cs : List Char} (h : isDigits cs = true) : NoClosing cs := by
  simp only [isDigits, Bool.and_eq_true, List.all_eq_true] at h
  exact fun c hc => not_isClosing_of_isDigit c (h.2 c hc)

/-- Neither has an exponent: a letter, perhaps a sign, and digits. -/
theorem noClosing_of_isExponent {cs : List Char} (h : isExponent cs = true) : NoClosing cs := by
  cases cs with
  | nil => exact fun c hc => nomatch hc
  | cons e cs =>
      simp only [isExponent, Bool.and_eq_true, Bool.or_eq_true, beq_iff_eq] at h
      have he : isClosing e = false := by rcases h.1 with rfl | rfl <;> decide
      refine noClosing_cons he ?_
      cases cs with
      | nil => exact fun c hc => nomatch hc
      | cons c rest =>
          have hrest := h.2
          simp only at hrest
          -- The sign may be missing, and then the next character is a digit already.
          split at hrest
          · rename_i hsign
            refine noClosing_cons ?_ (noClosing_of_isDigits hrest)
            rcases hsign with rfl | rfl <;> decide
          · exact noClosing_of_isDigits hrest

/-- Nor what may follow the digits of a decimal number: a fraction, an
exponent, both or nothing. -/
theorem noClosing_of_isFractionAndExponent {cs : List Char}
    (h : isFractionAndExponent cs = true) : NoClosing cs := by
  cases cs with
  | nil => exact fun c hc => nomatch hc
  | cons c cs =>
      simp only [isFractionAndExponent] at h
      -- With a dot there are digits in front of the exponent; without one it starts at once.
      split at h
      · rename_i hdot
        rw [beq_iff_eq] at hdot
        subst hdot
        rw [Bool.and_eq_true] at h
        exact noClosing_cons (by decide)
          (noClosing_of_dropWhile not_isClosing_of_isDigit (noClosing_of_isExponent h.2))
      · exact noClosing_of_isExponent h

/-- Nor a decimal number, whose digits may be grouped by underscores. So
no number literal ends like an array or a generic type. -/
theorem noClosing_of_isDecimal {cs : List Char} (h : isDecimal cs = true) : NoClosing cs := by
  cases cs with
  | nil => exact fun c hc => nomatch hc
  | cons c cs =>
      simp only [isDecimal, Bool.and_eq_true] at h
      refine noClosing_cons (not_isClosing_of_isDigit c h.1) ?_
      exact noClosing_of_dropWhile (not_isClosing_of (by decide +kernel))
        (noClosing_of_isFractionAndExponent h.2)

/-- Nor a hexadecimal number. -/
theorem noClosing_of_isHexadecimal {cs : List Char} (h : isHexadecimal cs = true) :
    NoClosing cs := by
  unfold isHexadecimal at h
  split at h
  · rename_i z x cs
    simp only [Bool.and_eq_true, Bool.or_eq_true, beq_iff_eq, List.all_eq_true] at h
    obtain ⟨⟨⟨rfl, hx⟩, -⟩, hcs⟩ := h
    -- The zero, the letter behind it, then the digits.
    refine noClosing_cons (by decide) (noClosing_cons ?_ ?_)
    · rcases hx with rfl | rfl <;> decide
    · exact fun c hc => not_isClosing_of (p := isHexDigit) (by decide) c (hcs c hc)
  · cases h

/-- So a number literal has no closing bracket, with or without a sign
in front of it. -/
theorem noClosing_of_isNumberLiteral {cs : List Char} (h : isNumberLiteral cs = true) :
    NoClosing cs := by
  have hbody : ∀ body, (isDecimal body || isHexadecimal body) = true → NoClosing body := by
    intro body hb
    rw [Bool.or_eq_true] at hb
    exact hb.elim noClosing_of_isDecimal noClosing_of_isHexadecimal
  cases cs with
  | nil => exact fun c hc => nomatch hc
  | cons c cs =>
      -- The sign is taken off once, and what follows it is read as a number without one.
      by_cases hminus : c = '-'
      · subst hminus
        exact noClosing_cons (by decide) (hbody cs h)
      · have hstart : ((c :: cs).head? == some '-') = false := by simpa using hminus
        simp only [isNumberLiteral, hstart, Bool.false_eq_true, if_false] at h
        exact hbody _ h

/-- A closing bracket is no quote. -/
theorem not_mem_quoteMarks_of_isClosing {c : Char} (h : isClosing c = true) :
    c ∉ quoteMarks := by
  simp only [isClosing, Bool.or_eq_true, beq_iff_eq] at h
  rcases h with ((rfl | rfl) | rfl) | rfl <;> decide

/-- The answers of a text that ends in a closing bracket: it is no name,
no literal and no word. What is left is whether it is an array, a
promise, a union or a name with arguments. -/
structure EndsInBracket (cs : List Char) : Prop where
  isName : isName cs = false
  qualified : TypeText.qualified? ⟨cs⟩ = none
  isString : TypeText.isString ⟨cs⟩ = false
  isBoolean : TypeText.isBoolean ⟨cs⟩ = false
  isNumber : TypeText.isNumber ⟨cs⟩ = false
  isVoid : TypeText.isVoid ⟨cs⟩ = false
  notPromise : (TypeText.text ⟨cs⟩ == "Promise") = false
  isDynamic : TypeText.isDynamic ⟨cs⟩ = false
  isSelf : TypeText.isSelf ⟨cs⟩ = false

/-- A text whose last character is a closing bracket has all these
answers. -/
theorem endsInBracket {cs : List Char} {c : Char} (hlast : cs.getLast? = some c)
    (hc : isClosing c = true) : EndsInBracket cs := by
  have hmem : c ∈ cs := List.mem_of_getLast? hlast
  have hpart := not_isNamePart_of_isClosing hc
  have hname : isName cs = false := isName_eq_false_of_mem hmem hpart
  have hword : IsNoWord cs := isNoWord_of_not_isName hname
  -- A number literal would have no closing bracket at all.
  have hnumber : isNumberLiteral cs = false := by
    rw [Bool.eq_false_iff]
    intro h
    rw [noClosing_of_isNumberLiteral h c hmem] at hc
    cases hc
  have hpromise : (TypeText.text ⟨cs⟩ == "Promise") = false := by
    have hp : isName "Promise".toList = true := by decide +kernel
    rw [beq_eq_false_iff_ne]
    intro heq
    rw [← heq, TypeText.text, String.toList_ofList, hname] at hp
    cases hp
  exact {
    isName := hname
    qualified := by rw [TypeText.qualified?, dottedName?_of_last hlast hpart]; rfl
    isString := hword.isString hlast (not_mem_quoteMarks_of_isClosing hc)
    isBoolean := hword.isBoolean
    isNumber := hword.isNumber hnumber
    isVoid := hword.isVoid
    notPromise := hpromise
    isDynamic := hword.isDynamic
    isSelf := hword.text_ne .self }

/-! ### Parentheses around the whole -/

/-- A text that is not enclosed in parentheses keeps all of them. One
pair is taken off at a time, so this is where it stops. -/
theorem unwrapParens_of_enclosed?_none {cs : List Char} (h : enclosed? cs = none) :
    unwrapParens cs = cs := by
  rw [unwrapParens]
  split
  · rename_i inner hinner
    rw [h] at hinner
    cases hinner
  · rfl

/-- Such a text is its own canonical form, if it has no blanks at its
ends. -/
theorem TypeText.of_of_enclosed?_none {cs : List Char} (ht : Tight cs)
    (h : enclosed? cs = none) : TypeText.of cs = ⟨cs⟩ := by
  rw [TypeText.of, trim_of_tight ht, unwrapParens_of_enclosed?_none h]

/-- Only a text that ends in a parenthesis is enclosed. The first
character would have to be looked at only then. -/
theorem enclosed?_of_last {cs : List Char} {c : Char} (hlast : cs.getLast? = some c)
    (hc : c ≠ ')') : enclosed? cs = none := by
  cases cs with
  | nil => rfl
  | cons d ds =>
      cases ds with
      | nil => simp [enclosed?]
      | cons e es =>
          rw [List.getLast?_cons_cons] at hlast
          simp [enclosed?, hlast, hc]

/-- Parentheses around a neat text come off: its own parentheses are
balanced, so the outer two belong together. -/
theorem TypeText.of_wrap {stop : Char → Bool} {cs : List Char} (h : Neat stop cs) :
    TypeText.of ('(' :: (cs ++ [')'])) = TypeText.of cs := by
  have heven : parensBalanced 0 cs = true := by
    have := h.parens 0 []
    rwa [List.append_nil] at this
  -- The added parentheses are a pair because the text between them is balanced on its own.
  have henclosed : enclosed? ('(' :: (cs ++ [')'])) = some cs := by
    simp [enclosed?, heven]
  rw [TypeText.of, trim_of_tight (h.wrap stop).tight, unwrapParens]
  split
  · rename_i inner hinner
    rw [henclosed] at hinner
    cases hinner
    rfl
  · rename_i hinner
    rw [henclosed] at hinner
    cases hinner

/-! ### Forms without parts -/

/-- The bar is among the separators that an operand keeps inside, so
that an operand is never a union of its own. -/
theorem operandStop_bar (c : Char) (h : (c == '|') = true) : operandStop c = true := by
  simp [operandStop, h]

/-- So is the sign of intersections. -/
theorem operandStop_and (c : Char) (h : (c == '&') = true) : operandStop c = true := by
  simp [operandStop, h]

/-- The comma is among the separators that a type keeps inside, so that
the arguments of a name can be found again. -/
theorem exprStop_comma (c : Char) (h : (c == ',') = true) : exprStop c = true := by
  simp [exprStop, h]

/-- An operand is no union: split at its bars it is one piece, and a
union needs two. -/
theorem nullableInner?_of_neat {cs : List Char} (h : Neat operandStop cs) :
    TypeText.nullableInner? ⟨cs⟩ = none := by
  have hsplit : splitTopLevel '|' cs = [cs] :=
    splitTopLevel_of_closed (h.closed.mono operandStop_bar) h.tight
  simp [TypeText.nullableInner?, hasTopLevelArrow_of_closed h.closed, hsplit]

/-- A text that does not end in `]` is no array by its brackets. It can
still be one by its name. -/
theorem beforeBrackets?_of_last {cs : List Char} {c : Char} (hlast : cs.getLast? = some c)
    (hc : c ≠ ']') : TypeText.beforeBrackets? cs = none := by
  have hsuffix : ['[', ']'].isSuffixOf cs = false := by
    rw [Bool.eq_false_iff]
    intro h
    obtain ⟨front, rfl⟩ := List.isSuffixOf_iff_suffix.mp h
    have : some ']' = some c := by rw [← hlast]; simp
    exact hc (Option.some.inj this).symm
  simp [TypeText.beforeBrackets?, hsuffix]

/-- A text without brackets has nothing to strip, is no array and has no
arguments. This covers words, names, literals and dotted names. -/
theorem noParts_of_inert {cs : List Char} (h : ∀ c ∈ cs, isInert operandStop c = true)
    (ht : Tight cs) :
    TypeText.of cs = ⟨cs⟩ ∧ TypeText.generic? ⟨cs⟩ = none ∧ TypeText.element? ⟨cs⟩ = none := by
  obtain ⟨c, hlast, -⟩ := ht.last
  have hinert := h c (List.mem_of_getLast? hlast)
  -- An inert text has no bracket at all: it ends in none, and no generic form opens in it.
  have hbracket : c ≠ ']' := by
    rintro rfl
    simp [isInert, isClosing] at hinert
  have hgeneric : TypeText.generic? ⟨cs⟩ = none := by
    rw [TypeText.generic?, splitGeneric_of_not_mem]
    · rfl
    · intro hangle
      have := h '<' hangle
      simp [isInert, isOpening] at this
  refine ⟨TypeText.of_of_enclosed?_none ht (enclosed?_of_last hlast
    (not_paren_of_isInert hinert).2), hgeneric, ?_⟩
  rw [TypeText.element?, beforeBrackets?_of_last hlast hbracket, hgeneric]

/-- The reading of a text without brackets, by the questions that
remain: whether it is a name, a dotted name, a word, a literal or a
promise. -/
theorem ofText_of_inert {cs : List Char} (h : ∀ c ∈ cs, isInert operandStop c = true)
    (ht : Tight cs) :
    Reading.ofText (TypeText.of cs)
      = Reading.ofAnswers (String.ofList cs) (if isName cs then some (String.ofList cs) else none)
          (TypeText.qualified? ⟨cs⟩) (TypeText.isString ⟨cs⟩) (TypeText.isBoolean ⟨cs⟩)
          (TypeText.isNumber ⟨cs⟩) none (TypeText.isVoid ⟨cs⟩)
          (if String.ofList cs == "Promise" then some none else none)
          (TypeText.isDynamic ⟨cs⟩) (TypeText.isSelf ⟨cs⟩) := by
  obtain ⟨hof, hgeneric, helement⟩ := noParts_of_inert h ht
  -- Without arguments a promise can only be the bare word, and a symbol only the whole text.
  have hpromise : ((TypeText.promise? ⟨cs⟩).map fun a => a.map Reading.ofText)
      = if String.ofList cs == "Promise" then some none else none := by
    rw [TypeText.promise?, hgeneric, TypeText.text]
    split <;> rfl
  have hsymbol : TypeText.symbol? ⟨cs⟩ = if isName cs then some (String.ofList cs) else none := by
    rw [TypeText.symbol?, hgeneric]
    rfl
  rw [hof, Reading.ofText_eq, nullableInner?_of_neat (neat_of_inert h ht)]
  simp only [helement, hpromise, hsymbol, Option.map_none, TypeText.text, trimString_of_tight ht]

/-- No character of a name means anything to a scanner: it is neither a
bracket nor a separator. -/
theorem isInert_of_isName {cs : List Char} (h : isName cs = true) :
    ∀ c ∈ cs, isInert operandStop c = true :=
  fun _ hc => isInert_of_isNamePart (isNamePart_of_isName h hc)

/-- What a word means where no declaration hides it. Both readings agree
on this part; they differ in whether the scope is asked first. -/
def TypeWord.atom : TypeWord → Atom
  | string => .string
  | boolean => .boolean
  | number => .number
  | void => .void
  | undefined => .void
  | any => .dynamic
  | unknown => .dynamic
  | object => .dynamic
  | self => .self
  | yes => .boolean
  | no => .boolean

/-- A word is read as a name that may be hidden, with the meaning of the
word behind it. -/
theorem ofText_word (w : TypeWord) :
    Reading.ofText (TypeText.of w.chars) = .atom w.text (some w.text) w.atom := by
  rw [ofText_of_inert (isInert_of_isName w.isName_chars) w.toPlainName.neat.tight]
  cases w <;> decide +kernel

/-- The resolved form of a word has the same meaning, but no name: the
scope is not asked for it. -/
theorem ofResolved_word (w : TypeWord) :
    Reading.ofResolved (.plain w.text w.shape) = .atom w.text none w.atom := by
  cases w <;> decide +kernel

/-- A digit is one of the ten or lies outside of the ASCII range. The
table of digits has one range below it. -/
theorem code_of_isDigit {c : Char} (h : isDigit c = true) :
    0x30 ≤ c.toNat ∧ c.toNat ≤ 0x39 ∨ 0x80 ≤ c.toNat := by
  have hranges : ∀ r ∈ digitRanges, r = (0x30, 0x39) ∨ 0x80 ≤ r.1 := by decide +kernel
  obtain ⟨r, hr, hrange⟩ := List.any_eq_true.mp h
  simp only [Bool.and_eq_true, decide_eq_true_eq] at hrange
  rcases hranges r hr with rfl | hlow
  · exact .inl hrange
  · exact .inr (Nat.le_trans hlow hrange.1)

/-- A character that begins a name is the dollar sign, or an ASCII
character from the letters on. -/
theorem code_of_isNameStart {c : Char} (h : isNameStart c = true) :
    c.toNat = 0x24 ∨ 0x41 ≤ c.toNat ∧ c.toNat < 0x80 := by
  simp only [isNameStart, Bool.or_eq_true, beq_iff_eq] at h
  rcases h with (halpha | rfl) | rfl
  · have hletter := code_of_isAlpha halpha
    omega
  · decide
  · decide

/-- No digit begins a name, because the codes of the two kinds do not
overlap. -/
theorem not_isNameStart_of_isDigit {c : Char} (h : isDigit c = true) : isNameStart c = false := by
  rw [Bool.eq_false_iff]
  intro hstart
  have hdigit := code_of_isDigit h
  have hname := code_of_isNameStart hstart
  omega

/-- A name is no number literal: it begins neither with a digit nor with
a sign. -/
theorem not_isNumberLiteral_of_isName {cs : List Char} (h : isName cs = true) :
    isNumberLiteral cs = false := by
  cases cs with
  | nil => rfl
  | cons c cs =>
      simp only [isName, Bool.and_eq_true] at h
      have hne : ∀ d, isNameStart d = false → c ≠ d := by
        rintro d hd rfl
        rw [h.1] at hd
        cases hd
      have hdigit : isDigit c = false := by
        rw [Bool.eq_false_iff]
        exact fun hd => hne c (not_isNameStart_of_isDigit hd) rfl
      have hhead : ((c :: cs).head? == some '-') = false := by
        simpa using hne '-' (by decide)
      -- What remains is a hexadecimal number, which begins with a digit as well.
      simp only [isNumberLiteral, hhead, Bool.false_eq_true, if_false, isDecimal, hdigit]
      cases cs with
      | nil => rfl
      | cons d ds => simp [isHexadecimal, hne '0' (by decide)]

/-- A name character is no quote. -/
theorem not_mem_quoteMarks_of_isNamePart {c : Char} (h : isNamePart c = true) :
    c ∉ quoteMarks := by
  intro hmem
  rw [not_isNamePart_of_mem_punctuation (List.mem_append_right _ hmem)] at h
  cases h

/-- A text without a dot is no dotted name, and so a plain name never
is. -/
theorem dottedName?_of_not_mem {cs : List Char} (h : '.' ∉ cs) : dottedName? cs = none := by
  have hdrop : cs.dropWhile (· != '.') = [] := by
    rw [List.dropWhile_eq_nil_iff]
    intro c hc
    rw [bne_iff_ne]
    rintro rfl
    exact h hc
  simp [dottedName?, hdrop]

/-- A plain name has no dot. -/
theorem dot_not_mem_of_isName {cs : List Char} (h : isName cs = true) : '.' ∉ cs :=
  not_mem_of_isNamePart (fun _ => isNamePart_of_isName h) (by decide)

/-- The name is the one of promises, which has a rule of its own with
arguments and without. -/
def PlainName.isPromise (n : PlainName) : Bool := n.text == "Promise"

/-- A name that is no word is read as a name without a rule, unless it
is the name of promises. -/
theorem ofText_name (n : TypeName) :
    Reading.ofText (TypeText.of n.chars)
      = .atom n.text (some n.text) (if n.isPromise then .barePromise else .unknown) := by
  obtain ⟨c, hlast, -⟩ := n.neat.tight.last
  have hword : IsNoWord n.chars := n.notWord
  -- A name that is no reserved word fails every test for a word; ending in a part of a name,
  -- it is no string either.
  have hquote : c ∉ quoteMarks :=
    not_mem_quoteMarks_of_isNamePart (n.isNamePart_mem (List.mem_of_getLast? hlast))
  rw [ofText_of_inert (isInert_of_isName n.isName) n.neat.tight, n.isName,
    hword.isString hlast hquote, hword.isBoolean,
    hword.isNumber (not_isNumberLiteral_of_isName n.isName), hword.isVoid, hword.isDynamic,
    show TypeText.isSelf ⟨n.chars⟩ = false from hword.text_ne .self, TypeText.qualified?,
    dottedName?_of_not_mem (dot_not_mem_of_isName n.isName)]
  simp only [Reading.ofAnswers, PlainName.isPromise, PlainName.text, Option.map_none]
  by_cases hpromise : String.ofList n.chars == "Promise" <;> simp [hpromise]

/-- The ten digits are among the digits of all scripts, so the literals
of the grammar are literals to the scanner. -/
theorem isDigit_of_isDigit {c : Char} (h : c.isDigit = true) : isDigit c = true := by
  have hmem : (0x30, 0x39) ∈ digitRanges := by
    unfold digitRanges
    exact .head _
  simp only [Char.isDigit, Bool.and_eq_true, decide_eq_true_eq, ge_iff_le,
    UInt32.le_iff_toNat_le] at h
  exact List.any_eq_true.mpr ⟨_, hmem, by simpa using h⟩

/-- An integer literal passes the test for number literals: a digit,
then digits and underscores, and nothing behind them. -/
theorem IntegerLiteral.isNumberLiteral (n : IntegerLiteral) :
    isNumberLiteral (n.first :: n.more) = true := by
  have hminus : n.first ≠ '-' := by
    intro heq
    have := n.first_isDigit
    rw [heq] at this
    revert this
    decide
  -- The digits use up the whole text, so no fraction and no exponent is left to read.
  have hmore : n.more.dropWhile (fun d => isDigit d || d == '_') = [] := by
    rw [List.dropWhile_eq_nil_iff]
    intro c hc
    rcases n.more_isDigit c hc with hd | rfl
    · simp [isDigit_of_isDigit hd]
    · simp
  simp [Externals.isNumberLiteral, isDecimal, hminus, isDigit_of_isDigit n.first_isDigit, hmore,
    isFractionAndExponent]

/-- An integer literal is read as a number. It is spelled with name
characters, but no name begins with a digit. -/
theorem ofText_integer (n : IntegerLiteral) :
    Reading.ofText (TypeText.of (n.first :: n.more))
      = .atom (String.ofList (n.first :: n.more)) none .number := by
  -- A digit is a part of a name but starts none: every test for a name fails, and the test
  -- for a number is the first that holds.
  have hpart : ∀ c ∈ n.first :: n.more, isNamePart c = true := fun _ => n.isNamePart_mem
  have hname : isName (n.first :: n.more) = false := by
    rw [isName, not_isNameStart_of_isDigit (isDigit_of_isDigit n.first_isDigit), Bool.false_and]
  have hdot : '.' ∉ n.first :: n.more := not_mem_of_isNamePart hpart (by decide)
  have hword : IsNoWord (n.first :: n.more) := isNoWord_of_not_isName hname
  have hstring : TypeText.isString ⟨n.first :: n.more⟩ = false := by
    obtain ⟨c, hlast⟩ : ∃ c, (n.first :: n.more).getLast? = some c :=
      ⟨_, List.getLast?_eq_some_getLast (List.cons_ne_nil _ _)⟩
    exact hword.isString hlast
      (not_mem_quoteMarks_of_isNamePart (hpart c (List.mem_of_getLast? hlast)))
  rw [ofText_of_inert (fun c hc => isInert_of_isNamePart (hpart c hc))
    (tight_of_isNamePart (List.cons_ne_nil _ _) hpart), hname, hstring, TypeText.qualified?,
    dottedName?_of_not_mem hdot, hword.isBoolean, TypeText.isNumber, n.isNumberLiteral]
  simp [Reading.ofAnswers]

/-- A quoted literal is read as a string, whichever quote it has. Its
content may hold anything but quotes and marks that a scanner reacts
to. -/
theorem ofText_quoted (s : QuotedLiteral) :
    Reading.ofText (TypeText.of (s.quote :: (s.content ++ [s.quote])))
      = .atom (String.ofList (s.quote :: (s.content ++ [s.quote]))) none .string := by
  have hlast : (s.quote :: (s.content ++ [s.quote])).getLast? = some s.quote := by
    rw [← List.cons_append, List.getLast?_concat]
  have hpart : isNamePart s.quote = false :=
    not_isNamePart_of_mem_punctuation (List.mem_append_right _ s.quote_mem)
  -- A quote inside would end the literal early, and the scanner checks that there is none.
  have hcontent : s.quote ∉ s.content := by
    intro hmem
    have := s.content_isQuotable s.quote hmem
    simp [isQuotable, s.quote_mem] at this
  have hquoted : isQuotedBy s.quote (s.quote :: (s.content ++ [s.quote])) = true := by
    simp [isQuotedBy, hcontent]
  have hstring : TypeText.isString ⟨s.quote :: (s.content ++ [s.quote])⟩ = true := by
    rw [TypeText.isString, Bool.or_eq_true]
    exact .inr (List.any_eq_true.mpr ⟨s.quote, s.quote_mem, hquoted⟩)
  rw [ofText_of_inert (fun c hc => s.isInert_mem hc) s.neat.tight, hstring, TypeText.qualified?,
    dottedName?_of_last hlast hpart, isName_eq_false_of_mem (List.mem_of_getLast? hlast) hpart]
  simp [Reading.ofAnswers]

/-- A dotted name is split at its dot into the two names. There is one
dot, as neither name has one. -/
theorem dottedName?_dotted (space name : PlainName) :
    dottedName? (space.chars ++ '.' :: name.chars) = some (space.chars, name.chars) := by
  have hkeep : ∀ c ∈ space.chars, (c != '.') = true := by
    intro c hc
    rw [bne_iff_ne]
    rintro rfl
    exact dot_not_mem_of_isName space.isName hc
  rw [dottedName?, List.dropWhile_append_of_pos hkeep, List.takeWhile_append_of_pos hkeep]
  simp [space.isName, name.isName]

/-- No character of a dotted name means anything to a scanner of
brackets. -/
theorem isInert_of_mem_dotted (space name : PlainName) :
    ∀ c ∈ space.chars ++ '.' :: name.chars, isInert operandStop c = true := by
  intro c hc
  rw [List.mem_append, List.mem_cons] at hc
  rcases hc with hspace | rfl | hname
  · exact isInert_of_isName space.isName c hspace
  · decide
  · exact isInert_of_isName name.isName c hname

/-- A dotted name is read as a qualified name, to be looked up in the
namespace that its first part names. -/
theorem ofText_dotted (space name : PlainName) :
    Reading.ofText (TypeText.of (space.chars ++ '.' :: name.chars))
      = .atom (String.ofList (space.chars ++ '.' :: name.chars)) none
          (.qualified space.text name.text) := by
  have hdot : isName (space.chars ++ '.' :: name.chars) = false :=
    isName_eq_false_of_mem (c := '.') (by simp) (not_isNamePart_of_mem_punctuation (by decide))
  rw [ofText_of_inert (isInert_of_mem_dotted space name)
    (TypeOperand.neat (.dotted space name)).tight, TypeText.qualified?, dottedName?_dotted, hdot]
  rfl

/-! ### Forms with parts -/

/-- The reading of a text that ends in a closing bracket, once it is
known to be no union and to have nothing to strip. Only the questions
for arguments, elements and promises are left. -/
theorem ofText_of_endsInBracket {cs : List Char} {c : Char} (hlast : cs.getLast? = some c)
    (hc : isClosing c = true) (ht : Tight cs)
    (hinner : TypeText.nullableInner? ⟨cs⟩ = none) :
    Reading.ofText ⟨cs⟩
      = Reading.ofAnswers (String.ofList cs)
          ((TypeText.generic? ⟨cs⟩).map fun g => String.ofList g.1) none false false false
          ((TypeText.element? ⟨cs⟩).map Reading.ofText) false
          ((TypeText.promise? ⟨cs⟩).map fun a => a.map Reading.ofText) false false := by
  have h := endsInBracket hlast hc
  have hsymbol : TypeText.symbol? ⟨cs⟩
      = (TypeText.generic? ⟨cs⟩).map fun g => String.ofList g.1 := by
    simp [TypeText.symbol?, h.isName]
  rw [Reading.ofText_eq, hinner]
  simp only [hsymbol, h.qualified, h.isString, h.isBoolean, h.isNumber, h.isVoid, h.isDynamic,
    h.isSelf, TypeText.text, trimString_of_tight ht]

/-- An operand may stand before square brackets: it is no union, no
intersection and no function type. -/
theorem isSingle_of_neat {cs : List Char} (h : Neat operandStop cs) :
    TypeText.isSingle cs = true := by
  have hbar : splitTopLevel '|' cs = [cs] :=
    splitTopLevel_of_closed (h.closed.mono operandStop_bar) h.tight
  have hand : splitTopLevel '&' cs = [cs] :=
    splitTopLevel_of_closed (h.closed.mono operandStop_and) h.tight
  simp [TypeText.isSingle, hasTopLevelArrow_of_closed h.closed, hbar, hand]

/-- An operand with square brackets is read as an array of the operand.
No name is asked for, so nothing hides the rule. -/
theorem ofText_array (o : TypeOperand) :
    Reading.ofText (TypeText.of (TypeOperand.array o).print)
      = .array (TypeOperand.array o).text none (Reading.ofText (TypeText.of o.print)) := by
  have hneat := (TypeOperand.array o).neat
  have hlast : (TypeOperand.array o).print.getLast? = some ']' := by simp [TypeOperand.print]
  -- The element may itself have arguments, but the square brackets come after them.
  have hgeneric : TypeText.generic? ⟨(TypeOperand.array o).print⟩ = none := by
    rw [TypeText.generic?, TypeOperand.print,
      splitGeneric_closed_append o.neat.closed (by decide) (by decide)]
    rfl
  have hbefore : TypeText.beforeBrackets? (TypeOperand.array o).print = some o.print := by
    have hsuffix : ['[', ']'].isSuffixOf (o.print ++ ['[', ']']) = true :=
      List.isSuffixOf_iff_suffix.mpr (List.suffix_append _ _)
    simp [TypeText.beforeBrackets?, TypeOperand.print, hsuffix]
  have helement : TypeText.element? ⟨(TypeOperand.array o).print⟩ = some (TypeText.of o.print) := by
    simp [TypeText.element?, hbefore, isSingle_of_neat o.neat]
  rw [TypeText.of_of_enclosed?_none hneat.tight (enclosed?_of_last hlast (by decide)),
    ofText_of_endsInBracket hlast (by decide) hneat.tight (nullableInner?_of_neat hneat), hgeneric,
    helement]
  rfl

/-- Parentheses around a type leave no trace in its reading, however
many there are: the canonical form takes all of them off. -/
theorem ofText_parens (e : TypeExpr) :
    Reading.ofText (TypeText.of (TypeOperand.parens e).print)
      = Reading.ofText (TypeText.of e.print) := by
  rw [TypeOperand.print, TypeText.of_wrap e.neat]

namespace TypeArgs

/-- The first argument, the only one that the rules for arrays and
promises look at. -/
def first : TypeArgs → TypeExpr
  | last e => e
  | more e _ => e

/-- There is no other argument. An array has exactly one. -/
def isSingle : TypeArgs → Bool
  | last _ => true
  | more _ _ => false

/-- The texts of the arguments, as the scanner has to find them. -/
def prints : TypeArgs → List (List Char)
  | last e => [e.print]
  | more e rest => e.print :: rest.prints

/-- Splitting the text of arguments at its commas gives back the texts
of the arguments. Each argument keeps its own commas in brackets, and
the blank after a comma is trimmed. -/
theorem splitTopLevel_print (as : TypeArgs) : splitTopLevel ',' as.print = as.prints := by
  cases as with
  | last e => exact splitTopLevel_of_closed (e.neat.closed.mono exprStop_comma) e.neat.tight
  | more e rest =>
      have hcut := splitTopLevel_closed_append (by decide) (by decide) (by decide)
        (e.neat.closed.mono exprStop_comma) (' ' :: rest.print)
      rw [splitTopLevel_space_cons (by decide), trim_of_tight e.neat.tight,
        splitTopLevel_print rest] at hcut
      simpa [print, prints] using hcut

/-- The texts begin with that of the first argument, and end there if it
is single. -/
theorem prints_eq_cons (as : TypeArgs) :
    ∃ rest, as.prints = as.first.print :: rest ∧ as.isSingle = rest.isEmpty := by
  cases as with
  | last e => exact ⟨[], rfl, rfl⟩
  | more e rest =>
      refine ⟨rest.prints, rfl, ?_⟩
      cases rest <;> rfl

/-- The same for the resolved forms, so both readings ask for the same
argument. -/
theorem lowered_eq_cons (as : TypeArgs) :
    ∃ rest, as.lowered = as.first.lowered :: rest ∧ as.isSingle = rest.isEmpty := by
  cases as with
  | last e => exact ⟨[], rfl, rfl⟩
  | more e rest =>
      refine ⟨rest.lowered, rfl, ?_⟩
      cases rest <;> rfl

end TypeArgs

/-- The reading of a name with arguments, from the reading of the first
one: an array or a promise if the name says so. Both readings of such a
type are instances of it. -/
def genericReading (text : String) (head : PlainName) (single : Bool) (first : Reading) : Reading :=
  if isArrayName head.chars && single then .array text (some head.text) first
  else if head.isPromise then .promise text (some head.text) first
  else .atom text (some head.text) .unknown

/-- The answers for a name with arguments make up this reading, in the
order in which the rules are tried: arrays come before promises. -/
theorem ofAnswers_generic (text : String) (head : PlainName) (single : Bool) (first : Reading) :
    Reading.ofAnswers text (some head.text) none false false false
        (if isArrayName head.chars && single then some first else none) false
        (if head.isPromise then some (some first) else none) false false
      = genericReading text head single first := by
  rw [genericReading]
  by_cases harray : isArrayName head.chars && single
  · simp only [harray, if_true]
    rfl
  · by_cases hpromise : head.isPromise <;> simp [harray, hpromise, Reading.ofAnswers]

/-- A name with arguments is read from its head and the reading of its
first argument. -/
theorem ofText_generic (head : TypeName) (args : TypeArgs) :
    Reading.ofText (TypeText.of (TypeOperand.generic head args).print)
      = genericReading (TypeOperand.generic head args).text head.toPlainName args.isSingle
          (Reading.ofText (TypeText.of args.first.print)) := by
  have hneat := (TypeOperand.generic head args).neat
  have hlast : (TypeOperand.generic head args).print.getLast? = some '>' := by
    simp [TypeOperand.print, List.getLast?_cons]
  have hangle : '<' ∉ head.chars := not_mem_of_isNamePart (fun _ => head.isNamePart_mem) (by decide)
  have hgeneric : TypeText.generic? ⟨(TypeOperand.generic head args).print⟩
      = some (head.chars, args.print) := by
    rw [TypeText.generic?, TypeOperand.print,
      splitGeneric_angle hangle head.neat.tight args.neat.1, Option.filter_some, if_pos head.isName]
  obtain ⟨rest, hprints, hsingle⟩ := args.prints_eq_cons
  have helement : TypeText.element? ⟨(TypeOperand.generic head args).print⟩
      = if isArrayName head.chars && args.isSingle then some (TypeText.of args.first.print)
        else none := by
    rw [TypeText.element?, beforeBrackets?_of_last hlast (by decide), hgeneric]
    simp only [args.splitTopLevel_print, hprints, hsingle]
    -- An array name with several arguments is no array.
    cases rest with
    | nil => simp
    | cons second others => simp
  -- The scanner compares characters, the definition compares strings.
  have hhead : (head.chars == "Promise".toList) = head.isPromise := by
    rw [PlainName.isPromise, PlainName.text, Bool.eq_iff_iff, beq_iff_eq, beq_iff_eq]
    constructor
    · intro h
      rw [h, String.ofList_toList]
    · intro h
      rw [← h, String.toList_ofList]
  have hpromise : TypeText.promise? ⟨(TypeOperand.generic head args).print⟩
      = if head.isPromise then some (some (TypeText.of args.first.print)) else none := by
    rw [TypeText.promise?, (endsInBracket hlast (by decide)).notPromise, hgeneric]
    simp only [Bool.false_eq_true, if_false, hhead, args.splitTopLevel_print, hprints,
      List.head?_cons, Option.map_some]
  rw [TypeText.of_of_enclosed?_none hneat.tight (enclosed?_of_last hlast (by decide)),
    ofText_of_endsInBracket hlast (by decide) hneat.tight (nullableInner?_of_neat hneat), hgeneric,
    helement, hpromise, ← ofAnswers_generic]
  congr 1
  · split <;> rfl
  · split <;> rfl

/-! ### Unions with `undefined` -/

/-- A union with `undefined` splits at its bar into the operand and
`undefined`, with its parentheses. -/
theorem splitTopLevel_orUndefined (o : TypeOperand) (wraps : Nat) :
    splitTopLevel '|' (TypeExpr.orUndefined o wraps).print = [o.print, wrappedUndefined wraps] := by
  have hspace : Closed (· == '|') [' '] := by decide
  have hcut := splitTopLevel_closed_append (by decide) (by decide) (by decide)
    ((o.neat.closed.mono operandStop_bar).append hspace) (' ' :: wrappedUndefined wraps)
  have hneat := neat_wrappedUndefined operandStop (fun _ => id) wraps
  rw [splitTopLevel_space_cons (by decide), trim_append_space o.neat.tight,
    splitTopLevel_of_closed (hneat.closed.mono operandStop_bar) hneat.tight] at hcut
  simpa [TypeExpr.print] using hcut

/-- A union is not one pair of parentheses: one that opens it is closed
before the bar. Otherwise `(A) | (undefined)` would lose its outer
characters. -/
theorem enclosed?_orUndefined (o : TypeOperand) (wraps : Nat) :
    enclosed? (TypeExpr.orUndefined o wraps).print = none := by
  obtain ⟨c, hfirst, -⟩ := o.neat.tight.first
  obtain ⟨ds, hds⟩ := List.head?_eq_some_iff.mp hfirst
  have hprint : (TypeExpr.orUndefined o wraps).print
      = c :: (ds ++ ([' ', '|', ' '] ++ wrappedUndefined wraps)) := by
    rw [TypeExpr.print, hds, List.append_assoc, List.cons_append]
  rw [hprint]
  by_cases hparen : c = '('
  · -- Without its first and last character the text closes a parenthesis it does not open.
    subst hparen
    have hopen : parensBalanced 0 (ds ++ ([' ', '|', ' '] ++ wrappedUndefined wraps)).dropLast
        = false := by
      rw [List.dropLast_append_of_ne_nil (by simp)]
      exact o.parensBalanced_tail ds hds _
    simp only [enclosed?, hopen, Bool.and_false, Bool.false_eq_true, if_false]
  · simp [enclosed?, hparen]

/-- So the text of a union is its own canonical form. Parentheses inside
of it belong to its members. -/
theorem TypeText.of_orUndefined (o : TypeOperand) (wraps : Nat) :
    TypeText.of (TypeExpr.orUndefined o wraps).print = ⟨(TypeExpr.orUndefined o wraps).print⟩ :=
  TypeText.of_of_enclosed?_none (TypeExpr.neat _).tight (enclosed?_orUndefined o wraps)

/-- A union with bare `undefined` is read as a nullable type of the
operand. -/
theorem ofText_orUndefined_bare (o : TypeOperand) :
    Reading.ofText (TypeText.of (TypeExpr.orUndefined o 0).print)
      = .nullable (TypeExpr.orUndefined o 0).text (Reading.ofText (TypeText.of o.print)) := by
  have hneat := (TypeExpr.orUndefined o 0).neat
  -- The bar stands outside all brackets, so the text splits into the operand and the word.
  have hinner : TypeText.nullableInner? ⟨(TypeExpr.orUndefined o 0).print⟩
      = some (TypeText.of o.print) := by
    rw [TypeText.nullableInner?, hasTopLevelArrow_of_closed hneat.closed]
    simp [splitTopLevel_orUndefined, wrappedUndefined, TypeWord.chars, TypeWord.text,
      List.intercalate]
  rw [TypeText.of_orUndefined, Reading.ofText_eq, hinner, TypeText.text,
    trimString_of_tight hneat.tight]
  rfl

/-- A union whose `undefined` stands in parentheses is read as a type
without a rule: the comparison with `undefined` does not look into
parentheses, and no other rule applies. -/
theorem ofText_orUndefined_wrapped (o : TypeOperand) (n : Nat) :
    Reading.ofText (TypeText.of (TypeExpr.orUndefined o (n + 1)).print)
      = .atom (TypeExpr.orUndefined o (n + 1)).text none .unknown := by
  have hneat := (TypeExpr.orUndefined o (n + 1)).neat
  have hlast : (TypeExpr.orUndefined o (n + 1)).print.getLast? = some ')' := by
    simp [TypeExpr.print, wrappedUndefined, List.getLast?_cons]
  -- The last union member is compared with its parentheses, so the rule for `undefined` fails.
  have hinner : TypeText.nullableInner? ⟨(TypeExpr.orUndefined o (n + 1)).print⟩ = none := by
    have hparen : wrappedUndefined (n + 1) ≠ "undefined".toList := by
      intro h
      have := congrArg List.head? h
      rw [wrappedUndefined] at this
      revert this
      simp
    rw [TypeText.nullableInner?, hasTopLevelArrow_of_closed hneat.closed]
    simpa [splitTopLevel_orUndefined] using hparen
  have hangle : ∀ m, '<' ∉ wrappedUndefined m := by
    intro m
    induction m with
    | zero => decide
    | succ m ih => simp [wrappedUndefined, ih]
  -- What follows the operand has no `<`, so no arguments of the operand reach to the end.
  have hgeneric : TypeText.generic? ⟨(TypeExpr.orUndefined o (n + 1)).print⟩ = none := by
    rw [TypeText.generic?, TypeExpr.print, List.append_assoc,
      splitGeneric_closed_append o.neat.closed]
    · rfl
    · simp [hangle (n + 1)]
    · simp
  have helement : TypeText.element? ⟨(TypeExpr.orUndefined o (n + 1)).print⟩ = none := by
    rw [TypeText.element?, beforeBrackets?_of_last hlast (by decide), hgeneric]
  have hpromise : TypeText.promise? ⟨(TypeExpr.orUndefined o (n + 1)).print⟩ = none := by
    rw [TypeText.promise?, (endsInBracket hlast (by decide)).notPromise, hgeneric]
    rfl
  rw [TypeText.of_orUndefined, ofText_of_endsInBracket hlast (by decide) hneat.tight hinner,
    hgeneric, helement, hpromise]
  rfl

/-! ### Resolved forms -/

/-- The text of an operand has no blanks at its ends. -/
theorem TypeOperand.trimString_text (o : TypeOperand) : trimString o.text = o.text :=
  trimString_of_tight o.neat.tight

/-- The resolved form of a name is read like its text. A bare `Promise`
is the one name that has a rule of its own. -/
theorem ofResolved_name (n : TypeName) :
    Reading.ofResolved (.reference n.text n.text [])
      = .atom n.text (some n.text) (if n.isPromise then .barePromise else .unknown) := by
  have htext : trimString n.text = n.text := (TypeOperand.name n).trimString_text
  have hsymbol : (ResolvedType.reference n.text n.text []).symbol? = some n.text := by
    simp [ResolvedType.symbol?, PlainName.text, dot_not_mem_of_isName n.isName]
  -- Without a dot there is no namespace in front of the name.
  have hqualified : (ResolvedType.reference n.text n.text []).qualified? = none := by
    simp [ResolvedType.qualified?, PlainName.text,
      dottedName?_of_not_mem (dot_not_mem_of_isName n.isName)]
  simp only [Reading.ofResolved, Reading.ofResolvedArgs, hsymbol, hqualified, htext]
  by_cases hpromise : n.text == "Promise" <;>
    simp [hpromise, Reading.ofAnswers, PlainName.isPromise]

/-- The resolved form of a dotted name is read as a qualified name, like
its text. It is a reference, but one with a dot, so no plain name is
asked for. -/
theorem ofResolved_dotted (space name : PlainName) :
    Reading.ofResolved (TypeOperand.dotted space name).lowered
      = .atom (TypeOperand.dotted space name).text none (.qualified space.text name.text) := by
  have htext := (TypeOperand.dotted space name).trimString_text
  -- The dot keeps the whole from being a symbol and gives the two halves.
  have hsymbol : (TypeOperand.dotted space name).lowered.symbol? = none := by
    simp [TypeOperand.lowered, ResolvedType.symbol?, TypeOperand.text, TypeOperand.print]
  have hqualified : (TypeOperand.dotted space name).lowered.qualified?
      = some (space.text, name.text) := by
    simp [TypeOperand.lowered, ResolvedType.qualified?, TypeOperand.text, TypeOperand.print,
      dottedName?_dotted, PlainName.text]
  rw [TypeOperand.lowered] at hsymbol hqualified ⊢
  simp only [Reading.ofResolved, hsymbol, hqualified, htext]
  rfl

/-- The resolved form of a name with arguments is read from its head and
the reading of its first argument, like its text. -/
theorem ofResolved_generic (head : TypeName) (args : TypeArgs) :
    Reading.ofResolved (TypeOperand.generic head args).lowered
      = genericReading (TypeOperand.generic head args).text head.toPlainName args.isSingle
          (Reading.ofResolved args.first.lowered) := by
  have htext := (TypeOperand.generic head args).trimString_text
  have hsymbol : ∀ text as,
      (ResolvedType.reference text head.text as).symbol? = some head.text := by
    intro text as
    simp [ResolvedType.symbol?, PlainName.text, dot_not_mem_of_isName head.isName]
  -- The rules ask two things of the arguments: whether there is exactly one, and which is
  -- the first.
  obtain ⟨rest, hlowered, hsingle⟩ := args.lowered_eq_cons
  have hcount : ((Reading.ofResolvedArgs args.lowered).length == 1) = args.isSingle := by
    rw [hlowered, Reading.ofResolvedArgs, hsingle]
    cases rest with
    | nil => rfl
    | cons second others => simp [Reading.ofResolvedArgs]
  have hfirst : (Reading.ofResolvedArgs args.lowered).head?
      = some (Reading.ofResolved args.first.lowered) := by
    rw [hlowered, Reading.ofResolvedArgs, List.head?_cons]
  have hqualified : (ResolvedType.reference (TypeOperand.generic head args).text head.text
      args.lowered).qualified? = none := by
    rw [hlowered, ResolvedType.qualified?]
    simp
  rw [TypeOperand.lowered, ← ofAnswers_generic]
  simp only [Reading.ofResolved, hsymbol, hqualified, htext, hcount, hfirst]
  rw [PlainName.isPromise, PlainName.text, String.toList_ofList]

end Externals
