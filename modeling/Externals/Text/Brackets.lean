import Externals.Text.Blank

/-!
# `Externals.Text.Brackets`: cutting text outside of brackets

The text of a type nests through four kinds of brackets: `<>`, `()`,
`[]` and `{}`. One number, the *depth*, tracks all of them together:
an opening bracket raises it, a closing bracket lowers it, whatever
their kinds. The `>` of an arrow `=>` is no bracket. Nothing requires
the text to be balanced, so the depth is an integer and may fall
below zero.

* `segments` cuts a text at the separators of depth zero and keeps
  every other character. `splitTopLevel` trims the segments and drops
  the last one when it is blank.
* `hasTopLevelArrow` looks for an arrow of depth zero.
* `splitGeneric` reads `Head<args>`.
* `unwrapParens` removes parentheses that wrap the whole text.

The lemmas at the end weigh the pieces by their ink, which is what
makes reading a type from its text a terminating recursion.
-/

set_option autoImplicit false

namespace Externals.Text

/-- A bracket that opens, of any kind. The kinds are not told apart. -/
def isOpening (c : Char) : Bool := c == '<' || c == '(' || c == '[' || c == '\x7b'

/-- A bracket that closes, of any kind. -/
def isClosing (c : Char) : Bool := c == '>' || c == ')' || c == ']' || c == '\x7d'

/-- The `>` of an arrow, given the character before it. -/
def isArrowHead (before c : Char) : Bool := c == '>' && before == '='

/-- The depth after a character, given the character before it. -/
def depthAfter (before c : Char) (depth : Int) : Int :=
  if isOpening c then depth + 1
  else if isArrowHead before c then depth
  else if isClosing c then depth - 1
  else depth

/-- The segments between the separators of depth zero. A bracket is
never a separator. There is always at least one segment, and the
separators together with the segments make up the whole text. -/
def segments (sep : Char) (before : Char) (depth : Int) : List Char → List (List Char)
  | [] => [[]]
  | c :: cs =>
      let rest := segments sep c (depthAfter before c depth) cs
      if !isOpening c && !isClosing c && c == sep && depth == 0 then [] :: rest
      else
        match rest with
        | [] => [[c]]
        | s :: ss => (c :: s) :: ss

/-- The trimmed segments, without the last one when it is blank. -/
def trimSegments : List (List Char) → List (List Char)
  | [] => []
  | [s] => if (trim s).isEmpty then [] else [trim s]
  | s :: t :: ss => trim s :: trimSegments (t :: ss)

/-- Cut at the separators outside of all brackets. -/
def splitTopLevel (sep : Char) (cs : List Char) : List (List Char) :=
  trimSegments (segments sep ' ' 0 cs)

/-- An arrow stands at depth zero, starting from the given depth. -/
def arrowFrom (before : Char) (depth : Int) : List Char → Bool
  | [] => false
  | c :: cs =>
      (isArrowHead before c && depth == 0) || arrowFrom c (depthAfter before c depth) cs

/-- An arrow stands outside of all brackets. -/
def hasTopLevelArrow (cs : List Char) : Bool := arrowFrom ' ' 0 cs

/-- Read on until a closing bracket brings the depth to zero: the text
before that bracket, and the text after it. -/
def untilClosed (before : Char) (depth : Int) : List Char → Option (List Char × List Char)
  | [] => none
  | c :: cs =>
      let depth' := depthAfter before c depth
      if isClosing c && !isArrowHead before c && depth' == 0 then some ([], cs)
      else (untilClosed c depth' cs).map fun (inside, after) => (c :: inside, after)

/-- `Head<args>` as its trimmed head and its arguments. The bracket
that closes the first `<` must be the last character of the text. -/
def splitGeneric (cs : List Char) : Option (List Char × List Char) :=
  match cs.dropWhile (· != '<') with
  | [] => none
  | _ :: rest =>
      match untilClosed '<' 1 rest with
      | some (args, []) => some (trim (cs.takeWhile (· != '<')), args)
      | _ => none

/-- Parentheses, counted alone, never close more than was opened and
are all closed at the end. -/
def parensBalanced (depth : Nat) : List Char → Bool
  | [] => depth == 0
  | c :: cs =>
      if c == '(' then parensBalanced (depth + 1) cs
      else if c == ')' then
        match depth with
        | 0 => false
        | d + 1 => parensBalanced d cs
      else parensBalanced depth cs

/-- The text inside one pair of parentheses that wraps the whole. -/
def enclosed? : List Char → Option (List Char)
  | [] => none
  | c :: rest =>
      if c == '(' && rest.getLast? == some ')' && parensBalanced 0 rest.dropLast then
        some rest.dropLast
      else none

/-- What is enclosed is the text without its first and its last
character. -/
theorem eq_dropLast_of_enclosed? {cs inner : List Char} (h : enclosed? cs = some inner) :
    ∃ c rest, cs = c :: rest ∧ inner = rest.dropLast := by
  cases cs with
  | nil => cases h
  | cons c rest =>
      simp only [enclosed?, Option.ite_none_right_eq_some, Option.some.injEq] at h
      exact ⟨c, rest, rfl, h.2.symm⟩

/-- So it is shorter. -/
theorem length_of_enclosed? {cs inner : List Char} (h : enclosed? cs = some inner) :
    inner.length < cs.length := by
  obtain ⟨c, rest, rfl, rfl⟩ := eq_dropLast_of_enclosed? h
  simp only [List.length_dropLast, List.length_cons]
  omega

/-- Remove the parentheses that wrap the whole text, pair by pair,
trimming what is left each time. -/
def unwrapParens (cs : List Char) : List Char :=
  match _h : enclosed? cs with
  | some inner => unwrapParens (trim inner)
  | none => cs
termination_by cs.length
decreasing_by exact Nat.lt_of_le_of_lt (length_trim_le _) (length_of_enclosed? _h)

/-! ### Ink of the pieces -/

/-- Leaving out characters adds no ink. -/
theorem ink_le_of_sublist {as bs : List Char} (h : as.Sublist bs) : ink as ≤ ink bs :=
  h.countP_le

/-- What is enclosed has at most the ink of the whole. -/
theorem ink_of_enclosed? {cs inner : List Char} (h : enclosed? cs = some inner) :
    ink inner ≤ ink cs := by
  obtain ⟨c, rest, rfl, rfl⟩ := eq_dropLast_of_enclosed? h
  exact ink_le_of_sublist ((List.dropLast_sublist rest).trans (List.sublist_cons_self c rest))

/-- Unwrapping never adds ink. -/
theorem ink_unwrapParens_le (cs : List Char) : ink (unwrapParens cs) ≤ ink cs := by
  fun_induction unwrapParens cs with
  | case1 cs inner h ih => exact Nat.le_trans ih (by rw [ink_trim]; exact ink_of_enclosed? h)
  | case2 cs _ => exact Nat.le_refl _

/-- A separator that is not blank weighs one between each two
segments, so the text weighs as much as its segments and their
separators together. -/
theorem ink_segments {sep : Char} (hsep : isBlank sep = false) (before : Char) (depth : Int)
    (cs : List Char) :
    ink cs + 1 = ink (segments sep before depth cs).flatten
      + (segments sep before depth cs).length := by
  induction cs generalizing before depth with
  | nil => rfl
  | cons c cs ih =>
      have ih := ih c (depthAfter before c depth)
      simp only [segments]
      split
      · rename_i hcut
        have hc : c = sep := by
          simp only [Bool.and_eq_true, beq_iff_eq] at hcut
          exact hcut.1.2
        subst hc
        simp only [List.flatten_cons, List.nil_append, List.length_cons, ink_cons, hsep]
        simp only [Bool.false_eq_true, if_false]
        omega
      · revert ih
        generalize segments sep c (depthAfter before c depth) cs = rest
        intro ih
        cases rest with
        | nil => simp at ih
        | cons s ss =>
            simp only [List.flatten_cons, ink_append, List.length_cons, ink_cons] at ih ⊢
            omega

/-- Trimming the segments and dropping a blank last one loses no ink
and at most one piece. -/
theorem ink_trimSegments (ss : List (List Char)) :
    ink (trimSegments ss).flatten = ink ss.flatten
      ∧ (trimSegments ss).length ≤ ss.length := by
  fun_induction trimSegments ss with
  | case1 => simp
  | case2 s h =>
      have : ink s = 0 := by
        rw [← ink_trim, List.isEmpty_iff.mp h]
        rfl
      simp [this]
  | case3 s h => simp [ink_trim]
  | case4 s t ss ih =>
      simp only [List.flatten_cons, ink_append, List.length_cons, ink_trim] at ih ⊢
      omega

/-- The pieces of a text at a separator that is not blank, with the
separators counted between them, weigh no more than the text. -/
theorem ink_splitTopLevel_le {sep : Char} (hsep : isBlank sep = false) (cs : List Char) :
    ink (splitTopLevel sep cs).flatten + (splitTopLevel sep cs).length ≤ ink cs + 1 := by
  have h := ink_segments hsep ' ' 0 cs
  have ht := ink_trimSegments (segments sep ' ' 0 cs)
  rw [splitTopLevel]
  omega

/-- What a closing bracket ends weighs no more than what was read. -/
theorem ink_of_untilClosed {before : Char} {depth : Int} {cs inside after : List Char}
    (h : untilClosed before depth cs = some (inside, after)) : ink inside ≤ ink cs := by
  induction cs generalizing before depth inside after with
  | nil => simp [untilClosed] at h
  | cons c cs ih =>
      simp only [untilClosed] at h
      split at h
      · cases h
        exact Nat.zero_le _
      · rw [Option.map_eq_some_iff] at h
        obtain ⟨⟨i, a⟩, hi, heq⟩ := h
        cases heq
        have := ih hi
        simp only [ink_cons]
        omega

/-- The arguments of a generic form weigh less than the form: the
bracket before them carries ink. -/
theorem ink_of_splitGeneric {cs head args : List Char}
    (h : splitGeneric cs = some (head, args)) : ink args < ink cs := by
  unfold splitGeneric at h
  split at h
  · cases h
  · rename_i d rest hdrop
    split at h
    · rename_i inside hclosed
      cases h
      have hopen : d = '<' := by
        have := List.head?_dropWhile_not (· != '<') cs
        rw [hdrop] at this
        simpa using this
      have hink : ink (d :: rest) ≤ ink cs := by
        rw [← hdrop]
        exact ink_le_of_sublist (List.dropWhile_sublist _)
      have hin := ink_of_untilClosed hclosed
      subst hopen
      rw [ink_cons] at hink
      have hblank : isBlank '<' = false := by decide
      simp only [hblank, Bool.false_eq_true, if_false] at hink
      omega
    · cases h

end Externals.Text
