import Externals.Proofs.Mapping.Comment

/-!
# `Externals.Proofs.Mapping.BlockComment`: comments as Kotlin reads them

Behind a type stands at most one comment, `/* … */`, with the text of the
source type inside. In Kotlin block comments nest: a further `/*` inside
opens a comment of its own, which needs its own `*/`. `afterComment` reads
by this rule.

The text goes through two changes before it is put into the comment. Runs
of blanks become single spaces, so the comment has no line break. Every
`*/` is broken up, so nothing closes the comment early. No `/*` is broken
up, though, and each one takes a `*/` away: with `n` of them in the text,
the reader is still `n` comments deep behind the end of the comment.

* `occurrences_collapse`, `occurrences_breakTerminators`,
  `openings_breakTerminators`: what the two changes do to pairs of
  neighbouring characters.
* `afterComment_commentText`: the depth behind the comment.
* `Viewpoint.render_map`: the comment of every mapped type, and when it is
  closed by its own end.
-/

set_option autoImplicit false

namespace Externals

open Text

/-! ### Block comments -/

/-- What is left behind the comments that are open, by their number.
Nothing is left if one of them is never closed. -/
def afterComment : Nat → List Char → Option (List Char)
  | 0, cs => some cs
  | _ + 1, [] => none
  | depth + 1, '*' :: '/' :: cs => afterComment depth cs
  | depth + 1, '/' :: '*' :: cs => afterComment (depth + 2) cs
  | depth + 1, _ :: cs => afterComment (depth + 1) cs

/-- A character that begins neither `*/` nor `/*` is passed over. -/
theorem afterComment_skip {c : Char} {cs : List Char} (hclose : c = '*' → cs.head? ≠ some '/')
    (hopen : c = '/' → cs.head? ≠ some '*') (depth : Nat) :
    afterComment (depth + 1) (c :: cs) = afterComment (depth + 1) cs := by
  rw [afterComment]
  · rintro rest rfl rfl
    exact hclose rfl rfl
  · rintro rest rfl rfl
    exact hopen rfl rfl

/-- A space is passed over. -/
theorem afterComment_space (depth : Nat) (cs : List Char) :
    afterComment (depth + 1) (' ' :: cs) = afterComment (depth + 1) cs :=
  afterComment_skip (fun h => absurd h (by decide)) (fun h => absurd h (by decide)) depth

/-- At the end of the text every open comment stays open. -/
theorem afterComment_nil_eq_iff (depth : Nat) : afterComment depth [] = some [] ↔ depth = 0 := by
  cases depth with
  | zero => simp [afterComment]
  | succ depth => simp [afterComment]

/-! ### Neighbouring characters -/

/-- The number of places where the first character is directly followed
by the second. Places may overlap, as in `/*/`. -/
def occurrences (a b : Char) : List Char → Nat
  | [] => 0
  | c :: cs => occurrences a b cs + (if c = a ∧ cs.head? = some b then 1 else 0)

/-- There is no such place if the pair is no part of the text. -/
theorem occurrences_eq_zero_iff (a b : Char) (cs : List Char) :
    occurrences a b cs = 0 ↔ ¬ [a, b] <:+: cs := by
  induction cs with
  | nil => simp [occurrences]
  | cons c cs ih =>
      rw [occurrences, List.infix_cons_iff, not_or, ← ih]
      -- The pair stands at the head iff the head and the character behind it are the two.
      have hpre : [a, b] <+: c :: cs ↔ c = a ∧ cs.head? = some b := by
        rw [List.cons_prefix_cons, List.singleton_prefix_iff_head?_eq_some]
        simp [eq_comm]
      rw [hpre]
      split <;> simp_all

/-- Another character in front adds no place. -/
theorem occurrences_cons_of_ne {a c : Char} (h : c ≠ a) (b : Char) (cs : List Char) :
    occurrences a b (c :: cs) = occurrences a b cs := by
  simp [occurrences, h]

/-- Nor does any character in front of something else. -/
theorem occurrences_cons_of_head {b : Char} {cs : List Char} (h : cs.head? ≠ some b) (a c : Char) :
    occurrences a b (c :: cs) = occurrences a b cs := by
  simp [occurrences, h]

/-- Without `*/` in a text, every `/*` in it opens one comment more. The
space behind the text keeps its last character from making a pair with
what follows. -/
theorem afterComment_append {cs : List Char} (h : occurrences '*' '/' cs = 0) (depth : Nat)
    (rest : List Char) :
    afterComment (depth + 1) (cs ++ ' ' :: rest)
      = afterComment (depth + occurrences '/' '*' cs + 1) (' ' :: rest) := by
  induction cs generalizing depth with
  | nil => rfl
  | cons c cs ih =>
      rw [occurrences, Nat.add_eq_zero_iff] at h
      obtain ⟨hrest, hhere⟩ := h
      have hclose : c = '*' → (cs ++ ' ' :: rest).head? ≠ some '/' := by
        rintro rfl
        cases cs with
        | nil => simp
        | cons d ds => simpa using hhere
      by_cases hopen : c = '/' ∧ cs.head? = some '*'
      · -- The star of the opening is then passed over with the rest of the text.
        obtain ⟨rfl, hhead⟩ := hopen
        obtain ⟨ds, rfl⟩ := List.head?_eq_some_iff.mp hhead
        have hstar : (ds ++ ' ' :: rest).head? ≠ some '/' := by
          rw [occurrences, Nat.add_eq_zero_iff] at hrest
          cases ds with
          | nil => simp
          | cons d ds => simpa using hrest.2
        have hskip : afterComment (depth + 2) ('*' :: (ds ++ ' ' :: rest))
            = afterComment (depth + 2) (ds ++ ' ' :: rest) :=
          afterComment_skip (fun _ => hstar) (fun h => absurd h (by decide)) (depth + 1)
        rw [occurrences, if_pos ⟨rfl, hhead⟩, List.cons_append, List.cons_append, afterComment,
          ← hskip]
        rw [show depth + (occurrences '/' '*' ('*' :: ds) + 1) + 1
          = depth + 1 + occurrences '/' '*' ('*' :: ds) + 1 by omega]
        exact ih hrest (depth + 1)
      · rw [occurrences, if_neg hopen, List.cons_append, afterComment_skip hclose]
        · exact ih hrest depth
        · rintro rfl
          cases cs with
          | nil => simp
          | cons d ds => simpa using hopen

/-! ### Collapsed blanks -/

namespace Text

/-- A blank in front is dropped. -/
theorem collapse_cons_blank {c : Char} (hc : isBlank c = true) (cs : List Char) :
    collapse (c :: cs) = collapse cs := by
  simp [collapse, words, hc]

/-- The last character of a word is followed by a space, or by nothing. -/
theorem collapse_cons_last {c : Char} (hc : isBlank c = false) {cs : List Char}
    (h : (cs.head?.map isBlank).getD true = true) :
    collapse (c :: cs) = c :: (if words cs = [] then [] else ' ' :: collapse cs) := by
  have hwords : words (c :: cs) = [c] :: words cs := by
    rw [words, if_neg (by simp [hc]), if_pos h]
  rw [collapse, hwords, collapse]
  cases words cs with
  | nil => rfl
  | cons w ws => simp [List.intercalate, List.intersperse]

/-- Any other character of a word is followed by the next one. -/
theorem collapse_cons_next {c d : Char} (hc : isBlank c = false) (hd : isBlank d = false)
    (cs : List Char) :
    collapse (c :: d :: cs) = c :: collapse (d :: cs)
      ∧ (collapse (d :: cs)).head? = some d := by
  -- The word in front begins with `d`, so `c` extends it and opens no word of its own.
  have hne : ∃ w ws, words (d :: cs) = (d :: w) :: ws := by
    rw [words, if_neg (by simp [hd])]
    split
    · exact ⟨_, _, rfl⟩
    · cases words cs with
      | nil => exact ⟨_, _, rfl⟩
      | cons w ws => exact ⟨_, _, rfl⟩
  obtain ⟨w, ws, hwords⟩ := hne
  have hlong : words (c :: d :: cs) = (c :: d :: w) :: ws := by
    rw [words, if_neg (by simp [hc]), if_neg (by simp [hd]), hwords]
  rw [collapse, collapse, hlong, hwords]
  cases ws with
  | nil => simp [List.intercalate]
  | cons u us => simp [List.intercalate, List.intersperse]

/-- The cases of the three lemmas above, as an induction on texts. -/
theorem collapse_induction {motive : List Char → Prop} (nil : motive [])
    (blank : ∀ c cs, isBlank c = true → motive cs → motive (c :: cs))
    (last : ∀ c cs, isBlank c = false → (cs.head?.map isBlank).getD true = true → motive cs →
      motive (c :: cs))
    (next : ∀ c d cs, isBlank c = false → isBlank d = false → motive (d :: cs) →
      motive (c :: d :: cs))
    (cs : List Char) : motive cs := by
  induction cs with
  | nil => exact nil
  | cons c cs ih =>
      cases hc : isBlank c with
      | true => exact blank c cs hc ih
      | false =>
          -- A character of a word is its last one if a blank or nothing follows.
          cases hnext : (cs.head?.map isBlank).getD true with
          | true => exact last c cs hc hnext ih
          | false =>
              cases cs with
              | nil => simp at hnext
              | cons d ds => exact next c d ds hc (by simpa using hnext) ih

/-- A blank is not a character that is no blank. -/
theorem ne_of_isBlank {c d : Char} (hc : isBlank c = true) (hd : isBlank d = false) : c ≠ d := by
  rintro rfl
  rw [hd] at hc
  cases hc

/-- Collapsing blanks neither joins nor parts characters that are not
blank. -/
theorem occurrences_collapse {a b : Char} (ha : isBlank a = false) (hb : isBlank b = false)
    (cs : List Char) : occurrences a b (collapse cs) = occurrences a b cs := by
  induction cs using collapse_induction with
  | nil => rfl
  | blank c cs hc ih =>
      rw [collapse_cons_blank hc, ih, occurrences_cons_of_ne (ne_of_isBlank hc ha)]
  | last c cs hc hnext ih =>
      -- Neither the blank of the text nor the space of the result is `b`.
      have hhead : cs.head? ≠ some b := by
        intro hsome
        simp [hsome, hb] at hnext
      rw [collapse_cons_last hc hnext, occurrences_cons_of_head hhead, ← ih]
      split
      · rename_i hwords
        simp [collapse, hwords, occurrences]
      · have hspace : isBlank ' ' = true := by decide
        rw [occurrences_cons_of_head (by simpa using ne_of_isBlank hspace hb),
          occurrences_cons_of_ne (ne_of_isBlank hspace ha)]
  | next c d cs hc hd ih =>
      obtain ⟨hcollapse, hhead⟩ := collapse_cons_next hc hd cs
      rw [hcollapse, occurrences, hhead, ih, occurrences]
      rfl

/-- The only blanks of a collapsed text are spaces. -/
theorem eq_space_of_mem_collapse {cs : List Char} {c : Char} (h : c ∈ collapse cs)
    (hc : isBlank c = true) : c = ' ' := by
  -- A blank in the result is never copied from the text: it is the separator written after a
  -- word.
  induction cs using collapse_induction with
  | nil => cases h
  | blank d cs hd ih =>
      rw [collapse_cons_blank hd] at h
      exact ih h
  | last d cs hd hnext ih =>
      rw [collapse_cons_last hd hnext] at h
      have hrest := List.mem_of_ne_of_mem (ne_of_isBlank hc hd) h
      split at hrest
      · cases hrest
      · rcases List.mem_cons.mp hrest with hspace | hmem
        · exact hspace
        · exact ih hmem
  | next d e cs hd he ih =>
      rw [(collapse_cons_next hd he cs).1] at h
      exact ih (List.mem_of_ne_of_mem (ne_of_isBlank hc hd) h)

end Text

/-! ### Broken terminators -/

/-- A backslash comes in between a star and a slash. -/
theorem breakTerminators_star (cs : List Char) :
    breakTerminators ('*' :: cs)
      = '*' :: (if cs.head? = some '/' then '\\' :: breakTerminators cs
          else breakTerminators cs) := by
  split
  · rename_i hhead
    obtain ⟨ds, rfl⟩ := List.head?_eq_some_iff.mp hhead
    rw [breakTerminators, breakTerminators]
    · rintro rest h -
      exact absurd h (by decide)
  · rename_i hhead
    rw [breakTerminators]
    rintro rest - rfl
    exact hhead rfl

/-- Every other character stays as it is. -/
theorem breakTerminators_of_ne {c : Char} (h : c ≠ '*') (cs : List Char) :
    breakTerminators (c :: cs) = c :: breakTerminators cs := by
  rw [breakTerminators]
  rintro rest rfl -
  exact h rfl

/-- The first character stays: the backslash comes behind one. -/
theorem head?_breakTerminators (cs : List Char) : (breakTerminators cs).head? = cs.head? := by
  cases cs with
  | nil => rfl
  | cons c cs =>
      by_cases hc : c = '*'
      · rw [hc, breakTerminators_star]
        rfl
      · rw [breakTerminators_of_ne hc]
        rfl

/-- No terminator is left. -/
theorem occurrences_breakTerminators (cs : List Char) :
    occurrences '*' '/' (breakTerminators cs) = 0 := by
  induction cs with
  | nil => rfl
  | cons c cs ih =>
      -- A star in front of a slash gets a backslash behind it, so it opens no pair; other stars
      -- had none.
      by_cases hc : c = '*'
      · rw [hc, breakTerminators_star]
        split
        · rw [occurrences_cons_of_head (by simp), occurrences_cons_of_ne (by decide), ih]
        · rename_i hhead
          rw [occurrences_cons_of_head (by rwa [head?_breakTerminators]), ih]
      · rw [breakTerminators_of_ne hc, occurrences_cons_of_ne hc, ih]

/-- The openings are the same as before. -/
theorem openings_breakTerminators (cs : List Char) :
    occurrences '/' '*' (breakTerminators cs) = occurrences '/' '*' cs := by
  induction cs with
  | nil => rfl
  | cons c cs ih =>
      -- The backslash goes behind a star, so the pair of a slash and a star is never split.
      by_cases hc : c = '*'
      · rw [hc, breakTerminators_star, occurrences_cons_of_ne (by decide),
          occurrences_cons_of_ne (by decide)]
        split
        · rw [occurrences_cons_of_ne (by decide), ih]
        · exact ih
      · rw [breakTerminators_of_ne hc, occurrences, occurrences, head?_breakTerminators, ih]

/-- Nothing but backslashes comes in. -/
theorem mem_breakTerminators {cs : List Char} {c : Char} (h : c ∈ breakTerminators cs) :
    c ∈ cs ∨ c = '\\' := by
  induction cs with
  | nil => cases h
  | cons d cs ih =>
      have hrest : c ∈ breakTerminators cs → c ∈ d :: cs ∨ c = '\\' := fun hmem =>
        (ih hmem).imp (List.mem_cons_of_mem d) id
      -- Only a star can be followed by the backslash that breaks a terminator.
      by_cases hd : d = '*'
      · rw [hd, breakTerminators_star, List.mem_cons] at h
        rcases h with rfl | h
        · exact .inl (by simp [hd])
        · split at h
          · rcases List.mem_cons.mp h with rfl | h
            · exact .inr rfl
            · exact hrest h
          · exact hrest h
      · rw [breakTerminators_of_ne hd, List.mem_cons] at h
        rcases h with rfl | h
        · exact .inl List.mem_cons_self
        · exact hrest h

/-! ### The comment of a type -/

/-- What a comment has between its first two and its last two
characters. -/
def commentInside (source : String) : List Char := ' ' :: ((commentText source).toList ++ [' '])

/-- The characters that end a line. -/
def lineBreaks : List Char :=
  ['\n', '\x0b', '\x0c', '\r', '\u0085', '\u2028', '\u2029']

/-- Behind the comment the reader is as many comments deep as the source
has openings. -/
theorem afterComment_commentText (source : String) (rest : List Char) :
    afterComment 1 (commentInside source ++ '*' :: '/' :: rest)
      = afterComment (occurrences '/' '*' source.toList) rest := by
  -- No terminator is left inside, while the opening marks are all still there: each of them
  -- raises the depth by one, and the end lowers it once.
  have hclosed := occurrences_breakTerminators (collapse source.toList)
  have hopen : occurrences '/' '*' (breakTerminators (collapse source.toList))
      = occurrences '/' '*' source.toList := by
    rw [openings_breakTerminators, occurrences_collapse (by decide) (by decide)]
  have htext : (commentText source).toList = breakTerminators (collapse source.toList) := by
    rw [commentText, String.toList_ofList]
  rw [commentInside, htext, List.cons_append, List.append_assoc, afterComment_space]
  show afterComment (0 + 1) (_ ++ ' ' :: '*' :: '/' :: rest) = _
  rw [afterComment_append hclosed, hopen, Nat.zero_add, afterComment_space, afterComment]

/-- A comment is on one line: collapsing leaves no line break, and
breaking terminators adds none. -/
theorem not_mem_commentInside {source : String} {c : Char} (hc : c ∈ lineBreaks) :
    c ∉ commentInside source := by
  have hbreaks : (lineBreaks.all fun d => isBlank d && d != ' ' && d != '\\') = true := by decide
  have hplain := List.all_eq_true.mp hbreaks c hc
  simp only [Bool.and_eq_true, bne_iff_ne] at hplain
  intro hmem
  simp only [commentInside, commentText, String.toList_ofList, List.mem_cons, List.mem_append,
    List.not_mem_nil, or_false] at hmem
  -- The blanks at either end are spaces, and so are those that collapsing leaves.
  rcases hmem with hspace | hmem | hspace
  · exact hplain.1.2 hspace
  · rcases mem_breakTerminators hmem with hmem | hslash
    · exact hplain.1.2 (eq_space_of_mem_collapse hmem hplain.1.1)
    · exact hplain.2 hslash
  · exact hplain.1.2 hspace

/-- How a type with a comment is written. -/
theorem render_of_comment {t : KotlinType} {source : String}
    (h : t.comment = some (commentText source)) :
    t.render = t.bare ++ " /*" ++ String.ofList (commentInside source) ++ "*/" := by
  have hinside : String.ofList (commentInside source) = " " ++ commentText source ++ " " := by
    apply String.toList_inj.mp
    simp [commentInside]
  apply String.toList_inj.mp
  simp [KotlinType.render, h, hinside]

namespace Viewpoint

/-- What stands behind a mapped type is nothing, or one comment on one line
with the text of the core of its reading. Nothing closes the comment before
its end. Its end closes it iff the text has no `/*`; otherwise as many
comments are still open there as the text has of them. -/
theorem render_map (v : Viewpoint) (p : Position) (type : TypeRef) :
    let t := (v.map p type).value
    let source := (Reading.of type).core.text
    (t.comment = none ∧ t.render = t.bare)
      ∨ (t.comment = some (commentText source)
        ∧ t.render = t.bare ++ " /*" ++ String.ofList (commentInside source) ++ "*/"
        ∧ (∀ c ∈ lineBreaks, c ∉ commentInside source)
        ∧ (∀ rest, afterComment 1 (commentInside source ++ '*' :: '/' :: rest)
            = afterComment (occurrences '/' '*' source.toList) rest)
        ∧ ((∀ rest, afterComment 1 (commentInside source ++ '*' :: '/' :: rest) = some rest)
            ↔ ¬ ['/', '*'] <:+: source.toList)) := by
  intro t source
  have hcomment : t.comment = p.note source (v.isExact (Reading.of type)) :=
    v.comment_mapReading p (Reading.of type)
  -- There is a comment or there is none; the reading decides which.
  rw [Position.note] at hcomment
  split at hcomment
  · exact .inl ⟨hcomment, by rw [KotlinType.render, hcomment]⟩
  · refine .inr ⟨hcomment, render_of_comment hcomment, fun c hc => not_mem_commentInside hc,
      afterComment_commentText source, ?_⟩
    rw [← occurrences_eq_zero_iff]
    constructor
    · intro hclosed
      have hend := hclosed []
      rw [afterComment_commentText] at hend
      exact (afterComment_nil_eq_iff _).mp hend
    · intro hnone rest
      rw [afterComment_commentText, hnone, afterComment]

/-- The comment of an object type with a comment in it is still open behind
its end. -/
theorem render_map_opening :
    let v := Viewpoint.within (Project.initial {}).index 0
    let t := (v.map {} (.unresolved "\x7b a: 1; /* x */ \x7d")).value
    t.render = "JsAny /*" ++ " \x7b a: 1; /* x *\\/ \x7d */"
      ∧ ∀ rest, afterComment 1 (" \x7b a: 1; /* x *\\/ \x7d */".toList ++ rest)
          = afterComment 1 rest := by
  intro v t
  have htext : TypeText.ofString "\x7b a: 1; /* x */ \x7d"
      = ⟨"\x7b a: 1; /* x */ \x7d".toList⟩ := by
    have htight : Tight "\x7b a: 1; /* x */ \x7d".toList :=
      ⟨⟨'\x7b', by decide, by decide⟩, ⟨'\x7d', by decide, by decide⟩⟩
    exact TypeText.of_of_enclosed?_none htight (by decide)
  have hinner : (TypeText.ofString "\x7b a: 1; /* x */ \x7d").nullableInner? = none := by
    rw [htext]
    decide
  -- An object type has no form of its own, so it is read as an unknown atom with its whole
  -- text.
  have hreading : Reading.of (.unresolved "\x7b a: 1; /* x */ \x7d")
      = .atom "\x7b a: 1; /* x */ \x7d" none .unknown := by
    show Reading.ofText (TypeText.ofString _) = _
    rw [Reading.ofText_eq, hinner, htext]
    decide +kernel
  have hvalue : t = ⟨"JsAny", false, some (commentText "\x7b a: 1; /* x */ \x7d")⟩ := by
    show (v.mapReading {} (Reading.of _)).value = _
    rw [hreading]
    rfl
  constructor
  · rw [hvalue]
    decide +kernel
  · intro rest
    -- The opening mark inside the comment makes a nested comment, which the end does not
    -- close.
    have hinside : " \x7b a: 1; /* x *\\/ \x7d */".toList
        = commentInside "\x7b a: 1; /* x */ \x7d" ++ ['*', '/'] := by decide +kernel
    have hone : occurrences '/' '*' "\x7b a: 1; /* x */ \x7d".toList = 1 := by decide
    rw [hinside, List.append_assoc]
    show afterComment 1 (_ ++ '*' :: '/' :: rest) = _
    rw [afterComment_commentText, hone]

end Viewpoint

end Externals
