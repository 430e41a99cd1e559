import Externals.Proofs.Mapping.Nullable

/-!
# `Externals.Proofs.Mapping.TopLevel`: what stands outside of all brackets

Three scanners look at the top level of a text, each with a depth of its
own: one cuts at separators, one looks for arrows, and one looks for the
bracket that closes the first `<`. Here all three are said in terms of
`endDepth`, the depth after the text in front of a place, so that what one
of them finds can be used against another. The text may be unbalanced.

* `two_le_length_segments_iff`: a text falls into more than one segment iff
  the separator stands outside of all brackets.
* `hasTopLevelArrow_iff`: the same for arrows.
* `splitGeneric_eq_some_iff`: a generic form is a text whose last character
  is the first to bring the depth that its first `<` opens back to zero.
* `AngleForm.front_of_topLevel`: whatever stands outside of all brackets of
  a generic form stands in front of its first `<`.
* `length_splitTopLevel_le_one_iff`: the members that are left when final
  square brackets are cut off.
-/

set_option autoImplicit false

namespace Externals.Text

/-! ### Places at depth zero -/

/-- A mark stands in a text outside of all brackets: what is in front of
it ends at depth zero. What comes behind it does not matter, so the
brackets need not come out even. -/
def TopLevel (mark cs : List Char) : Prop :=
  ∃ front rest, cs = front ++ mark ++ rest ∧ endDepth ' ' 0 front = 0

/-- The depth after two texts. The second begins at the depth of the
first and after its last character, which may make an arrow with it. -/
theorem endDepth_append (before : Char) (depth : Int) (as bs : List Char) :
    endDepth before depth (as ++ bs)
      = endDepth (as.getLastD before) (endDepth before depth as) bs := by
  induction as generalizing before depth with
  | nil => rfl
  | cons c as ih =>
      rw [List.cons_append, endDepth, endDepth, ih, List.getLastD_cons]

/-- A bracket that opens is one level deeper, whatever stands before it. -/
theorem endDepth_opening {c : Char} (hc : isOpening c = true) (before : Char) (depth : Int)
    (cs : List Char) : endDepth before depth (c :: cs) = endDepth c (depth + 1) cs := by
  rw [endDepth, depthAfter, if_pos hc]

/-- The head of an arrow is a closing bracket when it stands elsewhere. -/
theorem isClosing_of_isArrowHead {before c : Char} (h : isArrowHead before c = true) :
    isClosing c = true := by
  simp only [isArrowHead, Bool.and_eq_true, beq_iff_eq] at h
  rw [h.1]
  rfl

/-- So what closes nothing is never the head of an arrow. -/
theorem isArrowHead_eq_false {c : Char} (h : isClosing c = false) (before : Char) :
    isArrowHead before c = false := by
  rw [Bool.eq_false_iff]
  intro hhead
  rw [isClosing_of_isArrowHead hhead] at h
  cases h

/-- A character that means nothing to a scanner leaves the depth as it
is. -/
theorem depthAfter_of_isInert {stop : Char → Bool} {c : Char} (hc : isInert stop c = true)
    (before : Char) (depth : Int) : depthAfter before c depth = depth := by
  simp only [isInert, Bool.and_eq_true, Bool.not_eq_true'] at hc
  simp [depthAfter, hc.1.1.1, hc.1.1.2, isArrowHead_eq_false hc.1.1.2 before]

/-- So does a text of such characters. The heads of generic forms are of
this kind. -/
theorem endDepth_of_inert {stop : Char → Bool} {cs : List Char}
    (h : ∀ c ∈ cs, isInert stop c = true) (before : Char) (depth : Int) :
    endDepth before depth cs = depth := by
  induction cs generalizing before with
  | nil => rfl
  | cons c cs ih =>
      rw [endDepth, depthAfter_of_isInert (h c List.mem_cons_self)]
      exact ih (fun d hd => h d (List.mem_cons_of_mem c hd)) c

/-! ### Separators -/

/-- What is put in front of the first segment makes no new one. -/
theorem length_prependTo (cs : List Char) {ss : List (List Char)} (hss : ss ≠ []) :
    (prependTo cs ss).length = ss.length := by
  cases ss with
  | nil => exact absurd rfl hss
  | cons s ss => rfl

/-- There is a second segment iff the separator stands at depth zero.
The separator must be no bracket, as one that is would change the depth
and never cut. -/
theorem two_le_length_segments_iff {sep : Char} (hopen : isOpening sep = false)
    (hclose : isClosing sep = false) (before : Char) (depth : Int) (cs : List Char) :
    2 ≤ (segments sep before depth cs).length
      ↔ ∃ front rest, cs = front ++ sep :: rest ∧ endDepth before depth front = 0 := by
  induction cs generalizing before depth with
  | nil => simp [segments]
  | cons c cs ih =>
      have hne := segments_ne_nil sep c (depthAfter before c depth) cs
      cases hcut : (!isOpening c && !isClosing c && c == sep && depth == 0) with
      | true =>
          have hpos := List.length_pos_iff.mpr hne
          simp only [segments, hcut, if_true, List.length_cons]
          simp only [Bool.and_eq_true, beq_iff_eq] at hcut
          constructor
          · intro _
            exact ⟨[], cs, by rw [hcut.1.2]; rfl, hcut.2⟩
          · intro _
            omega
      | false =>
          rw [segments_cons_of_not_cut hcut, length_prependTo _ hne, ih]
          constructor
          · rintro ⟨front, rest, rfl, hdepth⟩
            exact ⟨c :: front, rest, rfl, hdepth⟩
          · rintro ⟨front, rest, hcs, hdepth⟩
            cases front with
            | nil =>
                -- A separator in front of everything would have been a cut.
                have hc : c = sep := (List.cons.inj hcs).1
                have hzero : depth = 0 := hdepth
                simp [hc, hopen, hclose, hzero] at hcut
            | cons d front =>
                obtain ⟨rfl, rfl⟩ := List.cons.inj hcs
                exact ⟨front, rest, rfl, hdepth⟩

/-- No part is made up: there are at most as many as there are
segments. -/
theorem length_trimSegments_le (ss : List (List Char)) :
    (trimSegments ss).length ≤ ss.length := (ink_trimSegments ss).2

/-- Two members have the separator between them outside of all brackets. -/
theorem topLevel_of_two_members {sep : Char} (hopen : isOpening sep = false)
    (hclose : isClosing sep = false) {cs : List Char} (h : 2 ≤ (splitTopLevel sep cs).length) :
    TopLevel [sep] cs := by
  have hle := length_trimSegments_le (segments sep ' ' 0 cs)
  have hsegments : 2 ≤ (segments sep ' ' 0 cs).length := Nat.le_trans h hle
  obtain ⟨front, rest, hcs, hdepth⟩ :=
    (two_le_length_segments_iff hopen hclose ' ' 0 cs).mp hsegments
  exact ⟨front, rest, by simp [hcs], hdepth⟩

/-! ### Arrows -/

/-- The search for an arrow finds a `>` that comes after an `=`, at a
depth of zero before both. The `=` may be the character before the
text. -/
theorem arrowFrom_iff (before : Char) (depth : Int) (cs : List Char) :
    arrowFrom before depth cs = true
      ↔ ∃ front rest, cs = front ++ '>' :: rest ∧ front.getLastD before = '='
          ∧ endDepth before depth front = 0 := by
  induction cs generalizing before depth with
  | nil => simp [arrowFrom]
  | cons c cs ih =>
      rw [arrowFrom, Bool.or_eq_true, ih]
      -- The arrow found is at this character or later; `front` is empty in the first case and
      -- begins with this character in the second.
      constructor
      · rintro (hhere | ⟨front, rest, rfl, hlast, hdepth⟩)
        · simp only [isArrowHead, Bool.and_eq_true, beq_iff_eq] at hhere
          exact ⟨[], cs, by rw [hhere.1.1]; rfl, hhere.1.2, hhere.2⟩
        · exact ⟨c :: front, rest, rfl, by rw [List.getLastD_cons]; exact hlast, hdepth⟩
      · rintro ⟨front, rest, hcs, hlast, hdepth⟩
        cases front with
        | nil =>
            have hc : c = '>' := (List.cons.inj hcs).1
            have hbefore : before = '=' := hlast
            have hzero : depth = 0 := hdepth
            left
            simp [isArrowHead, hc, hbefore, hzero]
        | cons d front =>
            obtain ⟨rfl, rfl⟩ := List.cons.inj hcs
            rw [List.getLastD_cons] at hlast
            exact .inr ⟨front, rest, rfl, hlast, hdepth⟩

/-- A text ends with a character iff its last one, or else one that is
different, is this character. -/
theorem getLastD_eq_iff {cs : List Char} {c d : Char} (h : d ≠ c) :
    cs.getLastD d = c ↔ ∃ front, cs = front ++ [c] := by
  rw [List.getLastD_eq_getLast?, ← List.getLast?_eq_some_iff]
  cases cs.getLast? with
  | none => simp [h]
  | some e => simp

/-- An equals sign alone changes no depth. -/
theorem endDepth_concat_equals (before : Char) (depth : Int) (cs : List Char) :
    endDepth before depth (cs ++ ['=']) = endDepth before depth cs := by
  rw [endDepth_append]
  simp [endDepth, depthAfter, isOpening, isClosing, isArrowHead]

/-- The search for arrows finds exactly those outside of all brackets.
Here the depth is taken in front of the `=`, which changes nothing about
it. -/
theorem hasTopLevelArrow_iff (cs : List Char) :
    hasTopLevelArrow cs = true ↔ TopLevel ['=', '>'] cs := by
  rw [hasTopLevelArrow, arrowFrom_iff]
  -- The search remembers the character before; it is the equals sign of the arrow, which
  -- changes no depth.
  constructor
  · rintro ⟨front, rest, rfl, hlast, hdepth⟩
    obtain ⟨init, rfl⟩ := (getLastD_eq_iff (by decide)).mp hlast
    rw [endDepth_concat_equals] at hdepth
    exact ⟨init, rest, by simp, hdepth⟩
  · rintro ⟨front, rest, rfl, hdepth⟩
    refine ⟨front ++ ['='], rest, by simp, (getLastD_eq_iff (by decide)).mpr ⟨front, rfl⟩, ?_⟩
    rw [endDepth_concat_equals, hdepth]

/-! ### The bracket that closes the first -/

/-- From inside of a bracket a character leads to depth zero only if it
closes one, and never further out. The depth changes by one at most. -/
theorem depthAfter_of_pos {before c : Char} {depth : Int} (h : 0 < depth) :
    0 ≤ depthAfter before c depth
      ∧ (depthAfter before c depth = 0 → isClosing c = true ∧ isArrowHead before c = false) := by
  simp only [depthAfter]
  split
  · exact ⟨by omega, by omega⟩
  · split
    · exact ⟨by omega, by omega⟩
    · rename_i harrow
      rw [Bool.not_eq_true] at harrow
      split
      · rename_i hclose
        exact ⟨by omega, fun _ => ⟨hclose, harrow⟩⟩
      · exact ⟨by omega, by omega⟩

/-- The search for the closing bracket, from inside of one, as a
question about depths alone. The character itself need not be looked at
any more, as only one that closes a bracket leads back to zero. -/
theorem untilClosed_cons_of_pos {before c : Char} {depth : Int} (h : 0 < depth) (cs : List Char) :
    untilClosed before depth (c :: cs)
      = if depthAfter before c depth = 0 then some ([], cs)
        else (untilClosed c (depthAfter before c depth) cs).map fun r => (c :: r.1, r.2) := by
  split
  · rename_i hzero
    have hc := (depthAfter_of_pos h).2 hzero
    simp [untilClosed, hc.1, hc.2, hzero]
  · rename_i hopen
    exact untilClosed_cons_of_open fun _ => hopen

/-- The search ends at the first character after which the depth is
zero. What it has passed before is the text inside, and all along it the
depth was positive. -/
theorem untilClosed_eq_some_iff {before : Char} {depth : Int} (h : 0 < depth)
    (cs inside after : List Char) :
    untilClosed before depth cs = some (inside, after)
      ↔ ∃ close, cs = inside ++ close :: after
          ∧ endDepth before depth (inside ++ [close]) = 0
          ∧ ∀ part, part <+: inside → 0 < endDepth before depth part := by
  induction cs generalizing before depth inside with
  | nil => simp [untilClosed]
  | cons c cs ih =>
      rw [untilClosed_cons_of_pos h]
      split
      · rename_i hzero
        constructor
        · intro heq
          cases heq
          refine ⟨c, rfl, hzero, fun part hpart => ?_⟩
          rw [List.prefix_nil.mp hpart]
          exact h
        · rintro ⟨close, hcs, -, hpos⟩
          cases inside with
          | nil =>
              obtain ⟨-, rfl⟩ := List.cons.inj hcs
              rfl
          | cons d inside =>
              -- Reading on would start at a depth that is not positive.
              obtain ⟨rfl, -⟩ := List.cons.inj hcs
              have := hpos [c] ⟨inside, rfl⟩
              rw [endDepth, hzero] at this
              exact absurd this (Int.lt_irrefl 0)
      · rename_i hopen
        have hpos' : 0 < depthAfter before c depth := by
          have := (@depthAfter_of_pos before c depth h).1
          omega
        rw [Option.map_eq_some_iff]
        constructor
        · rintro ⟨⟨inner, rest⟩, hrest, heq⟩
          cases heq
          obtain ⟨close, rfl, hclosed, hpos⟩ := (ih hpos' inner).mp hrest
          refine ⟨close, rfl, hclosed, fun part hpart => ?_⟩
          cases part with
          | nil => exact h
          | cons d part =>
              obtain ⟨hd, htail⟩ := List.cons_prefix_cons.mp hpart
              rw [hd]
              exact hpos part htail
        · rintro ⟨close, hcs, hclosed, hpos⟩
          cases inside with
          | nil =>
              obtain ⟨rfl, -⟩ := List.cons.inj hcs
              exact absurd hclosed hopen
          | cons d inside =>
              obtain ⟨rfl, rfl⟩ := List.cons.inj hcs
              refine ⟨(inside, after), (ih hpos' inside).mpr ⟨close, rfl, hclosed, ?_⟩, rfl⟩
              intro part hpart
              exact hpos (c :: part) (List.cons_prefix_cons.mpr ⟨rfl, hpart⟩)

/-- A text of the form `front<args` and one character more, where the
depth that the first `<` opens is back at zero after that last character
and nowhere before. -/
structure AngleForm (cs front args : List Char) (close : Char) : Prop where
  eq : cs = front ++ '<' :: (args ++ [close])
  first : '<' ∉ front
  inside : ∀ part, part <+: args → 0 < endDepth ' ' 0 ('<' :: part)
  closed : endDepth ' ' 0 ('<' :: (args ++ [close])) = 0

/-- Head and arguments are found in exactly the texts of this form. The
last character need not be a `>`: the scanner does not tell the kinds of
brackets apart. -/
theorem splitGeneric_eq_some_iff {cs head args : List Char} :
    splitGeneric cs = some (head, args)
      ↔ ∃ front close, AngleForm cs front args close ∧ head = trim front := by
  -- The search starts behind the first angle bracket, at depth one; the form counts from the
  -- bracket itself.
  have hdepth : ∀ part, endDepth ' ' 0 ('<' :: part) = endDepth '<' 1 part := fun part =>
    endDepth_opening (by decide) ' ' 0 part
  have hsearch := @untilClosed_eq_some_iff '<' 1 (by decide)
  constructor
  · intro h
    rw [splitGeneric] at h
    split at h
    · cases h
    · rename_i d rest hdrop
      split at h
      · rename_i inside hclosed
        cases h
        obtain ⟨close, rfl, hzero, hpos⟩ := (hsearch rest args []).mp hclosed
        -- `dropWhile` stops at the first angle bracket.
        have hd : d = '<' := by
          have := List.head?_dropWhile_not (· != '<') cs
          rw [hdrop] at this
          simpa using this
        subst hd
        refine ⟨cs.takeWhile (· != '<'), close, ⟨?_, ?_, ?_, ?_⟩, rfl⟩
        · rw [← hdrop, List.takeWhile_append_dropWhile]
        · intro hmem
          exact absurd (List.mem_takeWhile_imp hmem) (by decide)
        · intro part hpart
          rw [hdepth]
          exact hpos part hpart
        · rw [hdepth]
          exact hzero
      · cases h
  · rintro ⟨front, close, hform, rfl⟩
    -- No angle bracket stands in `front`, so the cut made is the one of the form.
    have hkeep := ne_angle_of_not_mem hform.first
    have hdrop : cs.dropWhile (· != '<') = '<' :: (args ++ [close]) := by
      rw [hform.eq, List.dropWhile_append_of_pos hkeep]
      simp
    have htake : cs.takeWhile (· != '<') = front := by
      rw [hform.eq, List.takeWhile_append_of_pos hkeep]
      simp
    have hclosed : untilClosed '<' 1 (args ++ [close]) = some (args, []) := by
      refine (hsearch _ args []).mpr ⟨close, rfl, ?_, fun part hpart => ?_⟩
      · rw [← hdepth]
        exact hform.closed
      · rw [← hdepth]
        exact hform.inside part hpart
    rw [splitGeneric, hdrop]
    simp only [hclosed, htake]

/-- In a generic form whose front has no brackets, every place outside
of all brackets with text behind it lies in the front, or is the first
`<` itself. So a separator, an arrow or an equals sign that is found
there is a part of the head. -/
theorem AngleForm.front_of_topLevel {cs front args : List Char} {close : Char}
    (h : AngleForm cs front args close) (hfront : endDepth ' ' 0 front = 0)
    {before : List Char} {c : Char} {rest : List Char} (hcs : cs = before ++ c :: rest)
    (hdepth : endDepth ' ' 0 before = 0) :
    before ++ [c] <+: front ++ ['<'] := by
  have hbefore : before <+: cs := ⟨c :: rest, hcs.symm⟩
  have hpre : front <+: cs := ⟨_, h.eq.symm⟩
  rcases List.prefix_or_prefix_of_prefix hbefore hpre with hshort | ⟨more, rfl⟩
  · -- A shorter text ends inside of the front, so its next character is there or is the `<`.
    obtain ⟨more, rfl⟩ := hshort
    have heq : c :: rest = more ++ '<' :: (args ++ [close]) := by
      have := hcs.symm.trans h.eq
      rwa [List.append_assoc, List.append_cancel_left_eq] at this
    cases more with
    | nil =>
        have hc : c = '<' := (List.cons.inj heq).1
        simp [hc]
    | cons d more =>
        rw [(List.cons.inj heq).1]
        exact ⟨more ++ ['<'], by simp⟩
  · have heq : more ++ c :: rest = '<' :: (args ++ [close]) := by
      have := hcs.symm.trans h.eq
      rwa [List.append_assoc, List.append_cancel_left_eq] at this
    cases more with
    | nil =>
        have hc : c = '<' := (List.cons.inj heq).1
        simp [hc]
    | cons d part =>
        -- Between the first `<` and the last character the depth is positive.
        have htail : part ++ c :: rest = args ++ [close] := (List.cons.inj heq).2
        obtain rfl : d = '<' := (List.cons.inj heq).1
        have hle : part.length ≤ args.length := by
          have := congrArg List.length htail
          simp only [List.length_append, List.length_cons, List.length_nil] at this
          omega
        have hpart : part <+: args := List.prefix_of_prefix_length_le ⟨_, htail⟩ ⟨_, rfl⟩ hle
        have hpos := h.inside part hpart
        rw [endDepth_opening (by decide)] at hpos
        rw [endDepth_append, hfront, endDepth_opening (by decide)] at hdepth
        omega

/-- The last character of a generic form closes a bracket, because it
leads from a positive depth to zero. -/
theorem AngleForm.isClosing_close {cs front args : List Char} {close : Char}
    (h : AngleForm cs front args close) : isClosing close = true := by
  have hpos := h.inside args (List.prefix_refl _)
  have hzero := h.closed
  rw [endDepth_opening (by decide)] at hpos
  rw [endDepth_opening (by decide), endDepth_append] at hzero
  exact ((depthAfter_of_pos hpos).2 hzero).1

/-! ### Final square brackets -/

/-- Nothing is left of a text iff all of it is blank. -/
theorem trim_eq_nil_iff {cs : List Char} : trim cs = [] ↔ ∀ c ∈ cs, isBlank c = true := by
  -- Trimming keeps the ink, so nothing is left only where there was none.
  constructor
  · intro h
    have hink : ink cs = 0 := by
      rw [← ink_trim, h]
      rfl
    simpa [ink, List.countP_eq_zero] using hink
  · intro h
    have hleft : trimLeft cs = [] := List.dropWhile_eq_nil_iff.mpr h
    rw [trim, hleft]
    rfl

/-- Blanks in front are trimmed off. -/
theorem trim_blank_append {bs : List Char} (h : ∀ c ∈ bs, isBlank c = true) (cs : List Char) :
    trim (bs ++ cs) = trim cs := by
  rw [trim, trimLeft, List.dropWhile_append_of_pos h]
  rfl

/-- The member that ends in brackets is nothing but brackets iff what is in
front of them is blank. -/
theorem trim_append_brackets_eq_iff (cs : List Char) :
    trim (cs ++ ['[', ']']) = ['[', ']'] ↔ trim cs = [] := by
  constructor
  · intro h
    -- The brackets are two characters of ink; if they are all there is, the text has none.
    have hink : ink cs = 0 := by
      have := congrArg ink h
      have htwo : ink ['[', ']'] = 2 := by decide
      rw [ink_trim, ink_append, htwo] at this
      omega
    exact trim_eq_nil_iff.mpr (by simpa [ink, List.countP_eq_zero] using hink)
  · intro h
    rw [trim_blank_append (trim_eq_nil_iff.mp h)]
    decide

/-- Brackets are no blanks, so a member that ends in them is not empty. -/
theorem trim_append_brackets_ne_nil (cs : List Char) : trim (cs ++ ['[', ']']) ≠ [] := by
  intro h
  exact absurd (trim_eq_nil_iff.mp h ']' (by simp)) (by decide)

/-- A single segment behind others is joined with the last of them. -/
theorem joinSegments_concat (ss : List (List Char)) (s t : List Char) :
    joinSegments (ss ++ [s]) [t] = ss ++ [s ++ t] := by
  induction ss with
  | nil => rfl
  | cons u ss ih => rw [List.cons_append, joinSegments_cons u (by simp), ih, List.cons_append]

/-- Brackets behind a text belong to its last segment. -/
theorem segments_append_brackets (sep : Char) {cs s : List Char} {ss : List (List Char)}
    (h : segments sep ' ' 0 cs = ss ++ [s]) :
    segments sep ' ' 0 (cs ++ ['[', ']']) = ss ++ [s ++ ['[', ']']] := by
  have hbrackets : ∀ before depth, segments sep before depth ['[', ']'] = [['[', ']']] := by
    intro before depth
    rw [segments_cons_of_not_cut rfl, segments_cons_of_not_cut rfl]
    rfl
  rw [segments_append_endDepth, h, hbrackets, joinSegments_concat]

/-- A text has at most one member iff with brackets behind it it has at
most one, or two of which the second is the brackets alone. The latter
happens if the text ends in a separator: a blank last segment is left
out, but not with brackets behind it. -/
theorem length_splitTopLevel_le_one_iff (sep : Char) (cs : List Char) :
    (splitTopLevel sep cs).length ≤ 1
      ↔ (splitTopLevel sep (cs ++ ['[', ']'])).length ≤ 1
        ∨ ∃ m, splitTopLevel sep (cs ++ ['[', ']']) = [m, ['[', ']']] := by
  obtain ⟨ss, s, hsegments⟩ : ∃ ss s, segments sep ' ' 0 cs = ss ++ [s] :=
    ⟨_, _, (List.dropLast_concat_getLast (segments_ne_nil sep ' ' 0 cs)).symm⟩
  have hlong : splitTopLevel sep (cs ++ ['[', ']'])
      = ss.map trim ++ [trim (s ++ ['[', ']'])] := by
    rw [splitTopLevel, segments_append_brackets sep hsegments, trimSegments_append]
    simp [trim_append_brackets_ne_nil]
  rw [hlong]
  by_cases hs : trim s = []
  · -- A blank last segment is no member, and with brackets behind it is one.
    have hshort : splitTopLevel sep cs = ss.map trim := by
      rw [splitTopLevel, hsegments, trimSegments_append_blank ss hs]
    rw [hshort, (trim_append_brackets_eq_iff s).mpr hs]
    simp only [List.length_append, List.length_map, List.length_singleton]
    constructor
    · intro hle
      rcases Nat.le_one_iff_eq_zero_or_eq_one.mp hle with hzero | hone
      · exact .inl (by omega)
      · obtain ⟨m, rfl⟩ := List.length_eq_one_iff.mp hone
        exact .inr ⟨trim m, rfl⟩
    · rintro (hle | ⟨m, hm⟩)
      · omega
      · have := congrArg List.length hm
        simp only [List.length_append, List.length_map, List.length_cons, List.length_nil] at this
        omega
  · have hshort : splitTopLevel sep cs = ss.map trim ++ [trim s] := by
      rw [splitTopLevel, hsegments, trimSegments_append]
      simp [hs]
    rw [hshort]
    simp only [List.length_append, List.length_singleton]
    constructor
    · intro hle
      exact .inl hle
    · rintro (hle | ⟨m, hm⟩)
      · exact hle
      · -- The last member is more than the brackets.
        have hlast := congrArg List.getLast? hm
        rw [List.getLast?_concat] at hlast
        exact absurd ((trim_append_brackets_eq_iff s).mp (Option.some.inj hlast)) hs

/-- Brackets at the end add no arrow and hide none. -/
theorem hasTopLevelArrow_append_brackets (cs : List Char) :
    hasTopLevelArrow (cs ++ ['[', ']']) = hasTopLevelArrow cs := by
  rw [hasTopLevelArrow, arrowFrom_append_endDepth]
  simp [arrowFrom, isArrowHead, hasTopLevelArrow]

end Externals.Text
