import Externals.Text.Brackets

/-!
# `Externals.Proofs.Text.Balanced`: scanning past balanced text

The scanners of `Externals.Text.Brackets` read one character at a
time and carry a depth. On a text that closes what it opens they all
do the same thing: they pass over it and go on with what follows, at
the depth they had. This module says so once for each scanner, always
with an arbitrary rest, so that the text of a type can be scanned
piece by piece along its structure.

`walk` is the one condition. It follows the depth of a text and fails
when a bracket closes more than was opened, at an equals sign (which
could make an arrow), and at a character of a given class outside of
all brackets.

* `segments_append`, `arrowFrom_append`, `untilClosed_append`: a
  walkable text in front of a rest.
* `untilClosed_crossing`: a text that closes more than it opens ends
  the search for the closing bracket, whatever follows it.
* `splitTopLevel_of_closed`, `splitTopLevel_closed_append`: the pieces
  of a text made of balanced parts.
* `trim_of_tight`: a text without blanks at its ends is not trimmed.
-/

set_option autoImplicit false

namespace Externals.Text

/-- The depth after a text, starting from a depth. There is none if a
bracket closes more than was opened, if an equals sign occurs, or if a
character of `stop` stands outside of all brackets. -/
def walk (stop : Char → Bool) (depth : Nat) : List Char → Option Nat
  | [] => some depth
  | c :: cs =>
      if isOpening c then walk stop (depth + 1) cs
      else if isClosing c then
        match depth with
        | 0 => none
        | d + 1 => walk stop d cs
      else if c == '=' || (depth == 0 && stop c) then none
      else walk stop depth cs

/-- A text that closes all it opens, with no character of `stop` outside
of its brackets and no equals sign anywhere. It can be decided, so words
and marks need no proof of their own. -/
def Closed (stop : Char → Bool) (cs : List Char) : Prop := walk stop 0 cs = some 0

/-- The walk is computed, so the texts of words are found to be closed
by evaluation. -/
instance (stop : Char → Bool) (cs : List Char) : Decidable (Closed stop cs) :=
  inferInstanceAs (Decidable (walk stop 0 cs = some 0))

/-- What a walk can do with its first character: go one level in, come
one level out, or pass by. -/
theorem walk_cons {stop : Char → Bool} {depth depth' : Nat} {c : Char} {cs : List Char}
    (h : walk stop depth (c :: cs) = some depth') :
    (isOpening c = true ∧ walk stop (depth + 1) cs = some depth')
      ∨ (isOpening c = false ∧ isClosing c = true
          ∧ ∃ d, depth = d + 1 ∧ walk stop d cs = some depth')
      ∨ (isOpening c = false ∧ isClosing c = false ∧ c ≠ '=' ∧ (depth = 0 → stop c = false)
          ∧ walk stop depth cs = some depth') := by
  -- The tests of `walk` in their order: an opening bracket, a closing one, a character that
  -- stops.
  simp only [walk] at h
  split at h
  · rename_i hopen
    exact .inl ⟨hopen, h⟩
  · rename_i hopen
    rw [Bool.not_eq_true] at hopen
    split at h
    · rename_i hclose
      cases depth with
      | zero => cases h
      | succ d => exact .inr (.inl ⟨hopen, hclose, d, rfl, h⟩)
    · rename_i hclose
      rw [Bool.not_eq_true] at hclose
      split at h
      · cases h
      · rename_i hstop
        simp only [Bool.or_eq_true, Bool.and_eq_true, beq_iff_eq, not_or, not_and,
          Bool.not_eq_true] at hstop
        exact .inr (.inr ⟨hopen, hclose, hstop.1, hstop.2, h⟩)

/-- A bracket that opens is one level deeper. -/
theorem walk_opening {c : Char} (hopen : isOpening c = true) (stop : Char → Bool) (depth : Nat)
    (cs : List Char) : walk stop depth (c :: cs) = walk stop (depth + 1) cs := by
  simp only [walk, hopen, if_true]

/-- A bracket that closes is one level out. -/
theorem walk_closing {c : Char} (hopen : isOpening c = false) (hclose : isClosing c = true)
    (stop : Char → Bool) (depth : Nat) (cs : List Char) :
    walk stop (depth + 1) (c :: cs) = walk stop depth cs := by
  simp only [walk, hopen, hclose, Bool.false_eq_true, if_false, if_true]

/-- Any other character is passed over, if it may stand there. -/
theorem walk_passing {stop : Char → Bool} {depth : Nat} {c : Char} (hopen : isOpening c = false)
    (hclose : isClosing c = false) (heq : c ≠ '=') (hstop : depth = 0 → stop c = false)
    (cs : List Char) : walk stop depth (c :: cs) = walk stop depth cs := by
  have hkeep : ¬(c == '=' || (depth == 0 && stop c)) = true := by
    simp only [Bool.or_eq_true, Bool.and_eq_true, beq_iff_eq, not_or, not_and, Bool.not_eq_true]
    exact ⟨heq, hstop⟩
  simp only [walk, hopen, hclose, Bool.false_eq_true, if_false, if_neg hkeep]

/-- A walk through two texts goes on at the depth of the first. -/
theorem walk_append (stop : Char → Bool) (depth : Nat) (as bs : List Char) :
    walk stop depth (as ++ bs) = (walk stop depth as).bind fun d => walk stop d bs := by
  -- The walk over `as` ends early in two places, a closing bracket at depth zero and a stop,
  -- and there nothing of the rest is read.
  induction as generalizing depth with
  | nil => rfl
  | cons c cs ih =>
      simp only [List.cons_append, walk]
      split
      · exact ih _
      · split
        · cases depth with
          | zero => rfl
          | succ d => exact ih d
        · split
          · rfl
          · exact ih depth

/-- One level further in, every class of characters is allowed, so a
walk goes through for any other class as well. -/
theorem walk_succ {stop : Char → Bool} (stop' : Char → Bool) {depth depth' : Nat}
    {cs : List Char} (h : walk stop depth cs = some depth') :
    walk stop' (depth + 1) cs = some (depth' + 1) := by
  induction cs generalizing depth with
  | nil =>
      simp only [walk, Option.some.injEq] at h ⊢
      omega
  | cons c cs ih =>
      -- One level deeper nothing can stop the walk, whatever the second test is.
      rcases walk_cons h with ⟨ho, hw⟩ | ⟨ho, hc, d, rfl, hw⟩ | ⟨ho, hc, he, -, hw⟩
      · rw [walk_opening ho]
        exact ih hw
      · rw [walk_closing ho hc]
        exact ih hw
      · rw [walk_passing ho hc he (by simp)]
        exact ih hw

/-- A walk that goes through for a class goes through for a smaller
one. -/
theorem walk_mono {stop stop' : Char → Bool} (hsub : ∀ c, stop' c = true → stop c = true)
    {depth depth' : Nat} {cs : List Char} (h : walk stop depth cs = some depth') :
    walk stop' depth cs = some depth' := by
  induction cs generalizing depth with
  | nil => exact h
  | cons c cs ih =>
      rcases walk_cons h with ⟨ho, hw⟩ | ⟨ho, hc, d, rfl, hw⟩ | ⟨ho, hc, he, hs, hw⟩
      · rw [walk_opening ho]
        exact ih hw
      · rw [walk_closing ho hc]
        exact ih hw
      -- Fewer characters stop the second walk, so where the first one passed it passes too.
      · have hs' : depth = 0 → stop' c = false := fun h0 => by
          rw [Bool.eq_false_iff]
          intro hbad
          rw [hsub c hbad] at hs
          cases hs h0
        rw [walk_passing ho hc he hs']
        exact ih hw

/-- Two closed texts are closed together. The texts of types are put
together like this. -/
theorem Closed.append {stop : Char → Bool} {as bs : List Char} (ha : Closed stop as)
    (hb : Closed stop bs) : Closed stop (as ++ bs) := by
  show walk stop 0 (as ++ bs) = some 0
  rw [walk_append, ha]
  exact hb

/-- A text is closed for a smaller class of characters as well. -/
theorem Closed.mono {stop stop' : Char → Bool} (hsub : ∀ c, stop' c = true → stop c = true)
    {cs : List Char} (h : Closed stop cs) : Closed stop' cs :=
  walk_mono hsub h

/-- A closed text between two brackets is closed for every class. Which
brackets they are does not matter, since the scanners do not tell them
apart. -/
theorem Closed.bracket {stop : Char → Bool} (stop' : Char → Bool) {l r : Char} {cs : List Char}
    (hl : isOpening l = true) (hr : isClosing r = true) (hr' : isOpening r = false)
    (h : Closed stop cs) : Closed stop' (l :: (cs ++ [r])) := by
  show walk stop' 0 (l :: (cs ++ [r])) = some 0
  rw [walk_opening hl, walk_append, walk_succ stop' h]
  exact walk_closing hr' hr stop' 0 []

/-- The characters that no scanner reacts to. -/
def isInert (stop : Char → Bool) (c : Char) : Bool :=
  !isOpening c && !isClosing c && c != '=' && !stop c

/-- A text of inert characters is closed. Names and numbers are of this
kind. -/
theorem closed_of_inert {stop : Char → Bool} {cs : List Char}
    (h : ∀ c ∈ cs, isInert stop c = true) : Closed stop cs := by
  induction cs with
  | nil => rfl
  | cons c cs ih =>
      have hc := h c List.mem_cons_self
      simp only [isInert, Bool.and_eq_true, Bool.not_eq_true', bne_iff_ne, ne_eq] at hc
      show walk stop 0 (c :: cs) = some 0
      rw [walk_passing hc.1.1.1 hc.1.1.2 hc.1.2 fun _ => hc.2]
      exact ih fun d hd => h d (List.mem_cons_of_mem c hd)

/-! ### The scanners -/

/-- After any character but an equals sign the depth goes its usual
way. -/
theorem depthAfter_of_ne {before : Char} (hb : before ≠ '=') (c : Char) (depth : Int) :
    depthAfter before c depth
      = if isOpening c then depth + 1 else if isClosing c then depth - 1 else depth := by
  simp [depthAfter, isArrowHead, hb]

/-- A bracket that opens makes no arrow with what follows. -/
theorem ne_equals_of_isOpening {c : Char} (h : isOpening c = true) : c ≠ '=' := by
  rintro rfl
  revert h
  decide

/-- Nor does one that closes. -/
theorem ne_equals_of_isClosing {c : Char} (h : isClosing c = true) : c ≠ '=' := by
  rintro rfl
  revert h
  decide

/-- A text put in front of the first segment. It is how a scanner goes
on when it does not cut. -/
def prependTo (cs : List Char) : List (List Char) → List (List Char)
  | [] => [cs]
  | s :: ss => (cs ++ s) :: ss

/-- There is always a segment, perhaps an empty one. -/
theorem segments_ne_nil (sep before : Char) (depth : Int) (cs : List Char) :
    segments sep before depth cs ≠ [] := by
  cases cs with
  | nil => simp [segments]
  | cons c cs =>
      simp only [segments]
      split
      · simp
      · split <;> simp

/-- The character before a text matters to its segments only if it is
an equals sign. -/
theorem segments_before {before : Char} (hb : before ≠ '=') (sep : Char) (depth : Int)
    (cs : List Char) : segments sep before depth cs = segments sep ' ' depth cs := by
  cases cs with
  | nil => rfl
  | cons c cs => simp only [segments, depthAfter_of_ne hb, depthAfter_of_ne (by decide : ' ' ≠ '=')]

/-- One character that is no cut goes in front of the first segment. -/
theorem segments_cons_of_not_cut {sep before c : Char} {depth : Int} {cs : List Char}
    (h : (!isOpening c && !isClosing c && c == sep && depth == 0) = false) :
    segments sep before depth (c :: cs)
      = prependTo [c] (segments sep c (depthAfter before c depth) cs) := by
  simp only [segments, h, Bool.false_eq_true, if_false]
  cases segments sep c (depthAfter before c depth) cs <;> rfl

/-- Two texts in front of the first segment are one. -/
theorem prependTo_append (as bs : List Char) (ss : List (List Char)) :
    prependTo as (prependTo bs ss) = prependTo (as ++ bs) ss := by
  cases ss <;> simp [prependTo]

/-- A walkable text goes in front of the first segment of the rest.
There is no cut in it: a separator stands in it only inside of
brackets. -/
theorem segments_append {sep before : Char} (hb : before ≠ '=') {depth depth' : Nat}
    {cs : List Char} (h : walk (· == sep) depth cs = some depth') (rest : List Char) :
    segments sep before depth (cs ++ rest) = prependTo cs (segments sep ' ' depth' rest) := by
  -- A walk fails at `=`, so the character before the rest makes no arrow with it.
  induction cs generalizing before depth with
  | nil =>
      simp only [walk, Option.some.injEq] at h
      subst h
      rw [List.nil_append, segments_before hb]
      cases hrest : segments sep ' ' depth rest with
      | nil => exact absurd hrest (segments_ne_nil _ _ _ _)
      | cons s ss => rfl
  | cons c cs ih =>
      rw [List.cons_append]
      rcases walk_cons h with ⟨ho, hw⟩ | ⟨ho, hc, d, rfl, hw⟩ | ⟨ho, hc, he, hs, hw⟩
      · rw [segments_cons_of_not_cut (by simp [ho]), depthAfter_of_ne hb, if_pos ho]
        have hdepth : (depth : Int) + 1 = ((depth + 1 : Nat) : Int) := by omega
        rw [hdepth, ih (ne_equals_of_isOpening ho) hw, prependTo_append]
        rfl
      · rw [segments_cons_of_not_cut (by simp [hc]), depthAfter_of_ne hb, if_neg (by simp [ho]),
          if_pos hc]
        have hdepth : ((d + 1 : Nat) : Int) - 1 = d := by omega
        rw [hdepth, ih (ne_equals_of_isClosing hc) hw, prependTo_append]
        rfl
      · -- A separator the walk passes over is inside of a bracket.
        have hcut : (!isOpening c && !isClosing c && c == sep && (depth : Int) == 0) = false := by
          rw [Bool.eq_false_iff]
          intro hbad
          simp only [Bool.and_eq_true, beq_iff_eq] at hbad
          have hsep := hs (by omega)
          simp [hbad.1.2] at hsep
        rw [segments_cons_of_not_cut hcut, depthAfter_of_ne hb, if_neg (by simp [ho]),
          if_neg (by simp [hc]), ih he hw, prependTo_append]
        rfl

/-- The character before a text matters to arrows only if it is an
equals sign. -/
theorem arrowFrom_before {before : Char} (hb : before ≠ '=') (depth : Int) (cs : List Char) :
    arrowFrom before depth cs = arrowFrom ' ' depth cs := by
  cases cs with
  | nil => rfl
  | cons c cs =>
      simp [arrowFrom, isArrowHead, hb, depthAfter_of_ne hb,
        depthAfter_of_ne (by decide : ' ' ≠ '=')]

/-- A walkable text holds no arrow outside of brackets. -/
theorem arrowFrom_append {stop : Char → Bool} {before : Char} (hb : before ≠ '=')
    {depth depth' : Nat} {cs : List Char} (h : walk stop depth cs = some depth')
    (rest : List Char) : arrowFrom before depth (cs ++ rest) = arrowFrom ' ' depth' rest := by
  induction cs generalizing before depth with
  | nil =>
      simp only [walk, Option.some.injEq] at h
      subst h
      exact arrowFrom_before hb _ _
  | cons c cs ih =>
      have hhead : isArrowHead before c = false := by simp [isArrowHead, hb]
      rw [List.cons_append, arrowFrom, hhead, Bool.false_and, Bool.false_or, depthAfter_of_ne hb]
      -- The depth of the scanner is an integer and that of the walk a number, so they are
      -- compared in each case.
      rcases walk_cons h with ⟨ho, hw⟩ | ⟨ho, hc, d, rfl, hw⟩ | ⟨ho, hc, he, -, hw⟩
      · rw [if_pos ho]
        exact ih (ne_equals_of_isOpening ho) hw
      · rw [if_neg (by simp [ho]), if_pos hc]
        have hdepth : ((d + 1 : Nat) : Int) - 1 = d := by omega
        rw [hdepth]
        exact ih (ne_equals_of_isClosing hc) hw
      · rw [if_neg (by simp [ho]), if_neg (by simp [hc])]
        exact ih he hw

/-- No bracket both opens and closes. -/
theorem isClosing_of_isOpening {c : Char} (h : isOpening c = true) : isClosing c = false := by
  simp only [isOpening, Bool.or_eq_true, beq_iff_eq] at h
  rcases h with ((rfl | rfl) | rfl) | rfl <;> decide

/-- The search for a closing bracket does not ask for the character
before the text either, unless that is an equals sign. -/
theorem untilClosed_before {before : Char} (hb : before ≠ '=') (depth : Int) (cs : List Char) :
    untilClosed before depth cs = untilClosed ' ' depth cs := by
  cases cs with
  | nil => rfl
  | cons c cs =>
      simp [untilClosed, isArrowHead, hb, depthAfter_of_ne hb,
        depthAfter_of_ne (by decide : ' ' ≠ '=')]

/-- One character that does not end the search. -/
theorem untilClosed_cons_of_open {before c : Char} {depth : Int} {cs : List Char}
    (h : isClosing c = true → depthAfter before c depth ≠ 0) :
    untilClosed before depth (c :: cs)
      = (untilClosed c (depthAfter before c depth) cs).map fun r => (c :: r.1, r.2) := by
  have hgo : (isClosing c && !isArrowHead before c && depthAfter before c depth == 0) = false := by
    rw [Bool.eq_false_iff]
    intro hbad
    simp only [Bool.and_eq_true, beq_iff_eq] at hbad
    exact h hbad.1.1 hbad.2
  simp only [untilClosed, hgo, Bool.false_eq_true, if_false]

/-- A walkable text inside an open bracket does not end the search for
the bracket that closes it: it never comes out further than it was. -/
theorem untilClosed_append {stop : Char → Bool} {before : Char} (hb : before ≠ '=')
    {depth depth' : Nat} {cs : List Char} (h : walk stop depth cs = some depth')
    (rest : List Char) :
    untilClosed before (depth + 1) (cs ++ rest)
      = (untilClosed ' ' (depth' + 1) rest).map fun r => (cs ++ r.1, r.2) := by
  -- The search is one level deeper than the walk, which never leaves level zero.
  induction cs generalizing before depth with
  | nil =>
      simp only [walk, Option.some.injEq] at h
      subst h
      simp only [List.nil_append, untilClosed_before hb]
      exact Option.map_id'.symm
  | cons c cs ih =>
      rw [List.cons_append]
      rcases walk_cons h with ⟨ho, hw⟩ | ⟨ho, hc, d, rfl, hw⟩ | ⟨ho, hc, he, -, hw⟩
      · have hdepth : depthAfter before c (depth + 1) = ((depth + 1 : Nat) : Int) + 1 := by
          rw [depthAfter_of_ne hb, if_pos ho]
          omega
        rw [untilClosed_cons_of_open (by simp [isClosing_of_isOpening ho]), hdepth,
          ih (ne_equals_of_isOpening ho) hw, Option.map_map]
        rfl
      · have hdepth : depthAfter before c (((d + 1 : Nat) : Int) + 1) = (d : Int) + 1 := by
          rw [depthAfter_of_ne hb, if_neg (by simp [ho]), if_pos hc]
          omega
        rw [untilClosed_cons_of_open (by rw [hdepth]; omega), hdepth,
          ih (ne_equals_of_isClosing hc) hw, Option.map_map]
        rfl
      · have hdepth : depthAfter before c (depth + 1) = (depth : Int) + 1 := by
          rw [depthAfter_of_ne hb, if_neg (by simp [ho]), if_neg (by simp [hc])]
        rw [untilClosed_cons_of_open (by simp [hc]), hdepth, ih he hw, Option.map_map]
        rfl

/-- A text that comes out of at least `level` brackets more than it
goes into ends the search that starts `level` brackets deep. What
follows the text is then left over. -/
theorem untilClosed_crossing {stop : Char → Bool} {before : Char} (hb : before ≠ '=')
    {depth depth' : Nat} (level : Nat) {cs : List Char} (h : walk stop depth cs = some depth')
    (hlevel : 1 ≤ level) (hcross : depth' + level ≤ depth) (rest : List Char) :
    ∃ inside after, untilClosed before level (cs ++ rest) = some (inside, after ++ rest) := by
  induction cs generalizing before depth level with
  | nil =>
      simp only [walk, Option.some.injEq] at h
      omega
  | cons c cs ih =>
      rw [List.cons_append]
      rcases walk_cons h with ⟨ho, hw⟩ | ⟨ho, hc, d, rfl, hw⟩ | ⟨ho, hc, he, -, hw⟩
      · have hdepth : depthAfter before c level = ((level + 1 : Nat) : Int) := by
          rw [depthAfter_of_ne hb, if_pos ho]
          omega
        obtain ⟨inside, after, hin⟩ := ih (ne_equals_of_isOpening ho) (level + 1) hw
          (by omega) (by omega)
        rw [untilClosed_cons_of_open (by simp [isClosing_of_isOpening ho]), hdepth, hin]
        exact ⟨c :: inside, after, rfl⟩
      · have hdepth : depthAfter before c level = (level : Int) - 1 := by
          rw [depthAfter_of_ne hb, if_neg (by simp [ho]), if_pos hc]
        -- The bracket either ends the search or brings it one level closer to its end.
        rcases Nat.eq_or_lt_of_le hlevel with hone | hmore
        · have hzero : depthAfter before c level = 0 := by
            rw [hdepth]
            omega
          refine ⟨[], cs, ?_⟩
          simp [untilClosed, hc, hzero, isArrowHead, hb]
        · have hstep : depthAfter before c level = ((level - 1 : Nat) : Int) := by
            rw [hdepth]
            omega
          obtain ⟨inside, after, hin⟩ := ih (ne_equals_of_isClosing hc) (level - 1) hw
            (by omega) (by omega)
          rw [untilClosed_cons_of_open (by rw [hstep]; omega), hstep, hin]
          exact ⟨c :: inside, after, rfl⟩
      · have hdepth : depthAfter before c level = level := by
          rw [depthAfter_of_ne hb, if_neg (by simp [ho]), if_neg (by simp [hc])]
        obtain ⟨inside, after, hin⟩ := ih he level hw hlevel hcross
        rw [untilClosed_cons_of_open (by simp [hc]), hdepth, hin]
        exact ⟨c :: inside, after, rfl⟩

/-! ### Trimmed text -/

/-- A text that has no blank at either end, and is not empty. Blanks
inside of it do not matter. -/
structure Tight (cs : List Char) : Prop where
  first : ∃ c, cs.head? = some c ∧ isBlank c = false
  last : ∃ c, cs.getLast? = some c ∧ isBlank c = false

/-- Nothing is trimmed in front of a character that is no blank. -/
theorem trimLeft_of_head {cs : List Char} {c : Char} (h : cs.head? = some c)
    (hc : isBlank c = false) : trimLeft cs = cs := by
  obtain ⟨rest, rfl⟩ := List.head?_eq_some_iff.mp h
  simp [trimLeft, hc]

/-- A tight text is not trimmed. -/
theorem trim_of_tight {cs : List Char} (h : Tight cs) : trim cs = cs := by
  obtain ⟨c, hfirst, hc⟩ := h.first
  obtain ⟨d, hlast, hd⟩ := h.last
  have hright : trimLeft cs.reverse = cs.reverse :=
    trimLeft_of_head (by rw [List.head?_reverse, hlast]) hd
  rw [trim, trimLeft_of_head hfirst hc]
  show (trimLeft cs.reverse).reverse = cs
  rw [hright, List.reverse_reverse]

/-- A tight text is not empty. -/
theorem Tight.ne_nil {cs : List Char} (h : Tight cs) : cs ≠ [] := by
  rintro rfl
  obtain ⟨c, hc, -⟩ := h.first
  cases hc

/-- A text between two tight ones makes a tight text, whatever it is. -/
theorem Tight.append {as bs cs : List Char} (ha : Tight as) (hc : Tight cs) :
    Tight (as ++ bs ++ cs) where
  first := by
    obtain ⟨c, h, hblank⟩ := ha.first
    exact ⟨c, by simp [List.head?_append, h], hblank⟩
  last := by
    obtain ⟨c, h, hblank⟩ := hc.last
    exact ⟨c, by simp [List.getLast?_append, h], hblank⟩

/-! ### Pieces -/

/-- A closed text is its only piece. -/
theorem splitTopLevel_of_closed {sep : Char} {cs : List Char} (h : Closed (· == sep) cs)
    (ht : Tight cs) : splitTopLevel sep cs = [cs] := by
  have hseg : segments sep ' ' 0 cs = [cs] := by
    have := segments_append (by decide : ' ' ≠ '=') h []
    simpa [segments, prependTo] using this
  simp [splitTopLevel, hseg, trimSegments, trim_of_tight ht, ht.ne_nil]

/-- A closed text before a separator is the first piece. -/
theorem splitTopLevel_closed_append {sep : Char} (hopen : isOpening sep = false)
    (hclose : isClosing sep = false) (heq : sep ≠ '=') {cs : List Char}
    (h : Closed (· == sep) cs) (rest : List Char) :
    splitTopLevel sep (cs ++ sep :: rest) = trim cs :: splitTopLevel sep rest := by
  have hcut : segments sep ' ' 0 (sep :: rest) = [] :: segments sep ' ' 0 rest := by
    have hdepth : depthAfter ' ' sep 0 = 0 := by
      simp [depthAfter, isArrowHead, hopen, hclose]
    simp only [segments, hopen, hclose, hdepth, segments_before heq]
    simp
  have hseg : segments sep ' ' 0 (cs ++ sep :: rest) = cs :: segments sep ' ' 0 rest := by
    have := segments_append (by decide : ' ' ≠ '=') h (sep :: rest)
    rw [Int.natCast_zero, hcut] at this
    simpa [prependTo] using this
  rw [splitTopLevel, hseg, splitTopLevel]
  -- Only the last segment is dropped for being blank, and here another one follows.
  cases hrest : segments sep ' ' 0 rest with
  | nil => exact absurd hrest (segments_ne_nil _ _ _ _)
  | cons s ss => rfl

/-- Blanks are no brackets and make no arrow. -/
theorem isInert_of_isBlank {stop : Char → Bool} {c : Char} (hblank : isBlank c = true)
    (hstop : stop c = false) : isInert stop c = true := by
  -- Neither the brackets nor the equals sign is a blank.
  have hopen : isOpening c = false := by
    rw [Bool.eq_false_iff]
    intro h
    simp only [isOpening, Bool.or_eq_true, beq_iff_eq] at h
    rcases h with ((rfl | rfl) | rfl) | rfl <;> exact absurd hblank (by decide)
  have hclose : isClosing c = false := by
    rw [Bool.eq_false_iff]
    intro h
    simp only [isClosing, Bool.or_eq_true, beq_iff_eq] at h
    rcases h with ((rfl | rfl) | rfl) | rfl <;> exact absurd hblank (by decide)
  have hequals : c ≠ '=' := by
    rintro rfl
    exact absurd hblank (by decide)
  simp [isInert, hopen, hclose, hequals, hstop]

/-- Blanks in front belong to the first piece and are trimmed off. -/
theorem splitTopLevel_blank_append {sep : Char} {bs : List Char}
    (hblank : ∀ c ∈ bs, isBlank c = true) (hsep : sep ∉ bs) (cs : List Char) :
    splitTopLevel sep (bs ++ cs) = splitTopLevel sep cs := by
  -- The blanks hold no place to cut, so they join the first segment, and trimming takes them
  -- off.
  have hclosed : Closed (· == sep) bs := closed_of_inert fun c hc =>
    isInert_of_isBlank (hblank c hc) (beq_eq_false_iff_ne.mpr fun h => hsep (h ▸ hc))
  have hseg : segments sep ' ' 0 (bs ++ cs) = prependTo bs (segments sep ' ' 0 cs) :=
    segments_append (by decide : ' ' ≠ '=') hclosed cs
  have htrim : ∀ s, trim (bs ++ s) = trim s := fun s => by
    rw [trim, trimLeft, List.dropWhile_append_of_pos hblank]
    rfl
  rw [splitTopLevel, hseg, splitTopLevel]
  cases hrest : segments sep ' ' 0 cs with
  | nil => exact absurd hrest (segments_ne_nil _ _ _ _)
  | cons s ss => cases ss <;> simp [prependTo, trimSegments, htrim]

/-- A space in front belongs to the first piece and is trimmed off. -/
theorem splitTopLevel_space_cons {sep : Char} (h : sep ≠ ' ') (cs : List Char) :
    splitTopLevel sep (' ' :: cs) = splitTopLevel sep cs := by
  have hblank : ∀ c ∈ [' '], isBlank c = true := List.forall_mem_singleton.mpr (by decide)
  exact splitTopLevel_blank_append hblank (by simpa using h) cs

/-- A space behind a tight text is trimmed off. -/
theorem trim_append_space {cs : List Char} (h : Tight cs) : trim (cs ++ [' ']) = cs := by
  obtain ⟨c, hc, hblank⟩ := h.first
  -- The text starts with ink, so trimming works at the right end only, where the space goes
  -- first.
  have hleft : trimLeft (cs ++ [' ']) = cs ++ [' '] :=
    trimLeft_of_head (by simp [List.head?_append, hc]) hblank
  have hright : trimRight (cs ++ [' ']) = trimRight cs := by
    simp only [trimRight, List.reverse_append]
    rfl
  have hkeep : trimLeft cs = cs := trimLeft_of_head hc hblank
  rw [trim, hleft, hright]
  have := trim_of_tight h
  rwa [trim, hkeep] at this

/-- A closed text has no arrow outside of brackets. -/
theorem hasTopLevelArrow_of_closed {stop : Char → Bool} {cs : List Char} (h : Closed stop cs) :
    hasTopLevelArrow cs = false := by
  have := arrowFrom_append (by decide : ' ' ≠ '=') h []
  simpa [hasTopLevelArrow, arrowFrom] using this

/-! ### Parentheses alone -/

/-- A text that leaves the count of parentheses as it was, at any depth
and whatever follows. -/
def ParensEven (cs : List Char) : Prop :=
  ∀ depth rest, parensBalanced depth (cs ++ rest) = parensBalanced depth rest

/-- Two such texts, one after the other. -/
theorem ParensEven.append {as bs : List Char} (ha : ParensEven as) (hb : ParensEven bs) :
    ParensEven (as ++ bs) := by
  intro depth rest
  rw [List.append_assoc, ha, hb]

/-- A text without parentheses is such a text. -/
theorem parensEven_of_inert {cs : List Char} (h : ∀ c ∈ cs, c ≠ '(' ∧ c ≠ ')') :
    ParensEven cs := by
  intro depth rest
  induction cs with
  | nil => rfl
  | cons c cs ih =>
      have hc := h c List.mem_cons_self
      -- No parenthesis, no change of the depth.
      have hstep : parensBalanced depth (c :: (cs ++ rest))
          = parensBalanced depth (cs ++ rest) := by
        simp [parensBalanced, hc.1, hc.2]
      rw [List.cons_append, hstep]
      exact ih fun d hd => h d (List.mem_cons_of_mem c hd)

/-- So is one in parentheses. -/
theorem ParensEven.wrap {cs : List Char} (h : ParensEven cs) :
    ParensEven ('(' :: (cs ++ [')'])) := by
  intro depth rest
  have hopen : parensBalanced depth ('(' :: (cs ++ (')' :: rest)))
      = parensBalanced (depth + 1) (cs ++ (')' :: rest)) := by
    simp [parensBalanced]
  rw [List.cons_append, List.append_assoc, List.singleton_append, hopen, h]
  simp [parensBalanced]

/-- A parenthesis that closes what was not opened spoils the balance. -/
theorem parensBalanced_surplus {cs : List Char} (h : ParensEven cs) (rest : List Char) :
    parensBalanced 0 (cs ++ ')' :: rest) = false := by
  rw [h]
  simp [parensBalanced]

end Externals.Text
