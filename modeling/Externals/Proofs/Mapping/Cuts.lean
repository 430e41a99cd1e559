import Externals.Proofs.Mapping.TopLevel

/-!
# `Externals.Proofs.Mapping.Cuts`: where a text is cut

Cutting is a single pass that carries a depth. Here it is said without the
pass what comes out of it. The depth of a place is a count of characters in
front of it: the brackets that open, less those that close, where the `>` of
an arrow closes nothing (`nesting`). The text may be unbalanced, so the count
may be negative.

* `endDepth_eq_nesting`: the depth that the pass carries is this count.
* `CutsAt`: segments that make up a text with the separator between each two
  of them, where a separator stands between two segments iff the depth in
  front of it is zero.
* `CutsAt.unique`: there is only one way to cut a text like this.
* `cutsAt_segments`: the pass cuts a text into such segments.
* `splitTopLevel_of_mem`: no part that is not empty can be cut again.
-/

set_option autoImplicit false

namespace Externals.Text

/-! ### Counting brackets -/

/-- The number of arrows in a text: the places where a `>` comes right
after an `=`. Two characters next to each other are looked at, so an
arrow needs both of them in the text. -/
def arrows (cs : List Char) : Nat := (cs.zip cs.tail).countP fun p => isArrowHead p.1 p.2

/-- How deep in brackets a text ends: the brackets that it opens less those
that it closes. The `>` of an arrow closes nothing. -/
def nesting (cs : List Char) : Int := cs.countP isOpening - cs.countP isClosing + arrows cs

/-- A character in front adds an arrow iff it makes one with the
character that it is put in front of. -/
theorem arrows_cons_cons (before c : Char) (cs : List Char) :
    arrows (before :: c :: cs) = arrows (c :: cs) + if isArrowHead before c then 1 else 0 := by
  simp only [arrows, List.tail_cons, List.zip_cons_cons, List.countP_cons]

/-- A space makes no arrow with anything. A pass begins as if after a
space, so this takes the first character before the text out of the
count. -/
theorem arrows_space_cons (cs : List Char) : arrows (' ' :: cs) = arrows cs := by
  cases cs with
  | nil => rfl
  | cons c cs =>
      have hhead : isArrowHead ' ' c = false := by simp [isArrowHead]
      simp only [arrows_cons_cons, hhead, Bool.false_eq_true, if_false, Nat.add_zero]

/-- What one character adds to the depth. The head of an arrow is a closing
bracket like any other and is counted back. -/
theorem depthAfter_eq (before c : Char) (depth : Int) :
    depthAfter before c depth
      = depth + (if isOpening c then 1 else 0) - (if isClosing c then 1 else 0)
        + (if isArrowHead before c then 1 else 0) := by
  rw [depthAfter]
  -- The head of an arrow is written with a closing bracket but closes nothing.
  cases hopen : isOpening c with
  | true =>
      have hclose := isClosing_of_isOpening hopen
      simp [hclose, isArrowHead_eq_false hclose before]
  | false =>
      cases hhead : isArrowHead before c with
      | true => simp [isClosing_of_isArrowHead hhead]
      | false => cases hclose : isClosing c <;> simp

/-- The depth that a pass carries, as a count, from any depth and after
any character. The character before is counted with the text, as it may
make an arrow with the first one. -/
theorem endDepth_eq (before : Char) (depth : Int) (cs : List Char) :
    endDepth before depth cs
      = depth + cs.countP isOpening - cs.countP isClosing + arrows (before :: cs) := by
  induction cs generalizing before depth with
  | nil =>
      show depth = depth + 0 - 0 + 0
      omega
  | cons c cs ih =>
      -- Both sides grow by the same three terms, one for each kind that a character can be of.
      rw [endDepth, ih, depthAfter_eq, arrows_cons_cons, List.countP_cons, List.countP_cons]
      split <;> split <;> split <;> omega

/-- The depth that a pass over a text ends with is what its brackets
count up to. From here on a depth is a property of the text in front of
a place and not of the pass that came there. -/
theorem endDepth_eq_nesting (cs : List Char) : endDepth ' ' 0 cs = nesting cs := by
  rw [endDepth_eq, arrows_space_cons, nesting]
  omega

/-! ### Segments and the separators between them -/

/-- A text is all that stands in front of one of the separators between
segments: it is some of the first segments, joined, and others come
behind them. -/
def EndsAtCut (sep : Char) (rs : List (List Char)) (front : List Char) : Prop :=
  ∃ ss ts, ss ≠ [] ∧ ts ≠ [] ∧ rs = ss ++ ts ∧ front = [sep].intercalate ss

/-- Segments that make up a text with a separator between each two of
them. Of all separators in the text these are the ones outside of all
brackets: a separator that is inside of brackets belongs to a segment,
and none outside of them does. -/
structure CutsAt (sep : Char) (cs : List Char) (rs : List (List Char)) : Prop where
  ne_nil : rs ≠ []
  joined : cs = [sep].intercalate rs
  cut_iff : ∀ front rest, cs = front ++ sep :: rest →
    (EndsAtCut sep rs front ↔ nesting front = 0)

/-- An empty segment in front of others is a separator in front of
them. -/
theorem intercalate_nil_cons (sep : Char) {rs : List (List Char)} (h : rs ≠ []) :
    [sep].intercalate ([] :: rs) = sep :: [sep].intercalate rs := by
  rw [List.intercalate_cons_of_ne_nil h]
  rfl

/-- What is put in front of the first segment is in front of the whole. -/
theorem intercalate_append_cons (sep : Char) (cs r : List Char) (rs : List (List Char)) :
    [sep].intercalate ((cs ++ r) :: rs) = cs ++ [sep].intercalate (r :: rs) := by
  cases rs with
  | nil => simp only [List.intercalate_singleton]
  | cons s rs => simp only [List.intercalate_cons_cons, List.append_assoc]

/-- What stands in front of a cut begins with the first segment. -/
theorem endsAtCut_cons_iff {sep : Char} {r front : List Char} {rs : List (List Char)} :
    EndsAtCut sep (r :: rs) front
      ↔ ∃ ss ts, ts ≠ [] ∧ rs = ss ++ ts ∧ front = [sep].intercalate (r :: ss) := by
  constructor
  · rintro ⟨ss, ts, hss, hts, hrs, hfront⟩
    rcases List.append_eq_cons_iff.mp hrs.symm with ⟨rfl, -⟩ | ⟨later, rfl, hlater⟩
    · exact absurd rfl hss
    · exact ⟨later, ts, hts, hlater, hfront⟩
  · rintro ⟨ss, ts, hts, rfl, hfront⟩
    exact ⟨r :: ss, ts, List.cons_ne_nil _ _, hts, rfl, hfront⟩

/-- Behind a cut at the very front come the cuts of the rest. This is
the step of a pass that cuts at the first character. -/
theorem endsAtCut_nil_cons_iff (sep : Char) (rs : List (List Char)) (c : Char)
    (front : List Char) :
    EndsAtCut sep ([] :: rs) (c :: front) ↔ c = sep ∧ EndsAtCut sep rs front := by
  rw [endsAtCut_cons_iff]
  constructor
  · rintro ⟨ss, ts, hts, hrs, hfront⟩
    -- With nothing behind it the empty segment would join to nothing.
    have hss : ss ≠ [] := by
      rintro rfl
      cases hfront
    rw [intercalate_nil_cons sep hss] at hfront
    obtain ⟨hc, hfront⟩ := List.cons.inj hfront
    exact ⟨hc, ss, ts, hss, hts, hrs, hfront⟩
  · rintro ⟨rfl, ss, ts, hss, hts, rfl, rfl⟩
    exact ⟨ss, ts, hts, rfl, (intercalate_nil_cons c hss).symm⟩

/-- A text in front of the first segment is in front of every cut. This
is the step of a pass that does not cut. -/
theorem endsAtCut_append_cons_iff (sep : Char) (cs r : List Char) (rs : List (List Char))
    (front : List Char) :
    EndsAtCut sep ((cs ++ r) :: rs) (cs ++ front) ↔ EndsAtCut sep (r :: rs) front := by
  simp only [endsAtCut_cons_iff, intercalate_append_cons, List.append_cancel_left_eq]

/-! ### The places of the cuts determine the segments -/

/-- Every cut comes behind the whole first segment. -/
theorem EndsAtCut.isPrefix {sep : Char} {r front : List Char} {rs : List (List Char)}
    (h : EndsAtCut sep (r :: rs) front) : r <+: front := by
  obtain ⟨ss, ts, -, -, rfl⟩ := endsAtCut_cons_iff.mp h
  have hjoin := intercalate_append_cons sep r [] ss
  rw [List.append_nil] at hjoin
  exact ⟨_, hjoin.symm⟩

/-- The first segment is what stands in front of the first cut. -/
theorem endsAtCut_cons_cons_self (sep : Char) (r s : List Char) (rs : List (List Char)) :
    EndsAtCut sep (r :: s :: rs) r :=
  endsAtCut_cons_iff.mpr
    ⟨[], s :: rs, List.cons_ne_nil _ _, rfl, List.intercalate_singleton.symm⟩

/-- One segment alone has no cut. -/
theorem not_endsAtCut_singleton (sep : Char) (r front : List Char) :
    ¬ EndsAtCut sep [r] front := by
  rw [endsAtCut_cons_iff]
  rintro ⟨ss, ts, hts, hrs, -⟩
  exact hts (List.append_eq_nil_iff.mp hrs.symm).2

/-- The cuts behind the first one are the cuts of the other segments. -/
theorem endsAtCut_cons_append_iff (sep : Char) (r : List Char) (rs : List (List Char))
    (front : List Char) :
    EndsAtCut sep (r :: rs) (r ++ sep :: front) ↔ EndsAtCut sep rs front := by
  have h := endsAtCut_append_cons_iff sep r [] rs (sep :: front)
  rw [List.append_nil, endsAtCut_nil_cons_iff] at h
  exact h.trans (and_iff_right rfl)

/-- Segments joined, the first one apart. It shows the place of the
first cut. -/
theorem intercalate_sep_cons_cons (sep : Char) (r s : List Char) (rs : List (List Char)) :
    [sep].intercalate (r :: s :: rs) = r ++ sep :: [sep].intercalate (s :: rs) := by
  rw [List.intercalate_cons_cons, List.append_assoc, List.singleton_append]

/-- Segments are determined by the text that they make up and the places
of the cuts. The texts of the segments need not be compared: where the
first cut is decides how long the first segment is, and so on. -/
theorem eq_of_endsAtCut_iff {sep : Char} {rs rs' : List (List Char)} (hne : rs ≠ [])
    (hne' : rs' ≠ []) (hjoin : [sep].intercalate rs = [sep].intercalate rs')
    (hcut : ∀ front rest, [sep].intercalate rs = front ++ sep :: rest →
      (EndsAtCut sep rs front ↔ EndsAtCut sep rs' front)) : rs = rs' := by
  -- Along the first list. Behind the first cut of both the places are those of the rest.
  induction rs generalizing rs' with
  | nil => exact absurd rfl hne
  | cons r rs ih =>
      obtain ⟨r', rs', rfl⟩ := List.exists_cons_of_ne_nil hne'
      cases rs with
      | nil =>
          cases rs' with
          | nil =>
              rw [List.intercalate_singleton, List.intercalate_singleton] at hjoin
              rw [hjoin]
          | cons s' rs' =>
              have hplace := hjoin.trans (intercalate_sep_cons_cons sep r' s' rs')
              have hfirst := (hcut r' _ hplace).mpr (endsAtCut_cons_cons_self sep r' s' rs')
              exact absurd hfirst (not_endsAtCut_singleton sep r r')
      | cons s rs =>
          have hplace := intercalate_sep_cons_cons sep r s rs
          have hfirst := (hcut r _ hplace).mp (endsAtCut_cons_cons_self sep r s rs)
          cases rs' with
          | nil => exact absurd hfirst (not_endsAtCut_singleton sep r' r)
          | cons s' rs' =>
              have hplace' := hjoin.trans (intercalate_sep_cons_cons sep r' s' rs')
              have hfirst' := (hcut r' _ hplace').mpr (endsAtCut_cons_cons_self sep r' s' rs')
              -- Each of the two first segments is in front of the other's first cut.
              obtain rfl : r = r' :=
                hfirst'.isPrefix.eq_of_length_le hfirst.isPrefix.length_le
              have hrest : [sep].intercalate (s :: rs) = [sep].intercalate (s' :: rs') := by
                have := hplace.symm.trans hplace'
                exact (List.cons.inj (List.append_cancel_left this)).2
              refine congrArg (r :: ·) (ih (List.cons_ne_nil _ _) (List.cons_ne_nil _ _) hrest ?_)
              intro front rest hfront
              have := hcut (r ++ sep :: front) rest (by rw [hplace, hfront]; simp)
              rwa [endsAtCut_cons_append_iff, endsAtCut_cons_append_iff] at this

/-- There is only one way to cut a text like this, since the text alone
tells where the cuts are. So a property of some segments that are cut
like this is one of the segments that the pass makes. -/
theorem CutsAt.unique {sep : Char} {cs : List Char} {rs rs' : List (List Char)}
    (h : CutsAt sep cs rs) (h' : CutsAt sep cs rs') : rs = rs' := by
  refine eq_of_endsAtCut_iff h.ne_nil h'.ne_nil (h.joined.symm.trans h'.joined) ?_
  intro front rest hfront
  have hplace := h.joined.trans hfront
  rw [h.cut_iff front rest hplace, h'.cut_iff front rest hplace]

/-! ### The pass -/

/-- The pass loses nothing: its segments make up the text again. It
takes no assumption about the separator. -/
theorem intercalate_sep_segments (sep before : Char) (depth : Int) (cs : List Char) :
    [sep].intercalate (segments sep before depth cs) = cs := by
  induction cs generalizing before depth with
  | nil => rfl
  | cons c cs ih =>
      have hne := segments_ne_nil sep c (depthAfter before c depth) cs
      have ih := ih c (depthAfter before c depth)
      -- At a cut the separator is put back; elsewhere the character goes to the front of the
      -- first segment.
      cases hcut : (!isOpening c && !isClosing c && c == sep && depth == 0) with
      | true =>
          simp only [segments, hcut, if_true]
          simp only [Bool.and_eq_true, beq_iff_eq] at hcut
          rw [intercalate_nil_cons sep hne, ih, hcut.1.2]
      | false =>
          rw [segments_cons_of_not_cut hcut]
          obtain ⟨r, rs, hsegments⟩ := List.exists_cons_of_ne_nil hne
          rw [hsegments] at ih ⊢
          rw [prependTo, intercalate_append_cons, ih]
          rfl

/-- The pass cuts at a separator iff the depth in front of it is zero.
The text in front of it is arbitrary, so this speaks of every separator
of the text. -/
theorem endsAtCut_segments_iff {sep : Char} (hopen : isOpening sep = false)
    (hclose : isClosing sep = false) (before : Char) (depth : Int) (front rest : List Char) :
    EndsAtCut sep (segments sep before depth (front ++ sep :: rest)) front
      ↔ endDepth before depth front = 0 := by
  induction front generalizing before depth with
  | nil =>
      have hne := segments_ne_nil sep sep (depthAfter before sep depth) rest
      cases hcut : (!isOpening sep && !isClosing sep && sep == sep && depth == 0) with
      | true =>
          have hzero : depth = 0 := by simpa [hopen, hclose] using hcut
          simp only [List.nil_append, segments, hcut, if_true]
          exact ⟨fun _ => hzero, fun _ => ⟨[[]], _, List.cons_ne_nil _ _, hne, rfl, rfl⟩⟩
      | false =>
          -- The separator stays with the first segment, so nothing is in front of it.
          have hzero : depth ≠ 0 := by simpa [hopen, hclose] using hcut
          obtain ⟨r, rs, hsegments⟩ := List.exists_cons_of_ne_nil hne
          rw [List.nil_append, segments_cons_of_not_cut hcut, hsegments]
          refine ⟨fun h => ?_, fun h => absurd h hzero⟩
          exact absurd (List.prefix_nil.mp h.isPrefix) (List.cons_ne_nil _ _)
  | cons c front ih =>
      have hne := segments_ne_nil sep c (depthAfter before c depth) (front ++ sep :: rest)
      rw [List.cons_append, endDepth]
      cases hcut : (!isOpening c && !isClosing c && c == sep && depth == 0) with
      | true =>
          simp only [segments, hcut, if_true]
          simp only [Bool.and_eq_true, beq_iff_eq] at hcut
          rw [endsAtCut_nil_cons_iff, ih]
          exact and_iff_right hcut.1.2
      | false =>
          obtain ⟨r, rs, hsegments⟩ := List.exists_cons_of_ne_nil hne
          rw [segments_cons_of_not_cut hcut, ← ih, hsegments]
          exact endsAtCut_append_cons_iff sep [c] r rs front

/-- The pass cuts a text at the separators outside of all brackets and
at no others, provided that the separator is no bracket itself. -/
theorem cutsAt_segments {sep : Char} (hopen : isOpening sep = false)
    (hclose : isClosing sep = false) (cs : List Char) :
    CutsAt sep cs (segments sep ' ' 0 cs) where
  ne_nil := segments_ne_nil sep ' ' 0 cs
  joined := (intercalate_sep_segments sep ' ' 0 cs).symm
  cut_iff front rest hcs := by
    rw [hcs, endsAtCut_segments_iff hopen hclose, endDepth_eq_nesting]

/-- Every segment but the last is trimmed and kept, also a blank one. A
blank last one is left out. -/
theorem trimSegments_concat (ss : List (List Char)) (s : List Char) :
    trimSegments (ss ++ [s]) = ss.map trim ++ if trim s = [] then [] else [trim s] := by
  split
  · rename_i hblank
    rw [trimSegments_append_blank ss hblank, List.append_nil]
  · rename_i hink
    exact trimSegments_append ss (by simpa using hink)

/-- A part is one of the segments, trimmed. -/
theorem exists_trim_of_mem_trimSegments {ss : List (List Char)} {part : List Char}
    (h : part ∈ trimSegments ss) : ∃ s ∈ ss, trim s = part := by
  -- Only a last segment without ink is left out; all others are trimmed in place.
  fun_induction trimSegments ss with
  | case1 => exact absurd h List.not_mem_nil
  | case2 s hblank => exact absurd h List.not_mem_nil
  | case3 s hink => exact ⟨s, List.mem_cons_self, (List.mem_singleton.mp h).symm⟩
  | case4 s t ss ih =>
      rcases List.mem_cons.mp h with rfl | hmem
      · exact ⟨s, List.mem_cons_self, rfl⟩
      · obtain ⟨r, hr, htrim⟩ := ih hmem
        exact ⟨r, List.mem_cons_of_mem _ hr, htrim⟩

/-! ### Cutting a part again -/

/-- A text is one segment iff no separator stands outside of all
brackets. There is always a segment, and a single one is the whole
text. -/
theorem segments_eq_singleton_iff {sep : Char} (hopen : isOpening sep = false)
    (hclose : isClosing sep = false) (cs : List Char) :
    segments sep ' ' 0 cs = [cs] ↔ ¬ TopLevel [sep] cs := by
  have htwo := two_le_length_segments_iff hopen hclose ' ' 0 cs
  have hpos := List.length_pos_iff.mpr (segments_ne_nil sep ' ' 0 cs)
  -- A place to cut is the same as a second segment, so one segment means there is none; what
  -- is left is that the one segment is the whole text.
  have hplace : TopLevel [sep] cs ↔ 2 ≤ (segments sep ' ' 0 cs).length := by
    rw [htwo]
    simp only [TopLevel, List.append_assoc, List.singleton_append]
  rw [hplace]
  constructor
  · intro h
    simp [h]
  · intro h
    obtain ⟨s, hs⟩ := List.length_eq_one_iff.mp (by omega : (segments sep ' ' 0 cs).length = 1)
    have hjoined := intercalate_sep_segments sep ' ' 0 cs
    rw [hs, List.intercalate_singleton] at hjoined
    rw [hs, hjoined]

/-- The first segment is not cut at the depth where it begins, and a later
one, which comes after a cut, not at depth zero. The separator before it
makes no arrow with it. -/
theorem segments_of_segments {sep : Char} (hequals : sep ≠ '=') {before : Char} {depth : Int}
    {cs first : List Char} {later : List (List Char)}
    (h : segments sep before depth cs = first :: later) :
    segments sep before depth first = [first]
      ∧ ∀ s ∈ later, segments sep ' ' 0 s = [s] := by
  induction cs generalizing before depth first later with
  | nil =>
      cases h
      exact ⟨rfl, fun s hs => absurd hs List.not_mem_nil⟩
  | cons c cs ih =>
      obtain ⟨next, others, hrest⟩ := List.exists_cons_of_ne_nil
        (segments_ne_nil sep c (depthAfter before c depth) cs)
      obtain ⟨hnext, hothers⟩ := ih hrest
      cases hcut : (!isOpening c && !isClosing c && c == sep && depth == 0) with
      | true =>
          simp only [segments, hcut, if_true] at h
          obtain ⟨rfl, rfl⟩ := List.cons.inj h
          refine ⟨rfl, fun s hs => ?_⟩
          rw [hrest] at hs
          rcases List.mem_cons.mp hs with rfl | hmem
          · -- The segment right after this cut began at depth zero, after the separator.
            simp only [Bool.and_eq_true, Bool.not_eq_true', beq_iff_eq] at hcut
            obtain ⟨⟨⟨hopen, hclose⟩, rfl⟩, rfl⟩ := hcut
            have hdepth : depthAfter before c 0 = 0 := by
              simp [depthAfter_eq, hopen, hclose, isArrowHead_eq_false hclose before]
            rwa [hdepth, segments_before hequals] at hnext
          · exact hothers s hmem
      | false =>
          rw [segments_cons_of_not_cut hcut, hrest] at h
          obtain ⟨rfl, rfl⟩ := List.cons.inj h
          refine ⟨?_, hothers⟩
          show segments sep before depth (c :: next) = [c :: next]
          rw [segments_cons_of_not_cut hcut, hnext]
          rfl

/-- Only an equals sign matters before a text: it alone can make an
arrow with the first character. -/
theorem endDepth_before {before : Char} (hb : before ≠ '=') (depth : Int) (cs : List Char) :
    endDepth before depth cs = endDepth ' ' depth cs := by
  cases cs with
  | nil => rfl
  | cons c cs =>
      rw [endDepth, endDepth, depthAfter_of_ne hb, depthAfter_of_ne (by decide : ' ' ≠ '=')]

/-- Trimming the end leaves a beginning of the text. -/
theorem trimRight_prefix (cs : List Char) : trimRight cs <+: cs := by
  have hsuffix := List.reverse_prefix.mpr (List.dropWhile_suffix isBlank (l := cs.reverse))
  rwa [List.reverse_reverse] at hsuffix

/-- What is outside of all brackets of a trimmed text is so in the text.
Only this direction is needed: a part that could be cut again would be
cut before it was trimmed, too. -/
theorem TopLevel.of_trim {mark cs : List Char} (h : TopLevel mark (trim cs)) :
    TopLevel mark cs := by
  obtain ⟨front, rest, htrim, hdepth⟩ := h
  obtain ⟨bs, hcs, hblank⟩ := exists_blanks cs
  obtain ⟨tail, htail⟩ : trim cs <+: trimLeft cs := trimRight_prefix (trimLeft cs)
  refine ⟨bs ++ front, rest ++ tail, ?_, ?_⟩
  · rw [hcs, ← htail, htrim]
    simp
  · -- Blanks change no depth, and the last of them makes no arrow.
    have hinert : ∀ c ∈ bs, isInert (fun _ => false) c = true := fun c hc =>
      isInert_of_isBlank (hblank c hc) rfl
    have hlast : bs.getLastD ' ' ≠ '=' := by
      intro hequals
      obtain ⟨init, rfl⟩ := (getLastD_eq_iff (by decide)).mp hequals
      exact absurd (hblank '=' (by simp)) (by decide)
    rw [endDepth_append, endDepth_of_inert hinert, endDepth_before hlast, hdepth]

/-- A part that is not empty is cut no further. An empty one is: it
comes apart into no parts at all, as a blank last segment is left out. -/
theorem splitTopLevel_of_mem {sep : Char} (hopen : isOpening sep = false)
    (hclose : isClosing sep = false) (hequals : sep ≠ '=') {cs part : List Char}
    (hpart : part ∈ splitTopLevel sep cs) (hne : part ≠ []) :
    splitTopLevel sep part = [part] := by
  obtain ⟨s, hs, rfl⟩ : ∃ s ∈ segments sep ' ' 0 cs, trim s = part := by
    rw [splitTopLevel] at hpart
    exact exists_trim_of_mem_trimSegments hpart
  -- A segment holds no cut of its own, and trimming makes none.
  have hwhole : segments sep ' ' 0 s = [s] := by
    obtain ⟨first, later, hsegments⟩ :=
      List.exists_cons_of_ne_nil (segments_ne_nil sep ' ' 0 cs)
    obtain ⟨hfirst, hlater⟩ := segments_of_segments hequals hsegments
    rw [hsegments] at hs
    rcases List.mem_cons.mp hs with rfl | hmem
    · exact hfirst
    · exact hlater s hmem
  have htrimmed : segments sep ' ' 0 (trim s) = [trim s] := by
    rw [segments_eq_singleton_iff hopen hclose] at hwhole ⊢
    exact fun h => hwhole h.of_trim
  rw [splitTopLevel, htrimmed, trimSegments, trim_trim, if_neg (by simpa using hne)]

/-- Any text, balanced or not, is made of segments `ss` and a last one `s`,
with the separators outside of all brackets between them, and of no others.
Its parts are these segments in order, trimmed, and only the last one is left
out when it is blank. A part that is not empty is its own only part, unless
the separator is the equals sign, which may begin an arrow. -/
theorem splitTopLevel_exact {sep : Char} (hopen : isOpening sep = false)
    (hclose : isClosing sep = false) (cs : List Char) :
    (∃ ss s, (∀ rs, CutsAt sep cs rs ↔ rs = ss ++ [s])
        ∧ splitTopLevel sep cs = ss.map trim ++ if trim s = [] then [] else [trim s])
      ∧ (sep ≠ '=' →
          ∀ part ∈ splitTopLevel sep cs, part ≠ [] → splitTopLevel sep part = [part]) := by
  refine ⟨?_, fun hequals part => splitTopLevel_of_mem hopen hclose hequals⟩
  obtain ⟨ss, s, hsegments⟩ : ∃ ss s, segments sep ' ' 0 cs = ss ++ [s] :=
    ⟨_, _, (List.dropLast_concat_getLast (segments_ne_nil sep ' ' 0 cs)).symm⟩
  have hcuts := cutsAt_segments hopen hclose cs
  rw [hsegments] at hcuts
  refine ⟨ss, s, fun rs => ⟨fun hrs => hrs.unique hcuts, fun hrs => hrs ▸ hcuts⟩, ?_⟩
  rw [splitTopLevel, hsegments, trimSegments_concat]

/-- A text with arrows inside and outside of brackets, a blank segment in the
middle and one at the end. -/
theorem splitTopLevel_exact_arrows :
    let text := "f => Map<é | ß> | | (a => b) |".toList
    isOpening '|' = false
      ∧ isClosing '|' = false
      ∧ splitTopLevel '|' text = ["f => Map<é | ß>".toList, [], "(a => b)".toList]
      ∧ (∃ ss s, (∀ rs, CutsAt '|' text rs ↔ rs = ss ++ [s])
          ∧ splitTopLevel '|' text = ss.map trim ++ if trim s = [] then [] else [trim s])
      ∧ splitTopLevel '|' "(a => b)".toList = ["(a => b)".toList] := by
  intro text
  have hparts : splitTopLevel '|' text
      = ["f => Map<é | ß>".toList, [], "(a => b)".toList] := by decide
  obtain ⟨hcuts, hagain⟩ := splitTopLevel_exact (rfl : isOpening '|' = false) rfl text
  refine ⟨rfl, rfl, hparts, hcuts, hagain (by decide) _ ?_ (by decide)⟩
  rw [hparts]
  simp

end Externals.Text
