import Externals.Proofs.Mapping.Symbol

/-!
# `Externals.Proofs.Mapping.Nullable`: adding `| undefined` to a type

A type with `| undefined` behind it maps to what the type maps to, with
`null` allowed and nothing else changed. This holds of a shape and of a
text, and of a text that is itself a union, a callback in parentheses or
already nullable.

For a text the way is long: the union is cut into its members, the last
one is dropped, the others are put together again, trimmed and freed of
parentheses, and then read. Three things are asked of the text, and none
of them that it is well formed. Its brackets must leave the depth at zero,
or the bar that is added is inside of a bracket. It must hold no arrow
outside of brackets, or the union belongs to the result of a function. And
its members must make up the text again when they are joined.

* `segments_append_endDepth`, `arrowFrom_append_endDepth`: scanning a text
  in front of another, whatever the brackets of either do.
* `TypeText.nullableInner?_undefinedTail`: the members of the longer text.
* `Viewpoint.map_orUndefined`: the law.
-/

set_option autoImplicit false

namespace Externals

namespace Text

/-! ### One text in front of another -/

/-- The depth after a text, starting from a depth. It may be below zero:
nothing is assumed about brackets. -/
def endDepth (before : Char) (depth : Int) : List Char → Int
  | [] => depth
  | c :: cs => endDepth c (depthAfter before c depth) cs

/-- Segments followed by segments: the last of the first goes in front
of the first of the second. -/
def joinSegments : List (List Char) → List (List Char) → List (List Char)
  | [], ts => ts
  | [s], ts => prependTo s ts
  | s :: s' :: ss, ts => s :: joinSegments (s' :: ss) ts

/-- Only the last segment is joined, so those before it stay as they
are. -/
theorem joinSegments_cons (s : List Char) {ss : List (List Char)} (hss : ss ≠ [])
    (ts : List (List Char)) : joinSegments (s :: ss) ts = s :: joinSegments ss ts := by
  cases ss with
  | nil => exact absurd rfl hss
  | cons s' ss => rfl

/-- What is put in front of the first segment stays in front. -/
theorem joinSegments_prependTo (cs : List Char) {ss : List (List Char)} (hss : ss ≠ [])
    (ts : List (List Char)) :
    joinSegments (prependTo cs ss) ts = prependTo cs (joinSegments ss ts) := by
  match ss with
  | [] => exact absurd rfl hss
  | [s] => exact (prependTo_append cs s ts).symm
  | s :: s' :: ss => rfl

/-- The segments of a text continue with those of what follows it, at
the depth and after the character that the text ends with. -/
theorem segments_append_endDepth (sep before : Char) (depth : Int) (as bs : List Char) :
    segments sep before depth (as ++ bs)
      = joinSegments (segments sep before depth as)
          (segments sep (as.getLastD before) (endDepth before depth as) bs) := by
  induction as generalizing before depth with
  | nil =>
      show segments sep before depth bs = prependTo [] (segments sep before depth bs)
      cases h : segments sep before depth bs with
      | nil => exact absurd h (segments_ne_nil _ _ _ _)
      | cons s ss => rfl
  | cons c as ih =>
      -- A cut at the first character opens a segment of its own; any other joins the next.
      have hne := segments_ne_nil sep c (depthAfter before c depth) as
      rw [List.getLastD_cons, endDepth]
      cases hcut : (!isOpening c && !isClosing c && c == sep && depth == 0) with
      | true =>
          simp only [List.cons_append, segments, hcut, if_true, ih]
          exact (joinSegments_cons [] hne _).symm
      | false =>
          rw [List.cons_append, segments_cons_of_not_cut hcut, segments_cons_of_not_cut hcut, ih,
            joinSegments_prependTo [c] hne]

/-- An arrow of depth zero is in the one text or in the other. One
across the seam is found with the second, which knows the character
before it. -/
theorem arrowFrom_append_endDepth (before : Char) (depth : Int) (as bs : List Char) :
    arrowFrom before depth (as ++ bs)
      = (arrowFrom before depth as
          || arrowFrom (as.getLastD before) (endDepth before depth as) bs) := by
  induction as generalizing before depth with
  | nil => rfl
  | cons c as ih =>
      rw [List.cons_append, arrowFrom, arrowFrom, ih, List.getLastD_cons, endDepth, Bool.or_assoc]

/-! ### Blanks -/

/-- A text that ends with ink has nothing to trim at its end. -/
theorem trimRight_of_getLast? {cs : List Char} {c : Char} (h : cs.getLast? = some c)
    (hc : isBlank c = false) : trimRight cs = cs := by
  show (trimLeft cs.reverse).reverse = cs
  rw [trimLeft_of_head (by rw [List.head?_reverse, h]) hc, List.reverse_reverse]

/-- A blank behind a text is trimmed off. -/
theorem trim_concat_blank {c : Char} (hc : isBlank c = true) (cs : List Char) :
    trim (cs ++ [c]) = trim cs := by
  have hright : ∀ ds : List Char, trimRight (ds ++ [c]) = trimRight ds := fun ds => by
    simp [trimRight, hc]
  -- Trimming on the left keeps the last blank unless there is nothing but blanks in front of
  -- it.
  have hleft : trimLeft (cs ++ [c]) = trimLeft cs ++ [c] ∨ trimLeft cs = [] ∧
      trimLeft (cs ++ [c]) = [] := by
    rw [trimLeft, trimLeft, List.dropWhile_append]
    split
    · rename_i hblank
      exact .inr ⟨List.isEmpty_iff.mp hblank, by simp [hc]⟩
    · exact .inl rfl
  rw [trim, trim]
  rcases hleft with hleft | ⟨hcs, hleft⟩
  · rw [hleft, hright]
  · rw [hleft, hcs]

/-- A text that was trimmed at its front begins with ink. -/
theorem head?_trimLeft {cs : List Char} {c : Char} (h : (trimLeft cs).head? = some c) :
    isBlank c = false := by
  have := List.head?_dropWhile_not isBlank cs
  rw [trimLeft] at h
  simpa [h] using this

/-- A text that begins with ink keeps its first character when its end
is trimmed. -/
theorem head?_trimRight {cs : List Char} {c : Char} (h : cs.head? = some c)
    (hc : isBlank c = false) : (trimRight cs).head? = some c := by
  obtain ⟨rest, rfl⟩ := List.head?_eq_some_iff.mp h
  rw [trimRight, List.reverse_cons, List.dropWhile_append]
  split <;> simp [hc]

/-- A trimmed text has no blanks at its ends, unless it is empty. -/
theorem trim_eq_nil_or_tight (cs : List Char) : trim cs = [] ∨ Tight (trim cs) := by
  cases hleft : (trimLeft cs).head? with
  | none =>
      rw [trim, List.head?_eq_none_iff.mp hleft]
      exact .inl rfl
  | some c =>
      have hc := head?_trimLeft hleft
      have hfirst : (trim cs).head? = some c := head?_trimRight hleft hc
      refine .inr ⟨⟨c, hfirst, hc⟩, ?_⟩
      -- The last character is the first of the reverse.
      cases hlast : (trim cs).getLast? with
      | none => simp [List.getLast?_eq_none_iff.mp hlast] at hfirst
      | some d =>
          rw [trim, trimRight, List.getLast?_reverse] at hlast
          exact ⟨d, rfl, head?_trimLeft hlast⟩

/-- Trimming twice is trimming once. -/
theorem trim_trim (cs : List Char) : trim (trim cs) = trim cs := by
  rcases trim_eq_nil_or_tight cs with hnil | htight
  · rw [hnil]
    rfl
  · exact trim_of_tight htight

/-- What is trimmed off at the front is a run of blanks. -/
theorem exists_blanks (cs : List Char) :
    ∃ bs, cs = bs ++ trimLeft cs ∧ ∀ c ∈ bs, isBlank c = true :=
  ⟨cs.takeWhile isBlank, List.takeWhile_append_dropWhile.symm, fun _ => List.mem_takeWhile_imp⟩

/-- Trimming the front keeps a last character that is no blank. -/
theorem getLast?_trimLeft {cs : List Char} {c : Char} (h : cs.getLast? = some c)
    (hc : isBlank c = false) : (trimLeft cs).getLast? = some c := by
  obtain ⟨bs, hcs, hblank⟩ := exists_blanks cs
  rw [hcs, List.getLast?_append, Option.or_eq_some_iff] at h
  rcases h with hlast | ⟨-, hlast⟩
  · exact hlast
  · exact absurd (hblank c (List.mem_of_getLast? hlast)) (by simp [hc])

/-- Blanks in front of a text do not change its members. -/
theorem splitTopLevel_trimLeft {sep : Char} (hsep : isBlank sep = false) (cs : List Char) :
    splitTopLevel sep (trimLeft cs) = splitTopLevel sep cs := by
  obtain ⟨bs, hcs, hblank⟩ := exists_blanks cs
  have hmem : sep ∉ bs := fun h => Bool.false_ne_true (hsep.symm.trans (hblank sep h))
  calc splitTopLevel sep (trimLeft cs)
      = splitTopLevel sep (bs ++ trimLeft cs) := (splitTopLevel_blank_append hblank hmem _).symm
    _ = splitTopLevel sep cs := congrArg _ hcs.symm

/-- Nor do they change whether it has an arrow. -/
theorem hasTopLevelArrow_trimLeft (cs : List Char) :
    hasTopLevelArrow (trimLeft cs) = hasTopLevelArrow cs := by
  obtain ⟨bs, hcs, hblank⟩ := exists_blanks cs
  have hclosed : Closed (fun _ => false) bs :=
    closed_of_inert fun c hc => isInert_of_isBlank (hblank c hc) rfl
  calc hasTopLevelArrow (trimLeft cs)
      = hasTopLevelArrow (bs ++ trimLeft cs) :=
        (arrowFrom_append (by decide : ' ' ≠ '=') hclosed _).symm
    _ = hasTopLevelArrow cs := congrArg _ hcs.symm

/-! ### Members -/

/-- What stands behind a type that is made nullable. -/
def undefinedTail : List Char := " | undefined".toList

/-- A space does not change the depth. -/
theorem depthAfter_space (before : Char) (depth : Int) : depthAfter before ' ' depth = depth := by
  simp [depthAfter, isOpening, isClosing, isArrowHead]

/-- The tail, at depth zero: a space that joins the last segment, and a
segment of its own. -/
theorem segments_undefinedTail (before : Char) :
    segments '|' before 0 undefinedTail = [[' '], " undefined".toList] := by
  show segments '|' before 0 (' ' :: "| undefined".toList) = _
  rw [segments_cons_of_not_cut (by decide), depthAfter_space]
  rfl

/-- The tail has no arrow. -/
theorem arrowFrom_undefinedTail (before : Char) : arrowFrom before 0 undefinedTail = false := by
  show arrowFrom before 0 (' ' :: "| undefined".toList) = false
  rw [arrowFrom, depthAfter_space]
  rfl

/-- A space and a further segment: the space is trimmed off. -/
theorem joinSegments_space {ss : List (List Char)} (hss : ss ≠ []) (t : List Char) :
    ∃ ss', joinSegments ss [[' '], t] = ss' ++ [t] ∧ ss'.map trim = ss.map trim := by
  match ss with
  | [] => exact absurd rfl hss
  | [s] => exact ⟨[s ++ [' ']], rfl, by simp [trim_concat_blank (by decide : isBlank ' ' = true)]⟩
  | s :: s' :: ss =>
      obtain ⟨ss', hjoin, htrim⟩ := joinSegments_space (List.cons_ne_nil s' ss) t
      exact ⟨s :: ss', by rw [joinSegments, hjoin]; rfl, by rw [List.map_cons, htrim]; rfl⟩

/-- With `| undefined` behind a text whose brackets come out even, all
its segments are members, a blank one at the end too. -/
theorem splitTopLevel_undefinedTail {cs : List Char} (h : endDepth ' ' 0 cs = 0) :
    splitTopLevel '|' (cs ++ undefinedTail)
      = (segments '|' ' ' 0 cs).map trim ++ ["undefined".toList] := by
  obtain ⟨ss, hjoin, htrim⟩ :=
    joinSegments_space (segments_ne_nil '|' ' ' 0 cs) " undefined".toList
  rw [splitTopLevel, segments_append_endDepth, h, segments_undefinedTail, hjoin,
    trimSegments_append _ (by decide), htrim]
  rfl

/-- A blank segment at the end is dropped. -/
theorem trimSegments_append_blank (ss : List (List Char)) {s : List Char} (hs : trim s = []) :
    trimSegments (ss ++ [s]) = ss.map trim := by
  induction ss with
  | nil => simp [trimSegments, hs]
  | cons t ss ih =>
      cases ss with
      | nil => simp [trimSegments, hs]
      | cons u ss =>
          rw [List.cons_append, List.cons_append, trimSegments, List.map_cons, ← ih]
          rfl

/-- A text that its members make up again has no blank segment at the
end, unless it is blank as a whole. So its segments make it up too. -/
theorem intercalate_segments {cs : List Char}
    (h : trim cs = [' ', '|', ' '].intercalate (splitTopLevel '|' cs)) :
    [' ', '|', ' '].intercalate ((segments '|' ' ' 0 cs).map trim) = trim cs := by
  have hweight := ink_segments (by decide : isBlank '|' = false) ' ' 0 cs
  obtain ⟨ss, s, hsegments⟩ : ∃ ss s, segments '|' ' ' 0 cs = ss ++ [s] :=
    ⟨_, _, (List.dropLast_concat_getLast (segments_ne_nil '|' ' ' 0 cs)).symm⟩
  rw [splitTopLevel, hsegments] at h
  rw [hsegments] at hweight ⊢
  cases hs : (trim s).isEmpty with
  | false => rw [h, trimSegments_append ss hs, List.map_append, List.map_singleton]
  | true =>
      have hblank : trim s = [] := List.isEmpty_iff.mp hs
      have hmembers := trimSegments_append_blank ss hblank
      -- The bar before the blank segment would be lost in the joined text.
      have hink := congrArg ink h
      rw [ink_trim, TypeText.ink_intercalate, (ink_trimSegments _).1, hmembers,
        List.length_map] at hink
      rw [List.length_append, List.length_singleton] at hweight
      obtain rfl : ss = [] := List.length_eq_zero_iff.mp (by omega)
      rw [h, hmembers, List.nil_append, List.map_singleton, hblank]
      rfl

end Text

open Text

/-! ### Texts -/

namespace TypeText

/-- A text that ends in `undefined` is in no parentheses as a whole. -/
theorem of_append_undefinedTail (cs : List Char) :
    of (cs ++ undefinedTail) = ⟨trimLeft (cs ++ undefinedTail)⟩ := by
  have hlast : (cs ++ undefinedTail).getLast? = some 'd' := by
    rw [List.getLast?_append]
    rfl
  have hleft := getLast?_trimLeft hlast (by decide)
  rw [of, trim, trimRight_of_getLast? hleft (by decide),
    unwrapParens_of_enclosed?_none (enclosed?_of_last hleft (by decide))]

/-- The type before `| undefined` is what the segments of its text make
up. -/
theorem nullableInner?_undefinedTail {cs : List Char} (hdepth : endDepth ' ' 0 cs = 0)
    (harrow : hasTopLevelArrow cs = false) :
    (of (cs ++ undefinedTail)).nullableInner?
      = some (of ([' ', '|', ' '].intercalate ((segments '|' ' ' 0 cs).map trim))) := by
  have harrow' : hasTopLevelArrow (cs ++ undefinedTail) = false := by
    rw [hasTopLevelArrow, arrowFrom_append_endDepth, hdepth, arrowFrom_undefinedTail,
      Bool.or_false]
    exact harrow
  rw [of_append_undefinedTail, nullableInner?, hasTopLevelArrow_trimLeft, harrow',
    splitTopLevel_trimLeft (by decide), splitTopLevel_undefinedTail hdepth]
  simp [segments_ne_nil]

/-- The canonical form of a text does not depend on blanks around it. -/
theorem of_trim (cs : List Char) : of (trim cs) = of cs := by
  rw [of, of, trim_trim]

end TypeText

/-! ### The law -/

namespace Viewpoint

/-- A nullable reading maps like what it makes nullable. -/
theorem mapReading_nullable (v : Viewpoint) (p : Position) (text : String) (inner : Reading) :
    v.mapReading p (.nullable text inner)
      = { v.mapReading p inner with
          value := { (v.mapReading p inner).value with nullable := true } } := by
  simp only [mapReading, bind, Draft.bind, pure, Draft.pure, List.append_nil]

/-- Adding `| undefined` allows `null` and changes nothing else: the base,
the comment, the imports that are asked for and the events stay. Of a text
this is said where the bar that is added stands outside of all brackets,
no arrow does, and the union members make up the text again. -/
theorem map_orUndefined (v : Viewpoint) (p : Position) :
    (∀ text : String, endDepth ' ' 0 text.toList = 0 → hasTopLevelArrow text.toList = false →
      trim text.toList = [' ', '|', ' '].intercalate (splitTopLevel '|' text.toList) →
        v.map p (.unresolved (text ++ " | undefined"))
          = { v.map p (.unresolved text) with
              value := { (v.map p (.unresolved text)).value with nullable := true } })
      ∧ ∀ (text : String) (inner : ResolvedType),
          v.map p (.resolved (.nullable text inner))
            = { v.map p (.resolved inner) with
                value := { (v.map p (.resolved inner)).value with nullable := true } } := by
  refine ⟨fun text hdepth harrow hmembers => ?_, fun text inner => ?_⟩
  · -- The type that is left when the last member is dropped is the text itself, trimmed.
    have hinner := TypeText.nullableInner?_undefinedTail hdepth harrow
    rw [intercalate_segments hmembers, TypeText.of_trim] at hinner
    have hread : Reading.of (.unresolved (text ++ " | undefined"))
        = .nullable (trimString (TypeText.of (text.toList ++ undefinedTail)).text)
            (Reading.of (.unresolved text)) := by
      rw [Reading.of, TypeText.ofString, String.toList_append]
      show Reading.ofText (TypeText.of (text.toList ++ undefinedTail)) = _
      rw [Reading.ofText_eq, hinner]
      rfl
    rw [map, hread]
    exact v.mapReading_nullable p _ _
  · rw [map, Reading.of, Reading.ofResolved]
    exact v.mapReading_nullable p _ _

/-- The law at a union that is nullable already, with a callback among its
members, seen from the global scope of a new project. -/
theorem map_orUndefined_callback :
    let v := Viewpoint.within (Project.initial {}).index 0
    let text := "((id: string) => Buffer[]) | Map<string, number | null> | undefined"
    endDepth ' ' 0 text.toList = 0
      ∧ hasTopLevelArrow text.toList = false
      ∧ trim text.toList = [' ', '|', ' '].intercalate (splitTopLevel '|' text.toList)
      ∧ v.map {} (.unresolved (text ++ " | undefined"))
          = { v.map {} (.unresolved text) with
              value := { (v.map {} (.unresolved text)).value with nullable := true } } := by
  intro v text
  have hdepth : endDepth ' ' 0 text.toList = 0 := by decide
  have harrow : hasTopLevelArrow text.toList = false := by decide
  have hmembers : trim text.toList
      = [' ', '|', ' '].intercalate (splitTopLevel '|' text.toList) := by
    decide
  exact ⟨hdepth, harrow, hmembers, (v.map_orUndefined {}).1 text hdepth harrow hmembers⟩

end Viewpoint

end Externals
