import Externals.Proofs.Mapping.Composite

/-!
# `Externals.Proofs.Mapping.ArrayReading`: composite types and arrays

A composite type is put together from other types outside of all brackets:
a union or an intersection of several members, a function, or a conditional
type. It is no array, whatever its last part is.

The rule for arrays cuts final square brackets off and then asks whether
what is left is one type. `LeavesOneType` says of the whole text what this
accepts. A function is never accepted. Two other kinds of composite types
are: two members of which the second is nothing but the brackets, because
the first is then left alone in front of its separator, and a conditional
type whose last branch ends in brackets, because nothing looks for
conditional types.

* `TypeText.isSingle_iff`: the question about the rest as one about the
  whole.
* `IsComposite.refersToNothing`: a composite text is no generic form.
* `TypeText.element?_composite`: which composite texts are read and mapped
  as arrays.
-/

set_option autoImplicit false

namespace Externals

open Text

/-! ### Final brackets -/

/-- Without its final square brackets the text counts as one type: it
has no arrow outside of brackets, and at most one member, or two of
which the second is the brackets alone. -/
structure LeavesOneType (cs : List Char) : Prop where
  brackets : ['[', ']'] <:+ cs
  noArrow : hasTopLevelArrow cs = false
  members : ∀ sep ∈ ['|', '&'],
    (splitTopLevel sep cs).length ≤ 1 ∨ ∃ m, splitTopLevel sep cs = [m, ['[', ']']]

namespace TypeText

/-- What stands before final square brackets, as an equation on texts. -/
theorem beforeBrackets?_eq_some_iff {cs element : List Char} :
    beforeBrackets? cs = some element ↔ cs = element ++ ['[', ']'] := by
  rw [beforeBrackets?]
  split
  · rename_i hsuffix
    obtain ⟨front, rfl⟩ := List.isSuffixOf_iff_suffix.mp hsuffix
    simp
  · rename_i hsuffix
    constructor
    · intro h
      cases h
    · rintro rfl
      exact absurd (List.isSuffixOf_iff_suffix.mpr (List.suffix_append _ _)) hsuffix

/-- One type is left in front of the brackets, said of the text with the
brackets. A last member that is empty is not counted, so the brackets
alone may be a second member of the whole. -/
theorem isSingle_iff (cs : List Char) :
    isSingle cs = true ↔ LeavesOneType (cs ++ ['[', ']']) := by
  -- A text is one type if it splits at no arrow, no bar and no ampersand.
  have hsplit : isSingle cs = true
      ↔ hasTopLevelArrow cs = false
        ∧ (splitTopLevel '|' cs).length ≤ 1 ∧ (splitTopLevel '&' cs).length ≤ 1 := by
    simp only [isSingle, Bool.and_eq_true, Bool.not_eq_true', decide_eq_true_eq, and_assoc]
  rw [hsplit, length_splitTopLevel_le_one_iff '|', length_splitTopLevel_le_one_iff '&',
    ← hasTopLevelArrow_append_brackets]
  constructor
  · rintro ⟨harrow, hbar, hand⟩
    exact ⟨List.suffix_append _ _, harrow,
      List.forall_mem_cons.mpr ⟨hbar, List.forall_mem_singleton.mpr hand⟩⟩
  · intro h
    exact ⟨h.noArrow, h.members '|' (by simp), h.members '&' (by simp)⟩

/-- A text without arguments of its own is an array iff brackets at its
end leave one type. -/
theorem element?_eq_none_iff {t : TypeText} (h : t.generic? = none) :
    t.element? = none ↔ ¬ LeavesOneType t.chars := by
  rw [element?]
  split
  · rename_i element hbefore
    rw [beforeBrackets?_eq_some_iff.mp hbefore, ← isSingle_iff]
    split <;> simp_all
  · rename_i hbefore
    rw [h]
    -- Without brackets at the end the text is no array, so the right side has to fail for that
    -- reason.
    constructor
    · intro _ hone
      obtain ⟨front, hfront⟩ := hone.brackets
      rw [beforeBrackets?_eq_some_iff.mpr hfront.symm] at hbefore
      cases hbefore
    · intro _
      rfl

end TypeText

/-! ### Composite texts -/

/-- A conditional type `checked extends bound ? yes : no`. Its three
marks stand outside of all brackets, and `extends` is a word of its
own. -/
structure Conditional (cs checked bound yes no : List Char) : Prop where
  eq : cs = checked ++ "extends".toList ++ bound ++ '?' :: yes ++ ':' :: no
  inked : ∀ part ∈ [checked, bound, yes, no], trim part ≠ []
  wordStart : ∃ c, checked.getLast? = some c ∧ isNamePart c = false
  wordEnd : ∃ c, bound.head? = some c ∧ isNamePart c = false
  extendsDepth : endDepth ' ' 0 checked = 0
  questionDepth : endDepth ' ' 0 (checked ++ "extends".toList ++ bound) = 0
  colonDepth : endDepth ' ' 0 (checked ++ "extends".toList ++ bound ++ '?' :: yes) = 0

/-- A union or an intersection of at least two members that are not
empty, a function, or a conditional type. -/
def IsComposite (cs : List Char) : Prop :=
  (∃ sep ∈ ['|', '&'], 2 ≤ ((splitTopLevel sep cs).filter fun m => !m.isEmpty).length)
    ∨ hasTopLevelArrow cs = true
    ∨ ∃ checked bound yes no, Conditional cs checked bound yes no

/-- A conditional type is no generic form: in front of `extends` stands
more than a name. -/
theorem Conditional.not_genericForm {cs checked bound yes no : List Char}
    (h : Conditional cs checked bound yes no) (name : String) (args : List Char) :
    ¬ GenericForm cs name args := by
  intro hform
  have hcs : cs = checked ++ 'e' :: ("xtends".toList ++ bound ++ '?' :: yes ++ ':' :: no) := by
    rw [h.eq]
    simp
  obtain ⟨more, hname⟩ := hform.of_topLevel hcs h.extendsDepth (by decide)
  obtain ⟨c, hlast, hc⟩ := h.wordStart
  obtain ⟨front, rfl⟩ := List.getLast?_eq_some_iff.mp hlast
  -- The character before the word is no part of a name, so it is a blank of the head.
  have hblank : isBlank c = true := by
    rcases blank_or_namePart_of_trim hname (by simp : c ∈ front ++ [c] ++ 'e' :: more) with hb | hp
    · exact hb
    · rw [hp] at hc
      cases hc
  have hinked := h.inked _ List.mem_cons_self
  rw [trim_concat_blank hblank, Ne, trim_eq_nil_iff] at hinked
  obtain ⟨d, hd, hd'⟩ : ∃ d ∈ front, isBlank d = false := by simpa using hinked
  have hmem : c ∈ trim (front ++ c :: 'e' :: more) :=
    mem_trim_of_between hd hd' List.mem_cons_self (by decide)
  rw [show front ++ [c] ++ 'e' :: more = front ++ c :: 'e' :: more by simp] at hname
  rw [isNamePart_of_isName hname hmem] at hc
  cases hc

/-- So it refers to no name. Its question mark is in no name either. -/
theorem Conditional.refersToNothing {cs checked bound yes no : List Char}
    (h : Conditional cs checked bound yes no) : RefersToNothing cs where
  notGeneric := h.not_genericForm
  mark := ⟨'?', by rw [h.eq]; simp, by decide, by decide +kernel⟩

/-- No composite text refers to a name or is a promise. -/
theorem IsComposite.refersToNothing {cs : List Char} (h : IsComposite cs) :
    RefersToNothing cs := by
  rcases h with ⟨sep, hsep, hmembers⟩ | harrow | ⟨checked, bound, yes, no, hcond⟩
  · have htwo := Nat.le_trans hmembers (List.length_filter_le _ _)
    simp only [List.mem_cons, List.not_mem_nil, or_false] at hsep
    rcases hsep with rfl | rfl
    · exact IsJoined.refersToNothing (.inl htwo)
    · exact IsJoined.refersToNothing (.inr (.inl htwo))
  · exact IsJoined.refersToNothing (.inr (.inr harrow))
  · exact hcond.refersToNothing

/-! ### What composite texts are mapped to -/

/-- The base is an array: one of the three of primitive elements, or
`JsArray<…>`. -/
def isArrayBase (base : String) : Bool :=
  ["JsStringArray", "JsNumberArray", "JsBooleanArray"].contains base
    || "JsArray<".toList.isPrefixOf base.toList

/-- The three names of arrays of primitives are such bases. -/
theorem isArrayBase_primitiveArray? {element name : String}
    (h : primitiveArray? element = some name) : isArrayBase name = true := by
  rw [primitiveArray?] at h
  split at h
  · cases h
    decide
  · split at h
    · cases h
      decide
    · split at h
      · cases h
        decide
      · cases h

/-- So is an array of anything else. -/
theorem isArrayBase_jsArray (inner : String) :
    isArrayBase ("JsArray<" ++ inner ++ ">") = true := by
  have hfront : "JsArray<".toList <+: ("JsArray<" ++ inner ++ ">").toList := by
    rw [String.toList_append, String.toList_append, List.append_assoc]
    exact List.prefix_append _ _
  rw [isArrayBase, List.isPrefixOf_iff_prefix.mpr hfront, Bool.or_true]

/-- A type that needs no declaration is none. -/
theorem not_isArrayBase_builtIn (type : BuiltIn) : isArrayBase type.text = false := by
  cases type <;> decide

namespace Viewpoint

variable (v : Viewpoint) (p : Position)

/-- What is read as an array without a name is mapped to one. -/
theorem isArrayBase_mapReading_array (text : String) (element : Reading) :
    isArrayBase (v.mapReading p (.array text none element)).value.base = true := by
  rw [mapReading, symbolOr]
  cases harray : primitiveArray? element.text with
  | some name => exact isArrayBase_primitiveArray? harray
  | none => exact isArrayBase_jsArray _

/-- What refers to no name, has no parts and is not `this` is mapped to
a type that needs no declaration. -/
theorem exists_builtIn_mapReading (text : String)
    (isString isBoolean isNumber isVoid isDynamic : Bool) :
    ∃ b : BuiltIn, (v.mapReading p (.ofAnswers text none none isString isBoolean isNumber none
      isVoid none isDynamic false)).value.base = b.text := by
  have hatom : ∀ a : Atom, a ∈ [Atom.string, .boolean, .number, .void, .dynamic, .unknown] →
      ∃ b : BuiltIn, (v.mapReading p (.atom text none a)).value.base = b.text := by
    intro a ha
    simp only [List.mem_cons, List.not_mem_nil, or_false] at ha
    rcases ha with rfl | rfl | rfl | rfl | rfl | rfl
    · exact ⟨.string, rfl⟩
    · exact ⟨.boolean, rfl⟩
    · -- Which of the two numbers it is depends on the name at the position.
      cases hid : (p.name.map v.index.conventions.idRule.holds).getD false with
      | true => exact ⟨.int, by simp [mapReading, symbolOr, mapAtom, hid, Position.annotate,
          BuiltIn.text]⟩
      | false => exact ⟨.double, by simp [mapReading, symbolOr, mapAtom, hid, Position.annotate,
          BuiltIn.text]⟩
    · exact ⟨.unit, rfl⟩
    · exact ⟨.any, rfl⟩
    · exact ⟨.any, rfl⟩
  simp only [Reading.ofAnswers, Bool.false_eq_true, if_false]
  repeat' split
  all_goals exact hatom _ (by decide)

end Viewpoint

namespace TypeText

/-- Taking parentheses off leaves no blanks at the ends: what is inside
is trimmed in turn. -/
theorem trim_unwrapParens {cs : List Char} (h : trim cs = cs) :
    trim (unwrapParens cs) = unwrapParens cs := by
  fun_induction unwrapParens cs with
  | case1 cs inner _ ih => exact ih (trim_trim inner)
  | case2 cs _ => exact h

/-- The text of a type has no blanks at its ends. -/
theorem trim_chars_of (cs : List Char) : trim (of cs).chars = (of cs).chars :=
  trim_unwrapParens (trim_trim cs)

/-- A composite text is read as an array iff its final brackets leave one
type, and then it is mapped to one, unless it is mapped as `T | undefined`.
So a function never is, a union or an intersection is iff it has two members
of which the second is `[]`, with no other separator or arrow, and a
conditional type is when its last branch ends in brackets. -/
theorem element?_composite (v : Viewpoint) (p : Position) (text : String)
    (h : IsComposite (ofString text).chars) :
    ((ofString text).element? = none ↔ ¬ LeavesOneType (ofString text).chars)
      ∧ ((ofString text).nullableInner? = none →
          (isArrayBase (v.map p (.unresolved text)).value.base = true
            ↔ LeavesOneType (ofString text).chars)) := by
  have hnothing := h.refersToNothing
  have hnone := element?_eq_none_iff hnothing.generic?
  refine ⟨hnone, fun hinner => ?_⟩
  have hread : Reading.of (.unresolved text)
      = .ofAnswers (trimString (ofString text).text) none none (ofString text).isString
          (ofString text).isBoolean (ofString text).isNumber
          ((ofString text).element?.map Reading.ofText) (ofString text).isVoid none
          (ofString text).isDynamic false := by
    have hself : (ofString text).isSelf = false := hnothing.text_ne (by decide +kernel)
    rw [Reading.of, Reading.ofText_eq, hinner]
    simp only [hnothing.symbol?, hnothing.qualified?, hnothing.promise?, hself, Option.map_none]
  rw [Viewpoint.map, hread]
  by_cases hone : LeavesOneType (ofString text).chars
  · -- A text that ends in a bracket is no literal, so the rule for arrays is reached.
    obtain ⟨element, helement⟩ : ∃ e, (ofString text).element? = some e := by
      cases he : (ofString text).element? with
      | none => exact absurd hone (hnone.mp he)
      | some e => exact ⟨e, rfl⟩
    obtain ⟨front, hfront⟩ := hone.brackets
    have hlast : (ofString text).chars.getLast? = some ']' := by
      rw [← hfront]
      simp
    have hends := endsInBracket hlast (by decide)
    rw [hends.isString, hends.isBoolean, hends.isNumber, helement]
    simp only [hone, iff_true]
    exact v.isArrayBase_mapReading_array p _ _
  · rw [hnone.mpr hone]
    obtain ⟨b, hb⟩ := v.exists_builtIn_mapReading p (trimString (ofString text).text)
      (ofString text).isString (ofString text).isBoolean (ofString text).isNumber
      (ofString text).isVoid (ofString text).isDynamic
    simp only [Option.map_none, hone, hb, not_isArrayBase_builtIn, Bool.false_eq_true]

/-- A conditional type whose last branch is an array. It is read as an array
of conditional types. -/
theorem element?_composite_conditional :
    let v := Viewpoint.within (Project.initial {}).index 0
    let text := "T extends string ? Buffer : string[]"
    IsComposite (ofString text).chars
      ∧ LeavesOneType (ofString text).chars
      ∧ (ofString text).element? ≠ none
      ∧ isArrayBase (v.map {} (.unresolved text)).value.base = true := by
  intro v text
  -- The text has no parentheses around it, so it is kept character by character.
  have hchars : (ofString text).chars = text.toList := by
    have htight : Tight text.toList := ⟨⟨'T', by decide, by decide⟩, ⟨']', by decide, by decide⟩⟩
    rw [ofString, of_of_enclosed?_none htight (by decide)]
  have hcomposite : IsComposite (ofString text).chars := by
    rw [hchars]
    refine .inr (.inr ⟨"T ".toList, " string ".toList, " Buffer ".toList, " string[]".toList, ?_⟩)
    exact {
      eq := by decide
      inked := by decide
      wordStart := ⟨' ', by decide, by decide +kernel⟩
      wordEnd := ⟨' ', by decide, by decide +kernel⟩
      extendsDepth := by decide
      questionDepth := by decide
      colonDepth := by decide }
  -- What stands before the brackets is a whole conditional, not only its last branch.
  have hone : LeavesOneType (ofString text).chars := by
    rw [hchars]
    exact ⟨⟨"T extends string ? Buffer : string".toList, by decide⟩, by decide,
      List.forall_mem_cons.mpr ⟨.inl (by decide), List.forall_mem_singleton.mpr (.inl (by decide))⟩⟩
  have hinner : (ofString text).nullableInner? = none := by
    rw [show ofString text = ⟨text.toList⟩ by rw [← hchars]]
    decide
  have hboth := element?_composite v {} text hcomposite
  exact ⟨hcomposite, hone, fun hnone => hboth.1.mp hnone hone, (hboth.2 hinner).mpr hone⟩

/-- A union of a type and the empty tuple is read as an array of what is
left in front of the tuple, with its bar. -/
theorem element?_emptyTuple :
    let t := ofString "string | []"
    IsComposite t.chars ∧ t.element? = some (of "string | ".toList) := by
  intro t
  have ht : t = ⟨"string | []".toList⟩ := by
    have htight : Tight "string | []".toList :=
      ⟨⟨'s', by decide, by decide⟩, ⟨']', by decide, by decide⟩⟩
    exact of_of_enclosed?_none htight (by decide)
  rw [ht]
  refine ⟨.inl ⟨'|', by decide, by decide⟩, ?_⟩
  have hbefore : beforeBrackets? "string | []".toList = some "string | ".toList := by decide
  have hsingle : isSingle "string | ".toList = true := by decide
  rw [element?, hbefore]
  exact if_pos hsingle

end TypeText

end Externals
