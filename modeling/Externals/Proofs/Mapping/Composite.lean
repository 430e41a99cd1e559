import Externals.Proofs.Mapping.BaseType
import Externals.Proofs.Mapping.TopLevel

/-!
# `Externals.Proofs.Mapping.Composite`: what refers to a name

The text of a union can begin like a name with arguments and end like one,
as in `Foo<A> | Bar<B>`. The rules for names and promises are not misled by
it: they ask for a generic form, whose last character is the first to close
what its first `<` opens, and outside of the brackets of a generic form
stands nothing but its head.

* `TypeText.symbol?_eq_some_iff`, `TypeText.promise?_eq_some_iff`: a name or
  a promise is the bare name or a generic form.
* `RefersToNothing`: what is enough for a text to be neither.
* `TypeText.refers_iff`: both, with the texts that join several types.
-/

set_option autoImplicit false

namespace Externals

open Text

/-! ### Texts around a name -/

namespace Text

/-- What is trimmed off at the end is a run of blanks. -/
theorem exists_blanks_right (cs : List Char) :
    ∃ bs, cs = trimRight cs ++ bs ∧ ∀ c ∈ bs, isBlank c = true := by
  obtain ⟨bs, hcs, hblank⟩ := exists_blanks cs.reverse
  refine ⟨bs.reverse, ?_, fun c hc => hblank c (List.mem_reverse.mp hc)⟩
  have hrev := congrArg List.reverse hcs
  rwa [List.reverse_reverse, List.reverse_append] at hrev

/-- What is trimmed off is blank. -/
theorem mem_trim_or_isBlank {cs : List Char} {c : Char} (h : c ∈ cs) :
    c ∈ trim cs ∨ isBlank c = true := by
  obtain ⟨as, hleft, has⟩ := exists_blanks cs
  obtain ⟨bs, hright, hbs⟩ := exists_blanks_right (trimLeft cs)
  rw [hleft, List.mem_append] at h
  rcases h with hmem | hmem
  · exact .inr (has c hmem)
  · rw [hright, List.mem_append] at hmem
    exact hmem.imp id (hbs c)

/-- What stands between two characters that are not blank is not trimmed
off. -/
theorem mem_trim_of_between {as bs : List Char} {c d e : Char} (hd : d ∈ as)
    (hd' : isBlank d = false) (he : e ∈ bs) (he' : isBlank e = false) :
    c ∈ trim (as ++ c :: bs) := by
  -- A character with ink on both sides is out of reach of the trimming from either end.
  have hleft : trimLeft (as ++ c :: bs) = trimLeft as ++ c :: bs := by
    rw [trimLeft, List.dropWhile_append, if_neg]
    · rfl
    · rw [List.isEmpty_iff, List.dropWhile_eq_nil_iff]
      intro hblank
      rw [hblank d hd] at hd'
      cases hd'
  have hrest : ¬(bs.reverse.dropWhile isBlank).isEmpty = true := by
    rw [List.isEmpty_iff, List.dropWhile_eq_nil_iff]
    intro hblank
    rw [hblank e (List.mem_reverse.mpr he)] at he'
    cases he'
  rw [trim, hleft, trimRight, List.reverse_append, List.reverse_cons, List.append_assoc,
    List.dropWhile_append, if_neg hrest]
  simp

end Text

/-- A text that is a name when trimmed has only blanks and name
characters. -/
theorem blank_or_namePart_of_trim {cs : List Char} (h : isName (trim cs) = true) {c : Char}
    (hc : c ∈ cs) : isBlank c = true ∨ isNamePart c = true :=
  (mem_trim_or_isBlank hc).symm.imp id (isNamePart_of_isName h)

/-- Neither means anything to a scanner. -/
theorem isInert_of_blank_or_namePart {c : Char} (h : isBlank c = true ∨ isNamePart c = true) :
    isInert operandStop c = true := by
  rcases h with hblank | hpart
  · refine isInert_of_isBlank hblank ?_
    rw [Bool.eq_false_iff]
    intro hstop
    simp only [operandStop, Bool.or_eq_true, beq_iff_eq] at hstop
    rcases hstop with (rfl | rfl) | rfl <;> exact absurd hblank (by decide)
  · exact isInert_of_isNamePart hpart

/-! ### Generic forms -/

/-- A plain name, perhaps among blanks, with arguments up to the last
character, which is the first to close what the first `<` opens. -/
def GenericForm (cs : List Char) (name : String) (args : List Char) : Prop :=
  ∃ front close, AngleForm cs front args close ∧ isClosing close = true
    ∧ isName (trim front) = true ∧ name = String.ofList (trim front)

/-- Outside of all brackets a generic form has only its head and the
`<`. So what stands there, and is not the `<`, belongs to the head. -/
theorem GenericForm.of_topLevel {cs args : List Char} {name : String}
    (h : GenericForm cs name args) {front rest : List Char} {c : Char}
    (hcs : cs = front ++ c :: rest) (hdepth : endDepth ' ' 0 front = 0) (hc : c ≠ '<') :
    ∃ more, isName (trim (front ++ c :: more)) = true := by
  obtain ⟨head, close, hform, -, hname, -⟩ := h
  have hhead : endDepth ' ' 0 head = 0 :=
    endDepth_of_inert (fun d hd => isInert_of_blank_or_namePart
      (blank_or_namePart_of_trim hname hd)) ' ' 0
  -- The first angle bracket comes after any top-level character, so the character found lies
  -- in the head.
  have hpre := hform.front_of_topLevel hhead hcs hdepth
  rw [List.prefix_concat_iff] at hpre
  rcases hpre with heq | ⟨more, hmore⟩
  · have hlast := congrArg List.getLast? heq
    rw [List.getLast?_concat, List.getLast?_concat] at hlast
    exact absurd (Option.some.inj hlast) hc
  · refine ⟨more, ?_⟩
    rw [show front ++ c :: more = head by rw [← hmore]; simp]
    exact hname

namespace TypeText

/-- The scanner for names with arguments finds the generic forms and no
others. -/
theorem generic?_eq_some_iff {t : TypeText} {head args : List Char} :
    t.generic? = some (head, args)
      ↔ isName head = true ∧ GenericForm t.chars (String.ofList head) args := by
  rw [generic?, Option.filter_eq_some_iff, splitGeneric_eq_some_iff]
  constructor
  · rintro ⟨⟨front, close, hform, rfl⟩, hname⟩
    exact ⟨hname, front, close, hform, hform.isClosing_close, hname, rfl⟩
  · rintro ⟨hname, front, close, hform, -, -, heq⟩
    exact ⟨⟨front, close, hform, String.ofList_injective heq⟩, hname⟩

/-- It finds nothing where there is no generic form. -/
theorem generic?_eq_none {t : TypeText} (h : ∀ name args, ¬ GenericForm t.chars name args) :
    t.generic? = none := by
  rw [Option.eq_none_iff_forall_ne_some]
  rintro ⟨head, args⟩ hsome
  exact h _ args (generic?_eq_some_iff.mp hsome).2

end TypeText

/-- A text with a separator or an equals sign outside of all brackets is
no generic form. -/
theorem not_genericForm_of_topLevel {cs mark : List Char} {c : Char}
    (hc : c ∈ ['|', '&', '=']) (h : TopLevel (c :: mark) cs) (name : String) (args : List Char) :
    ¬ GenericForm cs name args := by
  intro hform
  obtain ⟨front, rest, hcs, hdepth⟩ := h
  have hcs' : cs = front ++ c :: (mark ++ rest) := by rw [hcs]; simp
  have hne : c ≠ '<' := by
    rintro rfl
    exact absurd hc (by decide)
  -- The mark would lie in the head of the form, which is a name, and none of the marks is a
  -- part of a name.
  obtain ⟨more, hname⟩ := hform.of_topLevel hcs' hdepth hne
  have hmark : (['|', '&', '='].all fun d => !isBlank d && !isNamePart d) = true := by
    decide +kernel
  have hplain := List.all_eq_true.mp hmark c hc
  have hmem : c ∈ front ++ c :: more := by simp
  rcases blank_or_namePart_of_trim hname hmem with hblank | hpart
  · simp [hblank] at hplain
  · simp [hpart] at hplain

/-! ### Dotted names -/

/-- A dotted name is two names with a dot between them. -/
theorem dottedName?_eq_some_iff {cs space name : List Char} :
    dottedName? cs = some (space, name)
      ↔ isName space = true ∧ isName name = true ∧ cs = space ++ '.' :: name := by
  constructor
  · intro h
    rw [dottedName?] at h
    split at h
    · cases h
    · rename_i d rest hdrop
      -- `dropWhile` stops at the first dot, so the text is cut there and nowhere else.
      have hd : d = '.' := by
        have := List.head?_dropWhile_not (· != '.') cs
        rw [hdrop] at this
        simpa using this
      subst hd
      dsimp only at h
      split at h
      · rename_i hnames
        cases h
        rw [Bool.and_eq_true] at hnames
        refine ⟨hnames.1, hnames.2, ?_⟩
        rw [← hdrop, List.takeWhile_append_dropWhile]
      · cases h
  · rintro ⟨hspace, hname, rfl⟩
    exact dottedName?_dotted ⟨space, hspace⟩ ⟨name, hname⟩

/-- One character other than a dot that cannot be in a name is enough
for a text to be none. -/
theorem dottedName?_eq_none_of_mem {cs : List Char} {c : Char} (hmem : c ∈ cs) (hdot : c ≠ '.')
    (hc : isNamePart c = false) : dottedName? cs = none := by
  rw [Option.eq_none_iff_forall_ne_some]
  rintro ⟨space, name⟩ hsome
  obtain ⟨hspace, hname, rfl⟩ := dottedName?_eq_some_iff.mp hsome
  -- A dotted name holds nothing but parts of names and its one dot.
  rcases List.mem_append.mp hmem with hleft | hright
  · rw [isNamePart_of_isName hspace hleft] at hc
    cases hc
  · rcases List.mem_cons.mp hright with rfl | hin
    · exact hdot rfl
    · rw [isNamePart_of_isName hname hin] at hc
      cases hc

/-! ### Names and promises -/

/-- A union or an intersection of two members or more, or a function. -/
def IsJoined (cs : List Char) : Prop :=
  2 ≤ (splitTopLevel '|' cs).length ∨ 2 ≤ (splitTopLevel '&' cs).length
    ∨ hasTopLevelArrow cs = true

/-- What joins types stands outside of all brackets. -/
theorem IsJoined.topLevel {cs : List Char} (h : IsJoined cs) :
    ∃ c ∈ ['|', '&', '='], ∃ mark, TopLevel (c :: mark) cs := by
  rcases h with hbar | hand | harrow
  · exact ⟨'|', by simp, [], topLevel_of_two_members (by decide) (by decide) hbar⟩
  · exact ⟨'&', by simp, [], topLevel_of_two_members (by decide) (by decide) hand⟩
  · exact ⟨'=', by simp, ['>'], (hasTopLevelArrow_iff cs).mp harrow⟩

/-- The text is no generic form and holds a character that no name and
no dotted name has. -/
structure RefersToNothing (cs : List Char) : Prop where
  notGeneric : ∀ name args, ¬ GenericForm cs name args
  mark : ∃ c ∈ cs, c ≠ '.' ∧ isNamePart c = false

/-- A text that joins types refers to nothing, by the mark that joins
them. -/
theorem IsJoined.refersToNothing {cs : List Char} (h : IsJoined cs) : RefersToNothing cs := by
  obtain ⟨c, hc, mark, htop⟩ := h.topLevel
  have hmarks : (['|', '&', '='].all fun d => d != '.' && !isNamePart d) = true := by
    decide +kernel
  have hplain := List.all_eq_true.mp hmarks c hc
  simp only [Bool.and_eq_true, bne_iff_ne, Bool.not_eq_true'] at hplain
  obtain ⟨front, rest, rfl, -⟩ := id htop
  exact ⟨not_genericForm_of_topLevel hc htop, c, by simp, hplain⟩

namespace RefersToNothing

variable {t : TypeText}

/-- It has no type arguments. -/
theorem generic? (h : RefersToNothing t.chars) : t.generic? = none :=
  TypeText.generic?_eq_none h.notGeneric

/-- It is no name. -/
theorem isName_eq_false (h : RefersToNothing t.chars) : isName t.chars = false := by
  obtain ⟨c, hmem, -, hc⟩ := h.mark
  exact isName_eq_false_of_mem hmem hc

/-- It refers to no plain name. -/
theorem symbol? (h : RefersToNothing t.chars) : t.symbol? = none := by
  simp [TypeText.symbol?, h.isName_eq_false, h.generic?]

/-- It refers to no dotted name. -/
theorem qualified? (h : RefersToNothing t.chars) : t.qualified? = none := by
  obtain ⟨c, hmem, hdot, hc⟩ := h.mark
  rw [TypeText.qualified?, dottedName?_eq_none_of_mem hmem hdot hc]
  rfl

/-- A text that is no name is spelled differently from every name. -/
theorem text_ne (h : RefersToNothing t.chars) {name : String} (hname : isName name.toList = true) :
    (t.text == name) = false := by
  rw [beq_eq_false_iff_ne]
  rintro rfl
  rw [TypeText.text, String.toList_ofList, h.isName_eq_false] at hname
  cases hname

/-- It is no promise. -/
theorem promise? (h : RefersToNothing t.chars) : t.promise? = none := by
  rw [TypeText.promise?, h.text_ne (by decide +kernel), h.generic?]
  rfl

end RefersToNothing

namespace TypeText

/-- A text refers to a name if it is the name, or the name with
arguments. -/
theorem symbol?_eq_some_iff (t : TypeText) (name : String) :
    t.symbol? = some name
      ↔ (isName t.chars = true ∧ name = t.text) ∨ ∃ args, GenericForm t.chars name args := by
  rw [symbol?]
  split
  · rename_i hname
    constructor
    · intro h
      exact .inl ⟨hname, (Option.some.inj h).symm⟩
    · rintro (⟨-, rfl⟩ | ⟨args, front, close, hform, -⟩)
      · rfl
      · -- A name has no `<`.
        have hmem : '<' ∈ t.chars := by rw [hform.eq]; simp
        have hpart := isNamePart_of_isName hname hmem
        rw [not_isNamePart_of_mem_punctuation (by decide)] at hpart
        cases hpart
  · rename_i hname
    rw [Option.map_eq_some_iff]
    constructor
    · rintro ⟨⟨head, args⟩, hgeneric, rfl⟩
      exact .inr ⟨args, (generic?_eq_some_iff.mp hgeneric).2⟩
    · rintro (⟨hname', -⟩ | ⟨args, hform⟩)
      · exact absurd hname' hname
      · obtain ⟨front, close, -, -, htrim, rfl⟩ := id hform
        exact ⟨(trim front, args), generic?_eq_some_iff.mpr ⟨htrim, hform⟩, rfl⟩

/-- A promise is the bare name, or the name with arguments, of which the
first counts. -/
theorem promise?_eq_some_iff (t : TypeText) (argument : Option TypeText) :
    t.promise? = some argument
      ↔ (t.text = "Promise" ∧ argument = none)
        ∨ ∃ args, GenericForm t.chars "Promise" args
            ∧ argument = (splitTopLevel ',' args).head?.map of := by
  rw [promise?]
  split
  · rename_i hbare
    rw [beq_iff_eq] at hbare
    constructor
    · intro h
      exact .inl ⟨hbare, (Option.some.inj h).symm⟩
    · rintro (⟨-, rfl⟩ | ⟨args, ⟨front, close, hform, -⟩, -⟩)
      · rfl
      · -- The bare name has no `<`.
        have hmem : '<' ∈ t.text.toList := by
          rw [text, String.toList_ofList, hform.eq]
          simp
        rw [hbare] at hmem
        exact absurd hmem (by decide)
  · rename_i hbare
    rw [beq_iff_eq] at hbare
    constructor
    · intro h
      split at h
      · rename_i head args hgeneric
        split at h
        · rename_i hhead
          obtain ⟨-, hform⟩ := generic?_eq_some_iff.mp hgeneric
          rw [beq_iff_eq] at hhead
          rw [hhead, String.ofList_toList] at hform
          exact .inr ⟨args, hform, (Option.some.inj h).symm⟩
        · cases h
      · cases h
    · rintro (⟨hbare', -⟩ | ⟨args, hform, rfl⟩)
      · exact absurd hbare' hbare
      · have hgeneric : t.generic? = some ("Promise".toList, args) :=
          generic?_eq_some_iff.mpr ⟨by decide +kernel, by rwa [String.ofList_toList]⟩
        simp [hgeneric]

/-- A union or an intersection of two members or more and a function refer
to nothing. What refers to a name, or is a promise, without being the bare
name is a generic form: head, `<`, arguments and one closing bracket, the
first at which the depth that the `<` opens is zero again. -/
theorem refers_iff (t : TypeText) :
    (IsJoined t.chars → t.symbol? = none ∧ t.qualified? = none ∧ t.promise? = none)
      ∧ (∀ name, t.symbol? = some name
          ↔ (isName t.chars = true ∧ name = t.text) ∨ ∃ args, GenericForm t.chars name args)
      ∧ ∀ argument, t.promise? = some argument
          ↔ (t.text = "Promise" ∧ argument = none)
            ∨ ∃ args, GenericForm t.chars "Promise" args
                ∧ argument = (splitTopLevel ',' args).head?.map of := by
  refine ⟨fun h => ?_, t.symbol?_eq_some_iff, t.promise?_eq_some_iff⟩
  have hnothing := h.refersToNothing
  exact ⟨hnothing.symbol?, hnothing.qualified?, hnothing.promise?⟩

/-- A union that begins and ends like a promise. -/
theorem refers_twoPromises :
    let t : TypeText := ⟨"Promise<void> | { a: 1 } | Promise<string>".toList⟩
    IsJoined t.chars ∧ t.symbol? = none ∧ t.qualified? = none ∧ t.promise? = none := by
  intro t
  have h : IsJoined t.chars := .inl (by decide)
  exact ⟨h, (refers_iff t).1 h⟩

end TypeText

end Externals
