import Externals.Proofs.Mapping.ArrayReading

/-!
# `Externals.Proofs.Mapping.Comment`: when a type carries a comment

A mapped type carries the text of its source as a comment, unless the type
says exactly what the text says. Each rule of the mapping decides this for
itself. Put together, the decision depends on the *core* of the type alone:
what is left when every `| undefined` is stripped, together with the
parentheses and blanks that then are around the whole.

A position can ask for no comments. Then nothing else changes: the base,
the nullability, the imports and the events are the same. Parts of a type
are always mapped in this way.

* `Viewpoint.comment_mapReading`: the comment of any reading.
* `Viewpoint.mapReading_quietly`: mapping without comments.
* `Viewpoint.isExact_ofText_iff`: the texts that are said exactly.
* `Viewpoint.comment_map_text`: the law for texts.
-/

set_option autoImplicit false

namespace Externals

open Text

/-! ### Cores -/

namespace TypeText

/-- The type that is left when every `| undefined` is stripped. -/
def core (t : TypeText) : TypeText :=
  match _h : t.nullableInner? with
  | some inner => core inner
  | none => t
termination_by ink t.chars
decreasing_by exact ink_nullableInner? _h

/-- The core is no union with `undefined` itself. -/
theorem nullableInner?_core (t : TypeText) : t.core.nullableInner? = none := by
  fun_induction core t with
  | case1 t inner _ ih => exact ih
  | case2 t hinner => exact hinner

/-- What is left of a union is trimmed. -/
theorem trim_of_nullableInner? {t inner : TypeText} (h : t.nullableInner? = some inner) :
    trim inner.chars = inner.chars := by
  simp only [nullableInner?] at h
  split at h
  · cases h
  · split at h
    · cases h
      exact trim_chars_of _
    · cases h

/-- So the core of a trimmed text is trimmed. -/
theorem trim_chars_core {t : TypeText} (h : trim t.chars = t.chars) :
    trim t.core.chars = t.core.chars := by
  fun_induction core t with
  | case1 t inner hinner ih => exact ih (trim_of_nullableInner? hinner)
  | case2 t _ => exact h

/-- The text of a trimmed type has no blanks at its ends. -/
theorem trimString_text {t : TypeText} (h : trim t.chars = t.chars) :
    trimString t.text = t.text := by
  rw [trimString, text, String.toList_ofList, h]

end TypeText

namespace Reading

/-- A reading without `| undefined` around it. -/
def core : Reading → Reading
  | nullable _ inner => inner.core
  | r => r

section

variable (text : String) (symbol : Option String) (qualified : Option (String × String))
  (isString isBoolean isNumber : Bool) (element : Option Reading) (isVoid : Bool)
  (promise : Option (Option Reading)) (isDynamic isSelf : Bool)

/-- A reading that was put together from answers is its own core. -/
theorem core_ofAnswers :
    (ofAnswers text symbol qualified isString isBoolean isNumber element isVoid promise isDynamic
      isSelf).core
      = ofAnswers text symbol qualified isString isBoolean isNumber element isVoid promise
          isDynamic isSelf := by
  unfold ofAnswers
  repeat' split
  all_goals rfl

/-- It carries the text that it was given. -/
theorem text_ofAnswers :
    (ofAnswers text symbol qualified isString isBoolean isNumber element isVoid promise isDynamic
      isSelf).text = text := by
  unfold ofAnswers
  repeat' split
  all_goals rfl

end

/-- The core of what a text is read as is what its core is read as. -/
theorem core_ofText (t : TypeText) : (ofText t).core = ofText t.core := by
  fun_induction TypeText.core t with
  | case1 t inner hinner ih =>
      rw [ofText_eq, hinner]
      exact ih
  | case2 t hinner =>
      rw [ofText_eq, hinner]
      exact core_ofAnswers _ _ _ _ _ _ _ _ _ _ _

/-- The reading of a trimmed text that is no union carries this text. -/
theorem text_ofText {t : TypeText} (hinner : t.nullableInner? = none)
    (ht : trim t.chars = t.chars) : (ofText t).text = t.text := by
  rw [ofText_eq, hinner]
  dsimp only
  rw [text_ofAnswers, TypeText.trimString_text ht]

end Reading

/-! ### What a type says -/

/-- The rule of an atom gives a type that says exactly the text. A
literal is mapped to the type of its values, so it is not said exactly. -/
def Atom.isExact (text : String) : Atom → Bool
  | .qualified space name => text == space ++ "." ++ name
  | .string => text == "string"
  | .boolean => text == "boolean"
  | .number => text == "number"
  | .void => true
  | .barePromise => false
  | .dynamic => true
  | .self => false
  | .unknown => false

/-- The comment for a source text at a position: none if the type says
it all, or if the position asks for none. -/
def Position.note (p : Position) (text : String) (exact : Bool) : Option String :=
  if exact || p.quiet then none else some (commentText text)

namespace Viewpoint

variable (v : Viewpoint) (p : Position)

/-- A located name says exactly the text that it is; otherwise the rule
of the reading decides. -/
def isExactSymbol (text : String) (symbol : Option String) (rule : Bool) : Bool :=
  match symbol with
  | some name => if (v.locate name).isSome then text == name else rule
  | none => rule

/-- A reading is mapped to a type that says exactly its text. -/
def isExact : Reading → Bool
  | .nullable _ inner => isExact inner
  | .array text symbol _ => v.isExactSymbol text symbol false
  | .promise text symbol _ => v.isExactSymbol text symbol false
  | .atom text symbol atom => v.isExactSymbol text symbol (atom.isExact text)

/-- This is decided by the core. -/
theorem isExact_core (r : Reading) : v.isExact r.core = v.isExact r := by
  induction r with
  | nullable text inner ih => exact ih
  | _ => rfl

/-- The comment of an atom. -/
theorem comment_mapAtom (text : String) (atom : Atom) :
    (v.mapAtom p text atom).value.comment = p.note text (atom.isExact text) := by
  cases atom with
  | self =>
      -- With a name for `this` or without one, the type is not the text.
      rw [mapAtom]
      split <;> rfl
  | _ => rfl

/-- A name in front of a rule decides in its place if it is located. -/
theorem comment_symbolOr (text : String) (symbol : Option String) {rule : Draft KotlinType}
    {exact : Bool} (hrule : rule.value.comment = p.note text exact) :
    (v.symbolOr p text symbol rule).value.comment
      = p.note text (v.isExactSymbol text symbol exact) := by
  cases symbol with
  | none => exact hrule
  | some name =>
      cases hl : v.locate name with
      | none => simpa [isExactSymbol, symbolOr_of_locate_eq_none hl, hl] using hrule
      | some l => simp [symbolOr, isExactSymbol, resolve, hl, Position.annotate, Position.note]

/-- A mapped type has its comment from the core of its reading. -/
theorem comment_mapReading (r : Reading) :
    (v.mapReading p r).value.comment = p.note r.core.text (v.isExact r) := by
  -- A nullable passes on the comment of what it wraps; every other reading answers from its
  -- own rule unless its symbol is located.
  induction r with
  | nullable text inner ih =>
      rw [mapReading_nullable]
      exact ih
  | array text symbol element =>
      rw [mapReading]
      apply comment_symbolOr
      split <;> rfl
  | promise text symbol argument =>
      rw [mapReading]
      apply comment_symbolOr
      rfl
  | atom text symbol atom =>
      rw [mapReading]
      exact v.comment_symbolOr p text symbol (v.comment_mapAtom p text atom)

end Viewpoint

/-! ### Mapping without comments -/

/-- A drafted type without its comment. -/
def Draft.silent (d : Draft KotlinType) : Draft KotlinType :=
  { d with value := { d.value with comment := none } }

namespace Viewpoint

variable (v : Viewpoint) (p : Position)

/-- An atom is mapped without its comment, and otherwise alike. -/
theorem mapAtom_quietly (text : String) (atom : Atom) :
    v.mapAtom p.quietly text atom = (v.mapAtom p text atom).silent := by
  have hnote : ∀ exact base, p.quietly.annotate text exact base
      = { p.annotate text exact base with comment := none } := fun exact base => by
    simp [Position.annotate, Position.quietly]
  cases atom with
  | self =>
      -- What `this` stands for is the same at both positions.
      have hself : p.quietly.self = p.self := rfl
      cases hname : p.self.filter fun name => !name.isEmpty with
      | none => simp only [mapAtom, hself, hname, hnote]; rfl
      | some name => simp only [mapAtom, hself, hname, hnote]; rfl
  | _ => simp only [mapAtom, hnote]; rfl

/-- So is a name in front of a rule that is. -/
theorem symbolOr_quietly (text : String) (symbol : Option String) (rule : Draft KotlinType) :
    v.symbolOr p.quietly text symbol rule.silent = (v.symbolOr p text symbol rule).silent := by
  cases symbol with
  | none => rfl
  | some name =>
      -- Being quiet leaves out the comment and the notes; what is located does not depend on it.
      cases hl : v.locate name with
      | none => rw [symbolOr_of_locate_eq_none hl, symbolOr_of_locate_eq_none hl]
      | some l =>
          simp only [symbolOr, resolve, hl]
          simp [Draft.silent, Position.annotate, Position.quietly, bind, Draft.bind, pure,
            Draft.pure]

/-- Mapping without comments changes nothing else. -/
theorem mapReading_quietly (r : Reading) :
    v.mapReading p.quietly r = (v.mapReading p r).silent := by
  induction r with
  | nullable text inner ih =>
      rw [mapReading_nullable, mapReading_nullable, ih]
      rfl
  | array text symbol element _ =>
      rw [mapReading, mapReading, ← symbolOr_quietly]
      -- The element is mapped without comments at either position.
      congr 1
      split <;> simp [Draft.silent, Position.annotate, Position.quietly, bind, Draft.bind, pure,
        Draft.pure]
  | promise text symbol argument _ =>
      rw [mapReading, mapReading, ← symbolOr_quietly]
      simp [Draft.silent, Position.annotate, Position.quietly, bind, Draft.bind, pure, Draft.pure]
  | atom text symbol atom =>
      rw [mapReading, mapReading, mapAtom_quietly, symbolOr_quietly]

/-! ### The texts that are said exactly -/

/-- A viewpoint locates the names that its origin locates. -/
theorem isSome_locate_iff (name : String) :
    (v.locate name).isSome = true ↔ (v.index.locate v.origin name).isSome = true := by
  cases hl : v.index.locate v.origin name with
  | none => simp [Viewpoint.locate, hl]
  | some l => simp [locate_of_origin hl]

/-- The words that the mapping has a type for. The literals `true` and
`false` and the type `this` are not among them. -/
def plainWords : List String :=
  ["string", "boolean", "number", "undefined", "void", "object", "any", "unknown"]

/-- The type of the text says all of it: the text is one of the words, a
name that is located, or two names with a dot between them. -/
def ExactText (u : TypeText) : Prop :=
  u.text ∈ plainWords
    ∨ (isName u.chars = true ∧ (v.index.locate v.origin u.text).isSome = true)
    ∨ ∃ space name : PlainName, u.chars = space.chars ++ '.' :: name.chars

variable {v}

/-- A text is said exactly by its name or by its rule. -/
theorem of_isExactSymbol {text : String} {symbol : Option String} {rule : Bool}
    (h : v.isExactSymbol text symbol rule = true) :
    (∃ name, symbol = some name ∧ (v.locate name).isSome = true ∧ text = name) ∨ rule = true := by
  cases symbol with
  | none => exact .inr h
  | some name =>
      simp only [isExactSymbol] at h
      split at h
      · rename_i hl
        exact .inl ⟨name, rfl, hl, beq_iff_eq.mp h⟩
      · exact .inr h

/-- Why a reading can be said exactly, from the answers it was put
together from. -/
theorem of_isExact_ofAnswers {text : String} {symbol : Option String}
    {qualified : Option (String × String)} {isString isBoolean isNumber : Bool}
    {element : Option Reading} {isVoid : Bool} {promise : Option (Option Reading)}
    {isDynamic isSelf : Bool}
    (h : v.isExact (.ofAnswers text symbol qualified isString isBoolean isNumber element isVoid
      promise isDynamic isSelf) = true) :
    (∃ name, symbol = some name ∧ (v.locate name).isSome = true ∧ text = name)
      ∨ qualified.isSome = true ∨ text = "string" ∨ text = "boolean" ∨ text = "number"
      ∨ isVoid = true ∨ isDynamic = true := by
  unfold Reading.ofAnswers at h
  repeat' split at h
  -- Every reading is said by its symbol, or else by its own rule.
  all_goals
    rcases of_isExactSymbol h with hname | hrule
    · exact .inl hname
    · simp_all [Atom.isExact]

/-- A reading with a located symbol is said exactly iff it is the bare
symbol. -/
theorem isExact_of_symbol? {r : Reading} {name : String} (hr : r.symbol? = some name)
    (hl : (v.locate name).isSome = true) : v.isExact r = (r.text == name) := by
  cases r with
  | nullable text inner => cases hr
  | array text symbol element =>
      cases hr
      simp [isExact, isExactSymbol, hl, Reading.text]
  | promise text symbol argument =>
      cases hr
      simp [isExact, isExactSymbol, hl, Reading.text]
  | atom text symbol atom =>
      cases hr
      simp [isExact, isExactSymbol, hl, Reading.text]

/-- The words are types of their own, declared or not. -/
theorem isExact_word {u : TypeText} (h : u.text ∈ plainWords) : v.isExact (.ofText u) = true := by
  obtain ⟨w, hw, hexact⟩ : ∃ w : TypeWord, w.text = u.text ∧ w.atom.isExact w.text = true := by
    simp only [plainWords, List.mem_cons, List.not_mem_nil, or_false] at h
    rcases h with h | h | h | h | h | h | h | h
    · exact ⟨.string, h.symm, by decide⟩
    · exact ⟨.boolean, h.symm, by decide⟩
    · exact ⟨.number, h.symm, by decide⟩
    · exact ⟨.undefined, h.symm, by decide⟩
    · exact ⟨.void, h.symm, by decide⟩
    · exact ⟨.object, h.symm, by decide⟩
    · exact ⟨.any, h.symm, by decide⟩
    · exact ⟨.unknown, h.symm, by decide⟩
  -- The text is the word, so its reading is known.
  have hu : u = TypeText.of w.chars := by
    have hchars : u.chars = w.chars := by
      rw [TypeWord.chars, hw, TypeText.text, String.toList_ofList]
    rw [(noParts_of_inert (isInert_of_isName w.isName_chars) w.toPlainName.neat.tight).1, ← hchars]
  rw [hu, ofText_word, isExact, isExactSymbol, hexact]
  split <;> simp

/-- A text that is no union with `undefined` is said exactly iff it is
one of the words, a located name or a dotted name. -/
theorem isExact_ofText_iff {u : TypeText} (hinner : u.nullableInner? = none)
    (hu : trim u.chars = u.chars) : v.isExact (.ofText u) = true ↔ v.ExactText u := by
  have htext := TypeText.trimString_text hu
  constructor
  · intro h
    rw [Reading.ofText_eq, hinner] at h
    rcases of_isExact_ofAnswers h with ⟨name, hsymbol, hl, heq⟩ | hdotted | hword
    · rw [htext] at heq
      rcases (u.symbol?_eq_some_iff name).mp hsymbol with ⟨hname, -⟩ | ⟨args, hform⟩
      · rw [← heq] at hl
        exact .inr (.inl ⟨hname, (v.isSome_locate_iff _).mp hl⟩)
      · -- A generic form has a `<` and its head has none.
        obtain ⟨front, close, hangle, -, hhead, rfl⟩ := hform
        have hmem : '<' ∈ trim front := by
          rw [← String.ofList_injective heq, hangle.eq]
          simp
        have hpart := isNamePart_of_isName hhead hmem
        rw [not_isNamePart_of_mem_punctuation (by decide)] at hpart
        cases hpart
    · rw [TypeText.qualified?, Option.isSome_map] at hdotted
      obtain ⟨⟨space, name⟩, hsome⟩ := Option.isSome_iff_exists.mp hdotted
      obtain ⟨hspace, hname, hchars⟩ := dottedName?_eq_some_iff.mp hsome
      exact .inr (.inr ⟨⟨space, hspace⟩, ⟨name, hname⟩, hchars⟩)
    · left
      rw [htext] at hword
      simp only [TypeText.isVoid, TypeText.isDynamic, Bool.or_eq_true, beq_iff_eq,
        or_assoc] at hword
      simpa only [plainWords, List.mem_cons, List.not_mem_nil, or_false] using hword
  · rintro (hword | ⟨hname, hl⟩ | ⟨space, name, hchars⟩)
    · exact isExact_word hword
    · have hsymbol : (Reading.ofText u).symbol? = some u.text :=
        Reading.symbol?_ofText ((u.symbol?_eq_some_iff u.text).mpr (.inl ⟨hname, rfl⟩))
      rw [isExact_of_symbol? hsymbol ((v.isSome_locate_iff _).mpr hl),
        Reading.text_ofText hinner hu, beq_self_eq_true]
    · have hof : u = TypeText.of (space.chars ++ '.' :: name.chars) := by
        rw [(noParts_of_inert (isInert_of_mem_dotted space name)
          (TypeOperand.dotted space name).neat.tight).1, ← hchars]
      rw [hof, ofText_dotted, isExact, isExactSymbol, Atom.isExact, beq_iff_eq]
      simp [PlainName.text, String.ofList_append, ← String.append_assoc]

/-- The comment of a type that is known by its text. It depends on the core
of the text: there is none iff the core is one of the words, a located name
or a dotted name, and otherwise it is the core itself. Without comments the
base, the nullability, the events and what becomes of an arena of headers
are the same. -/
theorem comment_map_text (v : Viewpoint) (p : Position) (text : String) (h : Headers)
    (header : Nat) :
    let core := (TypeText.ofString text).core
    let loud := v.map { p with quiet := false } (.unresolved text)
    let quiet := v.map { p with quiet := true } (.unresolved text)
    (loud.value.comment = none ↔ v.ExactText core)
      ∧ (loud.value.comment = none ∨ loud.value.comment = some (commentText core.text))
      ∧ quiet.value = { loud.value with comment := none }
      ∧ h.addImports header quiet.imports = h.addImports header loud.imports
      ∧ quiet.events = loud.events := by
  intro core loud quiet
  have hinner : core.nullableInner? = none := TypeText.nullableInner?_core _
  have htrim : trim core.chars = core.chars := TypeText.trim_chars_core (TypeText.trim_chars_of _)
  have hcore : (Reading.of (.unresolved text)).core = .ofText core := Reading.core_ofText _
  -- The comment depends on the core alone: the nullable layers around it are transparent.
  have hcomment : loud.value.comment
      = if v.isExact (.ofText core) then none else some (commentText core.text) := by
    rw [show loud = v.mapReading { p with quiet := false } (Reading.of (.unresolved text)) from rfl,
      comment_mapReading, ← isExact_core, hcore, Reading.text_ofText hinner htrim]
    simp [Position.note]
  have hquiet : quiet = loud.silent :=
    v.mapReading_quietly { p with quiet := false } (Reading.of (.unresolved text))
  refine ⟨?_, ?_, by rw [hquiet]; rfl, by rw [hquiet]; rfl, by rw [hquiet]; rfl⟩
  · rw [hcomment, ← isExact_ofText_iff hinner htrim]
    split <;> simp_all
  · rw [hcomment]
    split <;> simp

end Viewpoint

end Externals
