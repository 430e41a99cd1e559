import Externals.Proofs.Mapping.BlockComment

/-!
# `Externals.Proofs.Mapping.Exposure`: differences that show in the type

A union whose `undefined` stands in parentheses is read in two ways, and
wherever the mapping looks at one, the text and the tree of a type report
different events (`TypeExpr.isObscured`). The event is all that differs
if the type around it says the same in both cases. This module tells when
the difference shows in the type or in its imports.

By its text, such a union is `JsAny` with no import; by its tree it is
what its operand is, with `null` allowed. Where a further `| undefined`
stands around it, `null` is allowed either way. The difference is then in
the base, the imports and the comment. Comments are left out inside of an
array or a promise, so there an operand that is `JsAny` itself hides it:
`Promise<(Foo | (undefined)) | undefined>` is one type in both readings.
Everywhere else it shows, because the bases end in different characters
or because the comments have different numbers of bars.

* `Draft.Agrees`: two drafts of a type that look alike from outside.
* `TypeExpr.isExposed`: the difference shows.
* `TypeExpr.agrees_iff`: the two readings agree exactly if it does not.
* `map_text_eq_map_tree_iff`: both conditions, on drafts and on types.
-/

set_option autoImplicit false

namespace Externals

open Text Source

/-! ### Comments tell unions from their operands -/

namespace Text

/-- Collapsing blanks keeps all other characters, each as often as
before. It may put a space where there was none of this kind, but never
one of the others. -/
theorem count_collapse {a : Char} (ha : isBlank a = false) (cs : List Char) :
    (collapse cs).count a = cs.count a := by
  have hspace : ' ' ≠ a := ne_of_isBlank (by decide) ha
  -- Collapsing removes and writes blanks only, and `a` is none.
  induction cs using collapse_induction with
  | nil => rfl
  | blank c cs hc ih =>
      rw [collapse_cons_blank hc, ih, List.count_cons_of_ne (ne_of_isBlank hc ha)]
  | last c cs hc hnext ih =>
      rw [collapse_cons_last hc hnext, List.count_cons, List.count_cons, ← ih]
      split
      · rename_i hwords
        rw [collapse, hwords]
        rfl
      · rw [List.count_cons_of_ne hspace]
  | next c d cs hc hd ih =>
      rw [(collapse_cons_next hc hd cs).1, List.count_cons, List.count_cons, ih]

end Text

/-- Breaking up terminators adds nothing but backslashes, so every other
character is counted as before. -/
theorem count_breakTerminators {a : Char} (ha : a ≠ '\\') (cs : List Char) :
    (breakTerminators cs).count a = cs.count a := by
  induction cs with
  | nil => rfl
  | cons c cs ih =>
      -- Only a backslash is ever added, and only behind a star.
      by_cases hc : c = '*'
      · rw [hc, breakTerminators_star, List.count_cons, List.count_cons, ← ih]
        split
        · rw [List.count_cons_of_ne ha.symm]
        · rfl
      · rw [breakTerminators_of_ne hc, List.count_cons, List.count_cons, ih]

/-- The comment of a union has one more bar than that of any part of its
operand. So the two comments are different, whatever the types in them
look like. -/
theorem commentText_orUndefined_ne (o : TypeOperand) (wraps : Nat) {text : String}
    (h : text ∈ o.shapeReading.texts) :
    commentText (TypeExpr.orUndefined o wraps).text ≠ commentText text := by
  intro heq
  -- Bars survive both steps that make a comment of a text.
  have hcount : ∀ s : String, (commentText s).toList.count '|' = s.toList.count '|' := fun s => by
    rw [commentText, String.toList_ofList, count_breakTerminators (by decide),
      count_collapse (by decide)]
  have hbars := congrArg (fun s : String => s.toList.count '|') heq
  have hpart := (o.sublist_of_mem_texts text h).count_le '|'
  rw [hcount, hcount, TypeExpr.toList_text, TypeExpr.print] at hbars
  have hbar : ([' ', '|', ' '] : List Char).count '|' = 1 := by decide
  rw [List.count_append, List.count_append, hbar] at hbars
  omega

/-! ### Agreement -/

/-- Two drafts of a type look alike: they ask for the same imports, and
the types have the same base and comment. They also have to allow `null`
alike, unless something around them allows it in any case. -/
structure Draft.Agrees (absorbed : Bool) (d d' : Draft KotlinType) : Prop where
  imports : d.imports = d'.imports
  base : d.value.base = d'.value.base
  comment : d.value.comment = d'.value.comment
  nullable : absorbed = false → d.value.nullable = d'.value.nullable

namespace Draft.Agrees

/-- A draft looks like itself, with or without something around it. -/
theorem of_eq {d d' : Draft KotlinType} (h : d = d') (absorbed : Bool) : d.Agrees absorbed d' := by
  subst h
  exact ⟨rfl, rfl, rfl, fun _ => rfl⟩

/-- With nothing around them, drafts agree if they have the same type
and the same imports. Their events are left out. -/
theorem iff_eq {d d' : Draft KotlinType} :
    d.Agrees false d' ↔ d.value = d'.value ∧ d.imports = d'.imports := by
  constructor
  · rintro ⟨himports, hbase, hcomment, hnullable⟩
    -- Field by field; the events are left out of the comparison.
    obtain ⟨⟨base, nullable, comment⟩, imports, events⟩ := d
    obtain ⟨⟨base', nullable', comment'⟩, imports', events'⟩ := d'
    cases hbase
    cases hcomment
    cases hnullable rfl
    exact ⟨rfl, himports⟩
  · rintro ⟨hvalue, himports⟩
    exact ⟨himports, congrArg _ hvalue, congrArg _ hvalue, fun _ => congrArg _ hvalue⟩

/-- Once `null` is allowed in both types, it does not matter any more.
This is how a union with bare `undefined` absorbs a difference further
in. -/
theorem allowing_null {d d' : Draft KotlinType} {absorbed : Bool} :
    Agrees absorbed { d with value := { d.value with nullable := true } }
        { d' with value := { d'.value with nullable := true } }
      ↔ d.Agrees true d' := by
  constructor
  · rintro ⟨himports, hbase, hcomment, -⟩
    exact ⟨himports, hbase, hcomment, fun h => absurd h (by decide)⟩
  · rintro ⟨himports, hbase, hcomment, -⟩
    exact ⟨himports, hbase, hcomment, fun _ => rfl⟩

end Draft.Agrees

/-! ### Where `null` is allowed -/

/-- A reading of a type with `| undefined` behind it. -/
def Reading.isNullable : Reading → Bool
  | nullable _ _ => true
  | _ => false

namespace Viewpoint

variable (v : Viewpoint) (p : Position)

/-- A name in front of a rule makes no type nullable that the rule does
not. -/
theorem nullable_symbolOr (text : String) (symbol : Option String) {rule : Draft KotlinType}
    (hrule : rule.value.nullable = false) :
    (v.symbolOr p text symbol rule).value.nullable = false := by
  cases symbol with
  | none => exact hrule
  | some name =>
      cases hl : v.locate name with
      | none => rwa [symbolOr_of_locate_eq_none hl]
      | some l =>
          rw [symbolOr_of_locate_eq_some hl p text rule (pure default)]
          simp [symbolOr, resolve, hl, Position.annotate]

/-- A mapped type allows `null` if its reading is nullable, and only
then. -/
theorem nullable_mapReading (r : Reading) : (v.mapReading p r).value.nullable = r.isNullable := by
  -- Only a nullable reading gives a nullable type: every rule and every located symbol
  -- starts from a type that is not.
  cases r with
  | nullable text inner => rfl
  | array text symbol element =>
      rw [mapReading]
      apply nullable_symbolOr
      split <;> rfl
  | promise text symbol argument =>
      rw [mapReading]
      exact v.nullable_symbolOr p text symbol rfl
  | atom text symbol atom =>
      rw [mapReading]
      refine v.nullable_symbolOr p text symbol ?_
      cases atom with
      | self =>
          rw [mapAtom]
          split <;> rfl
      | _ => rfl

end Viewpoint

/-- Two types of which both allow `null`, or neither does, or only the
second does and the first is `JsAny`. The readings of a type by its text
and by its tree are always so, and it keeps a question mark in one text
from being a part of the base in the other. -/
def KotlinType.Comparable (t t' : KotlinType) : Prop :=
  t.nullable = t'.nullable ∨ t.base = "JsAny" ∧ t.nullable = false ∧ t'.nullable = true

/-- Comparable types have the same text only if they are the same.
Without the condition a base that ends in a question mark could make up
for one that is missing. -/
theorem KotlinType.Comparable.bare_eq_iff {t t' : KotlinType} (h : t.Comparable t') :
    t.bare = t'.bare ↔ t.base = t'.base ∧ t.nullable = t'.nullable := by
  rcases h with hsame | ⟨hbase, hnot, hnull⟩
  · rw [bare, bare, ← hsame]
    cases t.nullable with
    | false => simp
    | true => simp [String.append_left_inj]
  · -- `JsAny` does not end in a question mark.
    rw [bare, bare, hnot, hnull, hbase]
    constructor
    · intro heq
      have hlast := congrArg (fun s : String => s.toList.getLast?) heq
      simp at hlast
    · rintro ⟨-, hfalse⟩
      cases hfalse

/-- Readings that are both nullable, or both not, are mapped to comparable
types. So it is enough to look at the outermost form of a reading. -/
theorem Viewpoint.comparable_mapReading {v : Viewpoint} {r r' : Reading} (p : Position)
    (h : r.isNullable = r'.isNullable) :
    (v.mapReading p r).value.Comparable (v.mapReading p r').value := by
  left
  rw [nullable_mapReading, nullable_mapReading, h]

section

variable {v : Viewpoint}

-- The readings differ in `null` only for a union in parentheses around its `undefined`.
mutual

/-- The two types of an operand are comparable. Parentheses lead on to
what is inside of them; every other operand is nullable in neither
reading. -/
theorem TypeOperand.comparable : (o : TypeOperand) → ∀ p,
    (v.mapReading p o.textReading).value.Comparable (v.mapReading p o.shapeReading).value
  | .parens inner, p => by
      rw [textReading_parens]
      exact inner.comparable p
  -- From here on both readings have the same outermost form, so they agree on being
  -- nullable.
  | .word w, p => by
      refine Viewpoint.comparable_mapReading p ?_
      rw [textReading_word, shapeReading_word]
      rfl
  | .integer n, p => .inl (by rw [textReading_integer])
  | .quoted s, p => .inl (by rw [textReading_quoted])
  | .name n, p => .inl (by rw [textReading_name])
  | .dotted space n, p => .inl (by rw [textReading_dotted])
  | .array element, p => by
      refine Viewpoint.comparable_mapReading p ?_
      rw [textReading_array, shapeReading_array]
      rfl
  | .generic head args, p => by
      refine Viewpoint.comparable_mapReading p ?_
      rw [textReading_generic, shapeReading_generic, genericReading, genericReading]
      split
      · rfl
      · split <;> rfl

/-- The two types of a type expression are comparable. Only a union with
`undefined` in parentheses is nullable in one reading and not in the
other, and there the first is `JsAny`. -/
theorem TypeExpr.comparable : (e : TypeExpr) → ∀ p,
    (v.mapReading p e.textReading).value.Comparable (v.mapReading p e.shapeReading).value
  | .operand o, p => o.comparable p
  | .orUndefined o 0, p => by
      refine Viewpoint.comparable_mapReading p ?_
      rw [textReading_orUndefined_bare, shapeReading_orUndefined]
      rfl
  -- The wrapped `undefined` is where the two differ: the text is read as an unknown atom,
  -- which is never nullable.
  | .orUndefined o (n + 1), p => by
      right
      rw [textReading_orUndefined_wrapped, shapeReading_orUndefined]
      exact ⟨rfl, rfl, rfl⟩

end

/-! ### Types in brackets -/

/-- Two types that are put in the same brackets agree exactly if they
agreed before, provided that they are comparable and without comments.
The text of the inner type is a part of the base now, so `null` counts
even if something further out allows it for the whole. -/
theorem Draft.Agrees.bracketed {d d' whole whole' : Draft KotlinType} {p : Position}
    {text : String} (front : String) (lines : List ImportLine) {absorbed : Bool}
    (hvalue : whole.value = p.annotate text false (front ++ d.value.bare ++ ">"))
    (hvalue' : whole'.value = p.annotate text false (front ++ d'.value.bare ++ ">"))
    (himports : whole.imports = lines ++ d.imports)
    (himports' : whole'.imports = lines ++ d'.imports)
    (hcomment : d.value.comment = d'.value.comment) (hcomparable : d.value.Comparable d'.value) :
    whole.Agrees absorbed whole' ↔ d.Agrees false d' := by
  have hbare : front ++ d.value.bare ++ ">" = front ++ d'.value.bare ++ ">"
      ↔ d.value.bare = d'.value.bare := by
    rw [String.append_left_inj, String.append_right_inj]
  -- Inside brackets the argument is printed bare, so whether it is nullable shows in the
  -- text, and its comment does not.
  constructor
  · rintro ⟨hlines, hbase, -, -⟩
    rw [himports, himports', List.append_cancel_left_eq] at hlines
    rw [hvalue, hvalue'] at hbase
    obtain ⟨hsame, hnullable⟩ := hcomparable.bare_eq_iff.mp (hbare.mp hbase)
    exact ⟨hlines, hsame, hcomment, fun _ => hnullable⟩
  · rintro ⟨hlines, hbase, -, hnullable⟩
    have hsame := hcomparable.bare_eq_iff.mpr ⟨hbase, hnullable rfl⟩
    have hwhole : whole.value = whole'.value := by rw [hvalue, hvalue', hsame]
    exact ⟨by rw [himports, himports', hlines], congrArg _ hwhole, congrArg _ hwhole,
      fun _ => congrArg _ hwhole⟩

/-- Inside of brackets there are no comments. -/
theorem comment_mapReading_quietly (p : Position) (r : Reading) :
    (v.mapReading p.quietly r).value.comment = none := by
  rw [v.comment_mapReading, Position.note, Position.quietly, Bool.or_true]
  rfl

/-- The rule of a reading decides if its name means nothing, or if it
has none. -/
theorem symbolOr_of_unlocated {symbol : Option String}
    (hsymbol : ∀ name, symbol = some name → v.locate name = none) (p : Position) (text : String)
    (rule : Draft KotlinType) : v.symbolOr p text symbol rule = rule := by
  cases symbol with
  | none => rfl
  | some name => exact Viewpoint.symbolOr_of_locate_eq_none (hsymbol name rfl) p text rule

/-- An array agrees with another one exactly if their elements do, where
the elements are not spelled like names. An element that is spelled like
one may be primitive and have an array of its own, which does not depend
on the reading. -/
theorem agrees_array_iff {text : String} {symbol : Option String} {r r' : Reading}
    (hsymbol : ∀ name, symbol = some name → v.locate name = none)
    (hname : isName r.text.toList = false) (htext : r.text = r'.text) {p : Position}
    (hcomparable : (v.mapReading p.quietly r).value.Comparable (v.mapReading p.quietly r').value)
    {absorbed : Bool} :
    (v.mapReading p (.array text symbol r)).Agrees absorbed
        (v.mapReading p (.array text symbol r'))
      ↔ (v.mapReading p.quietly r).Agrees false (v.mapReading p.quietly r') := by
  -- No rule for primitive elements applies.
  have hwhole : ∀ s : Reading, isName s.text.toList = false →
      v.mapReading p (.array text symbol s) = (do
        let inner ← v.mapReading p.quietly s
        return p.annotate text false ("JsArray<" ++ inner.bare ++ ">")) := by
    intro s hs
    rw [Viewpoint.mapReading, symbolOr_of_unlocated hsymbol, primitiveArray?_of_not_isName hs]
  rw [hwhole r hname, hwhole r' (htext ▸ hname)]
  refine Draft.Agrees.bracketed "JsArray<" [] rfl rfl ?_ ?_ ?_ hcomparable
  · simp
  · simp
  · rw [comment_mapReading_quietly, comment_mapReading_quietly]

/-- The same for promises. Here it does not matter how the argument is
spelled. -/
theorem agrees_promise_iff {text name : String} {r r' : Reading} (hl : v.locate name = none)
    {p : Position}
    (hcomparable : (v.mapReading p.quietly r).value.Comparable (v.mapReading p.quietly r').value)
    {absorbed : Bool} :
    (v.mapReading p (.promise text (some name) r)).Agrees absorbed
        (v.mapReading p (.promise text (some name) r'))
      ↔ (v.mapReading p.quietly r).Agrees false (v.mapReading p.quietly r') := by
  rw [Viewpoint.mapReading, Viewpoint.mapReading, Viewpoint.symbolOr_of_locate_eq_none hl,
    Viewpoint.symbolOr_of_locate_eq_none hl]
  refine Draft.Agrees.bracketed "Promise<" [v.promiseImport] rfl rfl ?_ ?_ ?_ hcomparable
  · simp [Draft.request]
  · simp [Draft.request]
  · rw [comment_mapReading_quietly, comment_mapReading_quietly]

/-! ### Exposed unions -/

/-- The operand is mapped to `JsAny` without an import, so that it
cannot be told from a union that is not understood. -/
def TypeOperand.isAny (v : Viewpoint) (p : Position) (o : TypeOperand) : Bool :=
  (v.mapReading p o.shapeReading).value.base == "JsAny"
    && (v.mapReading p o.shapeReading).imports.isEmpty

mutual

/-- The type of the operand, or one of its imports, tells that there is a
union whose `undefined` stands in parentheses. The flag says that `null`
is allowed in any case, because of a union further out. -/
def TypeOperand.isExposed (v : Viewpoint) (p : Position) (absorbed : Bool) : TypeOperand → Bool
  | .array element => element.isExposed v p.quietly false
  | .generic head args =>
      (v.locate head.text).isNone
        && (isArrayName head.chars && args.isSingle || head.isPromise)
        && args.isExposed v p.quietly false
  | .parens inner => inner.isExposed v p absorbed
  | _ => false

/-- The same for a type. A union with bare `undefined` absorbs what is
inside of it; one with `undefined` in parentheses shows, unless it is
absorbed itself, comments are left out and its operand is any type. -/
def TypeExpr.isExposed (v : Viewpoint) (p : Position) (absorbed : Bool) : TypeExpr → Bool
  | .operand o => o.isExposed v p absorbed
  | .orUndefined o 0 => o.isExposed v p true
  | .orUndefined o (_ + 1) => !(absorbed && p.quiet && o.isAny v p)

/-- The same for the first argument. -/
def TypeArgs.isExposed (v : Viewpoint) (p : Position) (absorbed : Bool) : TypeArgs → Bool
  | .last e => e.isExposed v p absorbed
  | .more e _ => e.isExposed v p absorbed

end

mutual

/-- What is not even looked at does not show. -/
theorem TypeOperand.not_isExposed_of_not_isObscured :
    (o : TypeOperand) → o.isObscured v = false → ∀ p absorbed, o.isExposed v p absorbed = false
  | .array element, h, p, _ => element.not_isExposed_of_not_isObscured h p.quietly false
  | .generic head args, h, p, _ => by
      rw [TypeOperand.isObscured, Bool.and_eq_false_iff] at h
      rw [TypeOperand.isExposed, Bool.and_eq_false_iff]
      exact h.imp id fun hargs => args.not_isExposed_of_not_isObscured hargs p.quietly false
  | .parens inner, h, p, absorbed => inner.not_isExposed_of_not_isObscured h p absorbed
  | .word _, _, _, _ | .integer _, _, _, _ | .quoted _, _, _, _ | .name _, _, _, _
  | .dotted _ _, _, _, _ => rfl

/-- The same for a type. A union with `undefined` in parentheses is
always looked at. -/
theorem TypeExpr.not_isExposed_of_not_isObscured :
    (e : TypeExpr) → e.isObscured v = false → ∀ p absorbed, e.isExposed v p absorbed = false
  | .operand o, h, p, absorbed => o.not_isExposed_of_not_isObscured h p absorbed
  | .orUndefined o 0, h, p, _ => o.not_isExposed_of_not_isObscured h p true
  | .orUndefined o (n + 1), h, _, _ => by simp [TypeExpr.isObscured] at h

/-- The same for the first argument, the only one that the mapping looks
at. -/
theorem TypeArgs.not_isExposed_of_not_isObscured :
    (as : TypeArgs) → as.isObscured v = false → ∀ p absorbed, as.isExposed v p absorbed = false
  | .last e, h, p, absorbed => e.not_isExposed_of_not_isObscured h p absorbed
  | .more e _, h, p, absorbed => e.not_isExposed_of_not_isObscured h p absorbed

end

/-- The text that a type is commented with is one of its reading. It is
found by leaving out every `| undefined`. -/
theorem core_text_mem_texts (r : Reading) : r.core.text ∈ r.texts := by
  induction r with
  | nullable text inner ih => exact List.mem_cons_of_mem _ ih
  | array text symbol element => exact .head _
  | promise text symbol argument => exact .head _
  | atom text symbol atom => exact .head _

/-- A union with `undefined` in parentheses, by its text and by its tree:
the two agree only where `null` is allowed anyway, comments are left out,
and the operand is any type. -/
theorem agrees_orUndefined_wrapped_iff (o : TypeOperand) (n : Nat) (p : Position)
    (absorbed : Bool) :
    (v.mapReading p (TypeExpr.orUndefined o (n + 1)).textReading).Agrees absorbed
        (v.mapReading p (TypeExpr.orUndefined o (n + 1)).shapeReading)
      ↔ (TypeExpr.orUndefined o (n + 1)).isExposed v p absorbed = false := by
  rw [textReading_orUndefined_wrapped, shapeReading_orUndefined, Viewpoint.mapReading_nullable,
    TypeExpr.isExposed, Bool.not_eq_false', Bool.and_eq_true, Bool.and_eq_true, TypeOperand.isAny,
    Bool.and_eq_true, beq_iff_eq, List.isEmpty_iff]
  have hunion := v.comment_mapReading p
    (.atom (TypeExpr.orUndefined o (n + 1)).text none .unknown)
  have hoperand := v.comment_mapReading p o.shapeReading
  constructor
  · rintro ⟨himports, hbase, hcomment, hnullable⟩
    have habsorbed : absorbed = true := by
      cases absorbed with
      | true => rfl
      | false => exact absurd (hnullable rfl) Bool.false_ne_true
    refine ⟨⟨habsorbed, ?_⟩, hbase.symm, himports.symm⟩
    -- The comments are those of the union and of a part of its operand.
    cases hquiet : p.quiet with
    | true => rfl
    | false =>
        have hnote := hunion.symm.trans (hcomment.trans hoperand)
        simp only [Position.note, hquiet, Bool.or_false] at hnote
        cases hexact : v.isExact o.shapeReading with
        | true =>
            rw [hexact] at hnote
            cases hnote
        | false =>
            rw [hexact] at hnote
            exact absurd (Option.some.inj hnote)
              (commentText_orUndefined_ne o (n + 1) (core_text_mem_texts _))
  · rintro ⟨⟨rfl, hquiet⟩, hbase, himports⟩
    refine ⟨himports.symm, hbase.symm, ?_, fun h => absurd h (by decide)⟩
    refine hunion.trans (Eq.trans ?_ hoperand.symm)
    rw [Position.note, Position.note, hquiet, Bool.or_true, Bool.or_true, if_pos rfl, if_pos rfl]

/-- An operand in which the mapping looks at no such union: the readings
are mapped to one and the same draft, and nothing shows. -/
theorem TypeOperand.agrees_iff_of_not_isObscured (hv : v.HidesNoWord) {o : TypeOperand}
    (h : o.isObscured v = false) (p : Position) (absorbed : Bool) :
    (v.mapReading p o.textReading).Agrees absorbed (v.mapReading p o.shapeReading)
      ↔ o.isExposed v p absorbed = false :=
  iff_of_true (.of_eq (o.mapReading_eq_of_not_isObscured hv h p) absorbed)
    (o.not_isExposed_of_not_isObscured h p absorbed)

mutual

/-- The two readings of an operand agree exactly if nothing shows. An
operand in which the mapping looks at no such union is the same in both;
otherwise the union is inside of an array or a promise, and is not
spelled like a name. -/
theorem TypeOperand.agrees_iff (hv : v.HidesNoWord) : (o : TypeOperand) → ∀ p absorbed,
    (v.mapReading p o.textReading).Agrees absorbed (v.mapReading p o.shapeReading)
      ↔ o.isExposed v p absorbed = false
  | .array element, p, absorbed => by
      cases hobscured : (TypeOperand.array element).isObscured v with
      | false => exact TypeOperand.agrees_iff_of_not_isObscured hv hobscured p absorbed
      | true =>
          have hname : isName element.textReading.text.toList = false := by
            rw [element.text_textReading]
            exact element.isName_text_of_isObscured hobscured
          rw [textReading_array, shapeReading_array,
            agrees_array_iff (fun name hnone => by cases hnone) hname element.text_textReading
              (element.comparable p.quietly)]
          exact element.agrees_iff hv p.quietly false
  | .generic head args, p, absorbed => by
      cases hobscured : (TypeOperand.generic head args).isObscured v with
      | false => exact TypeOperand.agrees_iff_of_not_isObscured hv hobscured p absorbed
      | true =>
          rw [TypeOperand.isObscured, Bool.and_eq_true, Bool.and_eq_true,
            Option.isNone_iff_eq_none] at hobscured
          obtain ⟨⟨hl, hlooks⟩, hargs⟩ := hobscured
          have hname : isName args.first.textReading.text.toList = false := by
            rw [TypeArgs.isObscured_first] at hargs
            rw [args.first.text_textReading]
            exact args.first.isName_text_of_isObscured hargs
          have hexposed : (TypeOperand.generic head args).isExposed v p absorbed
              = args.isExposed v p.quietly false := by
            rw [TypeOperand.isExposed, hl, hlooks]
            rfl
          rw [textReading_generic, shapeReading_generic, hexposed,
            ← args.agrees_iff hv p.quietly false, genericReading, genericReading]
          -- It is an array or a promise, for otherwise nothing is looked at.
          split
          · exact agrees_array_iff (fun name hsome => by cases hsome; exact hl) hname
              args.first.text_textReading (args.first.comparable p.quietly)
          · rename_i harray
            simp only [harray, Bool.false_or] at hlooks
            rw [if_pos hlooks, if_pos hlooks]
            exact agrees_promise_iff hl (args.first.comparable p.quietly)
  | .parens inner, p, absorbed => by
      rw [textReading_parens]
      exact inner.agrees_iff hv p absorbed
  | .word _, p, absorbed | .integer _, p, absorbed | .quoted _, p, absorbed
  | .name _, p, absorbed | .dotted _ _, p, absorbed =>
      TypeOperand.agrees_iff_of_not_isObscured hv rfl p absorbed

/-- The two readings of a type agree exactly if nothing shows. A bare
`undefined` passes on that `null` is allowed in any case, and one in
parentheses is where the two readings part. -/
theorem TypeExpr.agrees_iff (hv : v.HidesNoWord) : (e : TypeExpr) → ∀ p absorbed,
    (v.mapReading p e.textReading).Agrees absorbed (v.mapReading p e.shapeReading)
      ↔ e.isExposed v p absorbed = false
  | .operand o, p, absorbed => o.agrees_iff hv p absorbed
  | .orUndefined o 0, p, absorbed => by
      rw [textReading_orUndefined_bare, shapeReading_orUndefined, Viewpoint.mapReading_nullable,
        Viewpoint.mapReading_nullable, Draft.Agrees.allowing_null]
      exact o.agrees_iff hv p true
  | .orUndefined o (n + 1), p, absorbed => agrees_orUndefined_wrapped_iff o n p absorbed

/-- The same for the first argument. -/
theorem TypeArgs.agrees_iff (hv : v.HidesNoWord) : (as : TypeArgs) → ∀ p absorbed,
    (v.mapReading p as.first.textReading).Agrees absorbed
        (v.mapReading p as.first.shapeReading)
      ↔ as.isExposed v p absorbed = false
  | .last e, p, absorbed => e.agrees_iff hv p absorbed
  | .more e _, p, absorbed => e.agrees_iff hv p absorbed

end

/-- By its text, a union with `undefined` in parentheses does not allow
`null`. -/
theorem not_nullable_map_orUndefined_wrapped (p : Position) (o : TypeOperand) (n : Nat) :
    (v.mapReading p (TypeExpr.orUndefined o (n + 1)).textReading).value.nullable = false := by
  rw [textReading_orUndefined_wrapped]
  rfl

/-- By its tree, every union with `undefined` does. -/
theorem nullable_map_orUndefined (p : Position) (o : TypeOperand) (wraps : Nat) :
    (v.mapReading p (TypeExpr.orUndefined o wraps).shapeReading).value.nullable = true := by
  rw [shapeReading_orUndefined]
  rfl

end

/-- The text of a type expression and its concrete tree map to the same
type, asking for the same imports and reporting the same events, exactly
if the mapping looks at no union whose `undefined` stands in parentheses.
Such a union is nullable by its tree and not by its text. Events apart,
the type and the imports are the same exactly if no such union shows. -/
theorem map_text_eq_map_tree_iff (v : Viewpoint) (hv : v.HidesNoWord) (p : Position) (start : Nat)
    (e : TypeExpr) :
    (v.map p (.unresolved e.text) = v.map p (e.node start).toTypeRef ↔ e.isObscured v = false)
      ∧ ((v.map p (.unresolved e.text)).value = (v.map p (e.node start).toTypeRef).value
            ∧ (v.map p (.unresolved e.text)).imports = (v.map p (e.node start).toTypeRef).imports
          ↔ e.isExposed v p false = false)
      ∧ ∀ o n, e = .orUndefined o (n + 1) →
          (v.map p (.unresolved e.text)).value.nullable = false
            ∧ (v.map p (e.node start).toTypeRef).value.nullable = true := by
  simp only [Viewpoint.map, Reading.of_unresolved_text, Reading.of_toTypeRef_node]
  refine ⟨⟨?_, fun h => e.mapReading_eq_of_not_isObscured hv h p⟩, ?_, ?_⟩
  -- Where the text obscures a type, the two mappings already leave different notes.
  · intro heq
    rw [Bool.eq_false_iff]
    intro hobscured
    exact e.events_ne_of_isObscured hobscured p (congrArg Draft.events heq)
  · rw [← Draft.Agrees.iff_eq, e.agrees_iff hv]
  · rintro o n rfl
    exact ⟨not_nullable_map_orUndefined_wrapped p o n, nullable_map_orUndefined p o (n + 1)⟩

/-- A name that is no word. -/
def TypeName.ofText (text : String) (hname : isName text.toList = true)
    (hword : ∀ w : TypeWord, w.chars ≠ text.toList) : TypeName :=
  ⟨⟨text.toList, hname⟩, hword⟩

/-- The type `Promise<(Foo | (undefined)) | undefined>`. The inner union
is absorbed by the outer one, comments are left out in a promise, and
`Foo` is not declared: the difference does not show. -/
def absorbedUnion : TypeExpr :=
  .operand (.generic (.ofText "Promise" (by decide) (by intro w; cases w <;> decide))
    (.last (.orUndefined
      (.parens (.orUndefined
        (.name (.ofText "Foo" (by decide) (by intro w; cases w <;> decide))) 1)) 0)))

/-- At the global scope of a new project, the two ways of mapping
`(string | undefined)[]` agree. For an absorbed union they agree in the
type and its imports, though not in what they report. -/
theorem map_text_eq_map_tree_initial :
    (Viewpoint.within (Project.initial {}).index 0).map {} (.unresolved "(string | undefined)[]")
        = (Viewpoint.within (Project.initial {}).index 0).map {}
          ((TypeExpr.operand
            (.array (.parens (.orUndefined (.word .string) 0)))).node 0).toTypeRef
      ∧ absorbedUnion.text = "Promise<(Foo | (undefined)) | undefined>"
      ∧ ((Viewpoint.within (Project.initial {}).index 0).map {}
            (.unresolved absorbedUnion.text)).value
          = ((Viewpoint.within (Project.initial {}).index 0).map {}
            (absorbedUnion.node 0).toTypeRef).value
      ∧ (Viewpoint.within (Project.initial {}).index 0).map {} (.unresolved absorbedUnion.text)
          ≠ (Viewpoint.within (Project.initial {}).index 0).map {}
            (absorbedUnion.node 0).toTypeRef := by
  have hv : (Viewpoint.within (Project.initial {}).index 0).HidesNoWord := by
    intro w
    have hchain : (Project.initial {}).index.chain 0 = [0] := by
      rw [SymbolIndex.chain]
      rfl
    rw [Viewpoint.within, SymbolIndex.hasName, hchain]
    rfl
  obtain ⟨hsame, -, -⟩ := map_text_eq_map_tree_iff _ hv {} 0
    (.operand (.array (.parens (.orUndefined (.word .string) 0))))
  obtain ⟨hdiffer, htype, -⟩ := map_text_eq_map_tree_iff _ hv {} 0 absorbedUnion
  refine ⟨hsame.mpr rfl, by decide +kernel, (htype.mpr (by decide +kernel)).1, fun heq => ?_⟩
  have hnot := hdiffer.mp heq
  -- The union is looked at, so the drafts differ; only their events can.
  revert hnot
  decide +kernel

end Externals
