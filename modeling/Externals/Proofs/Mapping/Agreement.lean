import Externals.Project.Basic
import Externals.Proofs.Mapping.PrintedReading

/-!
# `Externals.Proofs.Mapping.Agreement`: a type and its text map alike

A type position is mapped by its shape where the shape is known and by
its text otherwise. This module compares the two on all type
expressions: the text of an expression, and what its concrete tree is
resolved to.

The two readings of an expression differ in two places. A word is a
plain name in the text and none in the shape, which shows only where a
declaration hides the word. And a union whose `undefined` stands in
parentheses is `T | undefined` by its shape, but has no rule by its
text. The second difference shows wherever the mapping looks at such a
union: `TypeExpr.isObscured`.

* `TypeExpr.mapReading_eq_of_not_isObscured`: the two agree on an
  expression that is not obscured.
* `TypeExpr.events_ne_of_isObscured`: on an obscured one they report
  different events.
-/

set_option autoImplicit false

namespace Externals

open Text Source

/-! ### Drafts -/

namespace Draft

variable {α β : Type}

/-- A draft without effects has the value it was made of. -/
@[simp] theorem value_pure (a : α) : (pure a : Draft α).value = a := rfl

/-- It asks for no imports. -/
@[simp] theorem imports_pure (a : α) : (pure a : Draft α).imports = [] := rfl

/-- It reports nothing. -/
@[simp] theorem events_pure (a : α) : (pure a : Draft α).events = [] := rfl

/-- The value of two drafts in sequence is that of the second one. The
first one's value is only what the second is made from. -/
@[simp] theorem value_bind (d : Draft α) (f : α → Draft β) :
    (d >>= f).value = (f d.value).value := rfl

/-- Their imports come in the order of the drafts, so that of two
imports of one name the later one is the one that counts. -/
@[simp] theorem imports_bind (d : Draft α) (f : α → Draft β) :
    (d >>= f).imports = d.imports ++ (f d.value).imports := rfl

/-- So do their events. Two drafts that report different events are
therefore told apart however much is drafted after them. -/
@[simp] theorem events_bind (d : Draft α) (f : α → Draft β) :
    (d >>= f).events = d.events ++ (f d.value).events := rfl

/-- Asking for an import reports nothing. -/
@[simp] theorem events_request (line : ImportLine) : (request line).events = [] := rfl

/-- A report is one event. -/
@[simp] theorem events_report (event : Event) : (report event).events = [event] := rfl

end Draft

/-! ### Names that mean nothing -/

namespace Viewpoint

/-- A name that means nothing leaves its rule in force. This is the case
in which a built-in word or a name with arguments is mapped as such. -/
theorem symbolOr_of_locate_eq_none {v : Viewpoint} {name : String} (h : v.locate name = none)
    (p : Position) (text : String) (rule : Draft KotlinType) :
    v.symbolOr p text (some name) rule = rule := by
  simp only [symbolOr, resolve, h]
  rfl

/-- A name that the scope resolves hides the rule of its type, so the
rule does not matter. -/
theorem symbolOr_of_locate_eq_some {v : Viewpoint} {name : String} {l : Location}
    (h : v.locate name = some l) (p : Position) (text : String) (rule rule' : Draft KotlinType) :
    v.symbolOr p text (some name) rule = v.symbolOr p text (some name) rule' := by
  simp only [symbolOr, resolve, h]
  rfl

/-- Resolving a name reports nothing, so all events come from the rule.
The rule may still be skipped, and then there are none. -/
theorem mem_events_symbolOr {v : Viewpoint} {p : Position} {text : String} {symbol : Option String}
    {rule : Draft KotlinType} {event : Event} (h : event ∈ (v.symbolOr p text symbol rule).events) :
    event ∈ rule.events := by
  cases symbol with
  | none => exact h
  | some name =>
      cases hl : v.locate name with
      | none => rwa [symbolOr_of_locate_eq_none hl] at h
      -- The rule is hidden, and may be replaced by one that reports nothing.
      | some l =>
          rw [symbolOr_of_locate_eq_some hl p text rule (pure default)] at h
          simp only [symbolOr, resolve, hl, Draft.events_bind] at h
          cases h

end Viewpoint

/-! ### What a reading reports -/

namespace Reading

/-- The texts of a reading and of its parts, the outer ones first.
Comments quote one of them, so two readings with different texts can be
commented differently. -/
def texts : Reading → List String
  | nullable text inner => text :: inner.texts
  | array text _ element => text :: element.texts
  | promise text _ argument => text :: argument.texts
  | atom text _ _ => [text]

end Reading

/-- An atom reports at most a missing rule, and then for its own text.
Only the type `this` outside of a class and a type without a rule do. -/
theorem mem_events_mapAtom {v : Viewpoint} {p : Position} {text : String} {atom : Atom}
    {event : Event} (h : event ∈ (v.mapAtom p text atom).events) :
    event = .noMappingRule text := by
  cases atom with
  | self =>
      simp only [Viewpoint.mapAtom] at h
      split at h
      · simp at h
      · simpa using h
  | unknown => simpa [Viewpoint.mapAtom] using h
  | _ => simp [Viewpoint.mapAtom] at h

/-- The only event is a missing rule, for a text of the reading. The
induction follows the mapping: each form passes on what its part
reports. -/
theorem exists_text_of_mem_events {v : Viewpoint} {r : Reading} {p : Position} {event : Event}
    (h : event ∈ (v.mapReading p r).events) : ∃ text ∈ r.texts, event = .noMappingRule text := by
  induction r generalizing p with
  | nullable text inner ih =>
      simp only [Viewpoint.mapReading, Draft.events_bind, Draft.events_pure, List.append_nil] at h
      obtain ⟨t, hmem, heq⟩ := ih h
      exact ⟨t, .tail _ hmem, heq⟩
  | array text symbol element ih =>
      simp only [Viewpoint.mapReading] at h
      -- An array of a primitive has a type of its own, and its element is not mapped.
      have h := Viewpoint.mem_events_symbolOr h
      split at h
      · simp at h
      · simp only [Draft.events_bind, Draft.events_pure, List.append_nil] at h
        obtain ⟨t, hmem, heq⟩ := ih h
        exact ⟨t, .tail _ hmem, heq⟩
  | promise text symbol argument ih =>
      simp only [Viewpoint.mapReading] at h
      have h := Viewpoint.mem_events_symbolOr h
      simp only [Draft.events_bind, Draft.events_request, Draft.events_pure, List.append_nil,
        List.nil_append] at h
      obtain ⟨t, hmem, heq⟩ := ih h
      exact ⟨t, .tail _ hmem, heq⟩
  | atom text symbol atom =>
      exact ⟨text, .head _, mem_events_mapAtom (Viewpoint.mem_events_symbolOr h)⟩

/-! ### The two readings of an expression -/

/-- The reading of the text of an operand: what is left to the mapping
where the shape of a type is not known. -/
def TypeOperand.textReading (o : TypeOperand) : Reading := .ofText (TypeText.of o.print)

/-- The reading of the shape of an operand: what the mapping has where
the concrete tree was resolved. -/
def TypeOperand.shapeReading (o : TypeOperand) : Reading := .ofResolved o.lowered

/-- The reading of the text of a type, as the scanners give it. It is
what a position falls back to when its type was not resolved. -/
def TypeExpr.textReading (e : TypeExpr) : Reading := .ofText (TypeText.of e.print)

/-- The reading of the shape of a type, as the tree gives it. It is
compared with `TypeExpr.textReading` form by form below. -/
def TypeExpr.shapeReading (e : TypeExpr) : Reading := .ofResolved e.lowered

/-- By its text, a word is a name that a declaration may hide. By its
shape it is not, which is why viewpoints are asked to hide no word. -/
theorem textReading_word (w : TypeWord) :
    (TypeOperand.word w).textReading = .atom w.text (some w.text) w.atom :=
  ofText_word w

/-- By its shape, a word is no name. This is the first of the two
differences between the readings. -/
theorem shapeReading_word (w : TypeWord) :
    (TypeOperand.word w).shapeReading = .atom w.text none w.atom :=
  ofResolved_word w

/-- By its shape, an integer literal is a number. The literal itself
survives only in the text of the reading. -/
theorem shapeReading_integer (n : IntegerLiteral) :
    (TypeOperand.integer n).shapeReading = .atom (TypeOperand.integer n).text none .number := by
  rw [TypeOperand.shapeReading, TypeOperand.lowered, Reading.ofResolved,
    TypeOperand.trimString_text]
  rfl

/-- The two readings of an integer literal agree: no name begins with a
digit, so there is no symbol to ask for. -/
theorem textReading_integer (n : IntegerLiteral) :
    (TypeOperand.integer n).textReading = (TypeOperand.integer n).shapeReading :=
  (ofText_integer n).trans (shapeReading_integer n).symm

/-- By its shape, a quoted literal is a string, also where it is a
template. -/
theorem shapeReading_quoted (s : QuotedLiteral) :
    (TypeOperand.quoted s).shapeReading = .atom (TypeOperand.quoted s).text none .string := by
  rw [TypeOperand.shapeReading, TypeOperand.lowered, Reading.ofResolved,
    TypeOperand.trimString_text]
  rfl

/-- The two readings of a quoted literal agree, whichever quote it has
and whatever stands inside of it. -/
theorem textReading_quoted (s : QuotedLiteral) :
    (TypeOperand.quoted s).textReading = (TypeOperand.quoted s).shapeReading :=
  (ofText_quoted s).trans (shapeReading_quoted s).symm

/-- The two readings of a name agree, for it is asked for by both. -/
theorem textReading_name (n : TypeName) :
    (TypeOperand.name n).textReading = (TypeOperand.name n).shapeReading :=
  (ofText_name n).trans (ofResolved_name n).symm

/-- The two readings of a dotted name agree: both split it at its dot
and ask for the namespace. -/
theorem textReading_dotted (space name : PlainName) :
    (TypeOperand.dotted space name).textReading = (TypeOperand.dotted space name).shapeReading :=
  (ofText_dotted space name).trans (ofResolved_dotted space name).symm

/-- The reading of the text of an array, from that of its element. The
brackets of the text are found because an operand in front of them shows
no separator. -/
theorem textReading_array (o : TypeOperand) :
    (TypeOperand.array o).textReading = .array (TypeOperand.array o).text none o.textReading :=
  ofText_array o

/-- The reading of the shape of an array, from that of its element.
Together with the lemma above it takes a difference in the element one
level out. -/
theorem shapeReading_array (o : TypeOperand) :
    (TypeOperand.array o).shapeReading = .array (TypeOperand.array o).text none o.shapeReading := by
  rw [TypeOperand.shapeReading, TypeOperand.lowered, Reading.ofResolved,
    TypeOperand.trimString_text]
  rfl

/-- The reading of the text of a name with arguments, from that of the
first argument. -/
theorem textReading_generic (head : TypeName) (args : TypeArgs) :
    (TypeOperand.generic head args).textReading
      = genericReading (TypeOperand.generic head args).text head.toPlainName args.isSingle
          args.first.textReading :=
  ofText_generic head args

/-- The reading of the shape of a name with arguments, likewise. -/
theorem shapeReading_generic (head : TypeName) (args : TypeArgs) :
    (TypeOperand.generic head args).shapeReading
      = genericReading (TypeOperand.generic head args).text head.toPlainName args.isSingle
          args.first.shapeReading :=
  ofResolved_generic head args

/-- Parentheses are no part of the reading of a text. By definition they
are none of the reading of a shape. -/
theorem textReading_parens (e : TypeExpr) : (TypeOperand.parens e).textReading = e.textReading :=
  ofText_parens e

/-- By its text, a union with bare `undefined` is nullable. The last
member is compared with the word, so parentheses around it would spoil
this. -/
theorem textReading_orUndefined_bare (o : TypeOperand) :
    (TypeExpr.orUndefined o 0).textReading
      = .nullable (TypeExpr.orUndefined o 0).text o.textReading :=
  ofText_orUndefined_bare o

/-- By its text, a union whose `undefined` stands in parentheses has no
rule. This is the second difference between the readings. -/
theorem textReading_orUndefined_wrapped (o : TypeOperand) (n : Nat) :
    (TypeExpr.orUndefined o (n + 1)).textReading
      = .atom (TypeExpr.orUndefined o (n + 1)).text none .unknown :=
  ofText_orUndefined_wrapped o n

/-- By its shape, every union with `undefined` is nullable, since
parentheses are left out of the tree. -/
theorem shapeReading_orUndefined (o : TypeOperand) (wraps : Nat) :
    (TypeExpr.orUndefined o wraps).shapeReading
      = .nullable (TypeExpr.orUndefined o wraps).text o.shapeReading := by
  rw [TypeExpr.shapeReading, TypeExpr.lowered, Reading.ofResolved,
    show trimString (TypeExpr.orUndefined o wraps).text = _ from
      trimString_of_tight (TypeExpr.neat _).tight]
  rfl

/-- The reading of a name with arguments carries the text of the whole,
whichever of its three forms it has. -/
theorem text_genericReading (text : String) (head : PlainName) (single : Bool) (first : Reading) :
    (genericReading text head single first).text = text := by
  rw [genericReading]
  split
  · rfl
  · split <;> rfl

mutual

/-- Both readings of an operand carry the same text. The rule for arrays
asks for the text of the element, so this is part of the comparison. -/
theorem TypeOperand.text_textReading :
    (o : TypeOperand) → o.textReading.text = o.shapeReading.text
  | .word w => by
      rw [textReading_word, shapeReading_word]
      rfl
  -- The two readings are one and the same for the forms without parts.
  | .integer n => by rw [textReading_integer]
  | .quoted s => by rw [textReading_quoted]
  | .name n => by rw [textReading_name]
  | .dotted space n => by rw [textReading_dotted]
  | .array element => by
      rw [textReading_array, shapeReading_array]
      rfl
  | .generic head args => by
      rw [textReading_generic, shapeReading_generic, text_genericReading, text_genericReading]
  -- Parentheses are dropped by both, so the recursion is on what they hold.
  | .parens inner => by
      rw [textReading_parens]
      exact inner.text_textReading

/-- Both readings of a type carry the same text, also where they differ
in form. -/
theorem TypeExpr.text_textReading : (e : TypeExpr) → e.textReading.text = e.shapeReading.text
  | .operand o => o.text_textReading
  | .orUndefined o 0 => by
      rw [textReading_orUndefined_bare, shapeReading_orUndefined]
      rfl
  | .orUndefined o (n + 1) => by
      rw [textReading_orUndefined_wrapped, shapeReading_orUndefined]
      rfl

end

/-- The characters of the text of an operand are the printed ones. -/
theorem TypeOperand.toList_text (o : TypeOperand) : o.text.toList = o.print :=
  String.toList_ofList

/-- The same for types. -/
theorem TypeExpr.toList_text (e : TypeExpr) : e.text.toList = e.print :=
  String.toList_ofList

/-- The text of an operand occurs in what is printed for it, as all of
it. -/
theorem TypeOperand.sublist_text (o : TypeOperand) : o.text.toList.Sublist o.print :=
  o.toList_text ▸ List.Sublist.refl o.print

/-- The same for types. -/
theorem TypeExpr.sublist_text (e : TypeExpr) : e.text.toList.Sublist e.print :=
  e.toList_text ▸ List.Sublist.refl e.print

-- A part of a type is written inside of the whole, and a reading has the texts of parts only.
mutual

/-- Every text in the reading of a shape was written down: its
characters occur in the operand in this order. The proof follows the
printing, where the text of a part is put between other characters. -/
theorem TypeOperand.sublist_of_mem_texts :
    (o : TypeOperand) → ∀ text ∈ o.shapeReading.texts, text.toList.Sublist o.print
  | .word w, text, h => by
      rw [shapeReading_word] at h
      cases List.mem_singleton.mp h
      exact List.Sublist.refl w.chars
  | .integer n, text, h => by
      rw [shapeReading_integer] at h
      cases List.mem_singleton.mp h
      exact (TypeOperand.integer n).sublist_text
  | .quoted s, text, h => by
      rw [shapeReading_quoted] at h
      cases List.mem_singleton.mp h
      exact (TypeOperand.quoted s).sublist_text
  | .name n, text, h => by
      rw [TypeOperand.shapeReading, TypeOperand.lowered, ofResolved_name] at h
      cases List.mem_singleton.mp h
      exact (TypeOperand.name n).sublist_text
  | .dotted space n, text, h => by
      rw [TypeOperand.shapeReading, ofResolved_dotted] at h
      cases List.mem_singleton.mp h
      exact (TypeOperand.dotted space n).sublist_text
  | .array element, text, h => by
      rw [shapeReading_array] at h
      cases h with
      | head => exact (TypeOperand.array element).sublist_text
      | tail _ hmem =>
          exact (element.sublist_of_mem_texts text hmem).trans (List.sublist_append_left _ _)
  | .generic head args, text, h => by
      have hwhole := (TypeOperand.generic head args).sublist_text
      -- The first argument is written behind the head and the opening bracket.
      have hfirst : text ∈ args.first.shapeReading.texts →
          text.toList.Sublist (TypeOperand.generic head args).print := fun hmem =>
        (((args.sublist_of_mem_texts text hmem).trans (List.sublist_append_left _ _)).trans
          (List.sublist_cons_self _ _)).trans (List.sublist_append_right _ _)
      rw [shapeReading_generic, genericReading] at h
      -- An array or a promise has the texts of the first argument too.
      split at h
      · cases h with
        | head => exact hwhole
        | tail _ hmem => exact hfirst hmem
      · split at h
        · cases h with
          | head => exact hwhole
          | tail _ hmem => exact hfirst hmem
        · rw [List.mem_singleton.mp h]
          exact hwhole
  | .parens inner, text, h =>
      ((inner.sublist_of_mem_texts text h).trans (List.sublist_append_left _ _)).trans
        (List.sublist_cons_self _ _)

/-- The same for types. The text of a union is new, and the others are
texts of its operand. -/
theorem TypeExpr.sublist_of_mem_texts :
    (e : TypeExpr) → ∀ text ∈ e.shapeReading.texts, text.toList.Sublist e.print
  | .operand o, text, h => o.sublist_of_mem_texts text h
  | .orUndefined o wraps, text, h => by
      rw [shapeReading_orUndefined] at h
      cases h with
      | head => exact (TypeExpr.orUndefined o wraps).sublist_text
      | tail _ hmem =>
          rw [TypeExpr.print, List.append_assoc]
          exact (o.sublist_of_mem_texts text hmem).trans (List.sublist_append_left _ _)

/-- The same for the first of several arguments, the only one with a
reading. -/
theorem TypeArgs.sublist_of_mem_texts :
    (as : TypeArgs) → ∀ text ∈ as.first.shapeReading.texts, text.toList.Sublist as.print
  | .last e, text, h => e.sublist_of_mem_texts text h
  | .more e rest, text, h => by
      rw [TypeArgs.print, List.append_assoc]
      exact (e.sublist_of_mem_texts text h).trans (List.sublist_append_left _ _)

end

/-- A union is longer than its operand, so it is none of the texts of
the operand. -/
theorem not_mem_texts_orUndefined (o : TypeOperand) (wraps : Nat) :
    (TypeExpr.orUndefined o wraps).text ∉ o.shapeReading.texts := by
  intro hmem
  have hlength := (o.sublist_of_mem_texts _ hmem).length_le
  rw [TypeExpr.toList_text, TypeExpr.print] at hlength
  simp only [List.length_append, List.length_cons] at hlength
  omega

/-! ### Obscured unions -/

mutual

/-- The mapping of the operand looks at a union whose `undefined` stands
in parentheses. Behind a name that the scope resolves, or that is
neither an array nor a promise, it does not look. -/
def TypeOperand.isObscured (v : Viewpoint) : TypeOperand → Bool
  | .array element => element.isObscured v
  | .generic head args =>
      (v.locate head.text).isNone
        && (isArrayName head.chars && args.isSingle || head.isPromise) && args.isObscured v
  | .parens inner => inner.isObscured v
  | _ => false

/-- The mapping of the type looks at a union whose `undefined` stands in
parentheses: the type is one, or the operand of a union has one. -/
def TypeExpr.isObscured (v : Viewpoint) : TypeExpr → Bool
  | .operand o => o.isObscured v
  | .orUndefined o wraps => wraps != 0 || o.isObscured v

/-- The mapping of the first argument looks at such a union. The other
arguments are never mapped. -/
def TypeArgs.isObscured (v : Viewpoint) : TypeArgs → Bool
  | .last e => e.isObscured v
  | .more e _ => e.isObscured v

end

/-- This is about the first argument alone. No rule looks at a second
one. -/
theorem TypeArgs.isObscured_first (v : Viewpoint) (as : TypeArgs) :
    as.isObscured v = as.first.isObscured v := by
  cases as <;> rfl

/-- No word of the language names anything at the origin. A declaration
with the name of a word would hide it in a text and not in a shape. -/
def Viewpoint.HidesNoWord (v : Viewpoint) : Prop :=
  ∀ w : TypeWord, v.index.hasName v.origin w.text = false

/-- Then asking the scope for a word gives nothing, so the rule of the
word is in force in both readings. -/
theorem Viewpoint.HidesNoWord.locate {v : Viewpoint} (h : v.HidesNoWord) (w : TypeWord) :
    v.locate w.text = none := by
  simp [Viewpoint.locate, h w]

section

variable {v : Viewpoint}

/-! ### Agreement -/

/-- The mapping of an array depends on the mapping of its element and on
the text of the element, which may name a primitive. -/
theorem mapReading_array_congr {text : String} {symbol : Option String} {r r' : Reading}
    (ht : r.text = r'.text) (h : ∀ p, v.mapReading p r = v.mapReading p r') (p : Position) :
    v.mapReading p (.array text symbol r) = v.mapReading p (.array text symbol r') := by
  simp only [Viewpoint.mapReading, ht, h]

/-- The mapping of a promise depends on that of its argument only, at
the position inside of the brackets. -/
theorem mapReading_promise_congr {text : String} {symbol : Option String} {r r' : Reading}
    (h : ∀ p, v.mapReading p r = v.mapReading p r') (p : Position) :
    v.mapReading p (.promise text symbol r) = v.mapReading p (.promise text symbol r') := by
  simp only [Viewpoint.mapReading, h]

/-- Behind a name that the scope resolves, the arguments do not matter:
the rules that look at them are hidden. -/
theorem mapReading_genericReading_of_located {head : PlainName} {l : Location}
    (hl : v.locate head.text = some l) (text : String) (single : Bool) (r r' : Reading)
    (p : Position) :
    v.mapReading p (genericReading text head single r)
      = v.mapReading p (genericReading text head single r') := by
  rw [genericReading, genericReading]
  split
  · exact Viewpoint.symbolOr_of_locate_eq_some hl _ _ _ _
  · split
    · exact Viewpoint.symbolOr_of_locate_eq_some hl _ _ _ _
    · rfl

mutual

/-- An operand that is not obscured maps like its text: to the same
type, with the same imports and events. The induction needs this at
every position, since parts are mapped at other positions than the
whole. -/
theorem TypeOperand.mapReading_eq_of_not_isObscured (hv : v.HidesNoWord) :
    (o : TypeOperand) → o.isObscured v = false → ∀ p,
      v.mapReading p o.textReading = v.mapReading p o.shapeReading
  | .word w, _, p => by
      rw [textReading_word, shapeReading_word]
      exact Viewpoint.symbolOr_of_locate_eq_none (hv.locate w) _ _ _
  | .integer n, _, p => by rw [textReading_integer]
  | .quoted s, _, p => by rw [textReading_quoted]
  | .name n, _, p => by rw [textReading_name]
  | .dotted space n, _, p => by rw [textReading_dotted]
  | .array element, h, p => by
      rw [textReading_array, shapeReading_array]
      exact mapReading_array_congr element.text_textReading
        (element.mapReading_eq_of_not_isObscured hv h) p
  | .generic head args, h, p => by
      rw [textReading_generic, shapeReading_generic]
      -- A located head is answered by itself. Otherwise it depends on the first argument, but
      -- only for an array or a promise.
      cases hl : v.locate head.text with
      | some l => exact mapReading_genericReading_of_located hl _ _ _ _ p
      | none =>
          simp only [TypeOperand.isObscured, hl, Option.isNone_none, Bool.true_and] at h
          rw [genericReading, genericReading]
          split
          · rename_i harray
            rw [harray, Bool.true_or, Bool.true_and] at h
            exact mapReading_array_congr args.first.text_textReading
              (args.mapReading_eq_of_not_isObscured hv h) p
          · split
            · rename_i hpromise
              rw [hpromise, Bool.or_true, Bool.true_and] at h
              exact mapReading_promise_congr (args.mapReading_eq_of_not_isObscured hv h) p
            · rfl
  | .parens inner, h, p => by
      rw [textReading_parens]
      exact inner.mapReading_eq_of_not_isObscured hv h p

/-- A type that is not obscured maps like its text. A union in it has
bare `undefined`, so both readings are nullable. -/
theorem TypeExpr.mapReading_eq_of_not_isObscured (hv : v.HidesNoWord) :
    (e : TypeExpr) → e.isObscured v = false → ∀ p,
      v.mapReading p e.textReading = v.mapReading p e.shapeReading
  | .operand o, h, p => o.mapReading_eq_of_not_isObscured hv h p
  | .orUndefined o 0, h, p => by
      rw [textReading_orUndefined_bare, shapeReading_orUndefined]
      simp only [Viewpoint.mapReading, o.mapReading_eq_of_not_isObscured hv h p]
  | .orUndefined o (n + 1), h, p => by simp [TypeExpr.isObscured] at h

/-- The same for the first argument, which is all that a rule looks at. -/
theorem TypeArgs.mapReading_eq_of_not_isObscured (hv : v.HidesNoWord) :
    (as : TypeArgs) → as.isObscured v = false → ∀ p,
      v.mapReading p as.first.textReading = v.mapReading p as.first.shapeReading
  | .last e, h, p => e.mapReading_eq_of_not_isObscured hv h p
  | .more e _, h, p => e.mapReading_eq_of_not_isObscured hv h p

end

/-! ### Disagreement -/

mutual

/-- An obscured operand is not spelled like a name: it ends in a
bracket, or is a union in parentheses. -/
theorem TypeOperand.isName_text_of_isObscured :
    (o : TypeOperand) → o.isObscured v = true → isName o.shapeReading.text.toList = false
  | .array element, _ => by
      rw [shapeReading_array, Reading.text, TypeOperand.text, String.toList_ofList]
      exact isName_eq_false_of_mem (c := ']') (by simp [TypeOperand.print])
        (not_isNamePart_of_mem_punctuation (by decide))
  -- A closing bracket is no part of a name, so one in the text is enough.
  | .generic head args, _ => by
      rw [shapeReading_generic, text_genericReading, TypeOperand.text, String.toList_ofList]
      exact isName_eq_false_of_mem (c := '>') (by simp [TypeOperand.print])
        (not_isNamePart_of_mem_punctuation (by decide))
  | .parens inner, h => inner.isName_text_of_isObscured h
  | .word _, h | .integer _, h | .quoted _, h | .name _, h | .dotted _ _, h => nomatch h

/-- Nor is an obscured type, where a union shows its bar. So no array
with such an element has a type of its own for primitives. -/
theorem TypeExpr.isName_text_of_isObscured :
    (e : TypeExpr) → e.isObscured v = true → isName e.shapeReading.text.toList = false
  | .operand o, h => o.isName_text_of_isObscured h
  | .orUndefined o wraps, _ => by
      rw [shapeReading_orUndefined, Reading.text, TypeExpr.text, String.toList_ofList]
      exact isName_eq_false_of_mem (c := '|') (by simp [TypeExpr.print])
        (not_isNamePart_of_mem_punctuation (by decide))

end

/-- Only the names of three words make an array of primitives, so the
element decides where it is no name. -/
theorem primitiveArray?_of_not_isName {text : String} (h : isName text.toList = false) :
    primitiveArray? text = none := by
  have hne : ∀ w : TypeWord, text ≠ w.text := by
    rintro w rfl
    rw [show w.text.toList = w.chars from rfl, w.isName_chars] at h
    cases h
  have hstring : text ≠ "string" := hne .string
  have hnumber : text ≠ "number" := hne .number
  have hboolean : text ≠ "boolean" := hne .boolean
  simp [primitiveArray?, hstring, hnumber, hboolean]

/-- An array whose element is not spelled like a name reports what the
element reports. -/
theorem events_mapReading_array {text : String} {r : Reading}
    (h : isName r.text.toList = false) (p : Position) :
    (v.mapReading p (.array text none r)).events = (v.mapReading p.quietly r).events := by
  simp [Viewpoint.mapReading, Viewpoint.symbolOr, primitiveArray?_of_not_isName h]

/-- A name with arguments that the scope does not resolve reports what
its argument reports, if it is an array or a promise. -/
theorem events_mapReading_genericReading {head : PlainName} (hl : v.locate head.text = none)
    {single : Bool} (hlooks : (isArrayName head.chars && single || head.isPromise) = true)
    (text : String) {r : Reading} (h : isName r.text.toList = false) (p : Position) :
    (v.mapReading p (genericReading text head single r)).events
      = (v.mapReading p.quietly r).events := by
  rw [genericReading]
  split
  · rw [Viewpoint.mapReading, Viewpoint.symbolOr_of_locate_eq_none hl]
    simp [primitiveArray?_of_not_isName h]
  · rename_i harray
    simp only [harray, Bool.false_or] at hlooks
    rw [if_pos hlooks, Viewpoint.mapReading, Viewpoint.symbolOr_of_locate_eq_none hl]
    simp

mutual

/-- An obscured operand reports other events than its text. The
difference starts at the union and is passed on by every form around
it. -/
theorem TypeOperand.events_ne_of_isObscured :
    (o : TypeOperand) → o.isObscured v = true → ∀ p,
      (v.mapReading p o.textReading).events ≠ (v.mapReading p o.shapeReading).events
  | .array element, h, p => by
      have hname := element.isName_text_of_isObscured h
      rw [textReading_array, shapeReading_array, events_mapReading_array hname,
        events_mapReading_array (by rwa [element.text_textReading])]
      exact element.events_ne_of_isObscured h p.quietly
  | .generic head args, h, p => by
      simp only [TypeOperand.isObscured, Bool.and_eq_true, Option.isNone_iff_eq_none] at h
      obtain ⟨⟨hl, hlooks⟩, hargs⟩ := h
      -- An obscured argument is no name, so no rule for primitive arrays hides its events.
      have hname : isName args.first.shapeReading.text.toList = false := by
        rw [TypeArgs.isObscured_first] at hargs
        exact args.first.isName_text_of_isObscured hargs
      rw [textReading_generic, shapeReading_generic,
        events_mapReading_genericReading hl hlooks _ hname,
        events_mapReading_genericReading hl hlooks _ (by rwa [args.first.text_textReading])]
      exact args.events_ne_of_isObscured hargs p.quietly
  | .parens inner, h, p => by
      rw [textReading_parens]
      exact inner.events_ne_of_isObscured h p
  | .word _, h, _ | .integer _, h, _ | .quoted _, h, _ | .name _, h, _ | .dotted _ _, h, _ =>
      nomatch h

/-- An obscured type reports other events than its text. The text
reports a missing rule for the whole union, and no part of its operand
has that text. -/
theorem TypeExpr.events_ne_of_isObscured :
    (e : TypeExpr) → e.isObscured v = true → ∀ p,
      (v.mapReading p e.textReading).events ≠ (v.mapReading p e.shapeReading).events
  | .operand o, h, p => o.events_ne_of_isObscured h p
  | .orUndefined o 0, h, p => by
      rw [textReading_orUndefined_bare, shapeReading_orUndefined]
      simpa [Viewpoint.mapReading] using o.events_ne_of_isObscured h p
  | .orUndefined o (n + 1), _, p => by
      -- The text misses a rule for the whole union, the shape at most for parts of its operand.
      intro heq
      have hmem : Event.noMappingRule (TypeExpr.orUndefined o (n + 1)).text
          ∈ (v.mapReading p o.shapeReading).events := by
        rw [textReading_orUndefined_wrapped, shapeReading_orUndefined] at heq
        simp only [Viewpoint.mapReading, Viewpoint.symbolOr, Viewpoint.mapAtom, Draft.events_bind,
          Draft.events_report, Draft.events_pure, List.append_nil] at heq
        rw [← heq]
        exact .head _
      obtain ⟨text, htext, hevent⟩ := exists_text_of_mem_events hmem
      cases hevent
      exact not_mem_texts_orUndefined o (n + 1) htext

/-- The same for the first argument. -/
theorem TypeArgs.events_ne_of_isObscured :
    (as : TypeArgs) → as.isObscured v = true → ∀ p,
      (v.mapReading p as.first.textReading).events
        ≠ (v.mapReading p as.first.shapeReading).events
  | .last e, h, p => e.events_ne_of_isObscured h p
  | .more e _, h, p => e.events_ne_of_isObscured h p

end

/-- A position whose type was not resolved is read by its text. This
connects the left-hand side of the comparison to the scanners. -/
theorem Reading.of_unresolved_text (e : TypeExpr) :
    Reading.of (.unresolved e.text) = e.textReading := by
  rw [Reading.of, TypeText.ofString, TypeExpr.text, String.toList_ofList]
  rfl

/-- A position whose type has its concrete tree is read by its shape,
wherever the tree begins in the source. -/
theorem Reading.of_toTypeRef_node (start : Nat) (e : TypeExpr) :
    Reading.of (e.node start).toTypeRef = e.shapeReading := by
  rw [e.toTypeRef_node]
  rfl

end

end Externals
