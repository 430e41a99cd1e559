import Externals.Proofs.Mapping.Nullable

/-!
# `Externals.Proofs.Mapping.Descent`: reading a text comes to an end

Reading a text goes on with the types that are read out of it: what is left
of a union without `undefined`, the element of an array, the argument of a
promise. Nothing about the text keeps this from going on forever in an
obvious way. It need not be balanced, taking off parentheses can bring new
members of a union to the top level, and the members that are left of a
union are put together again with more blanks than they had, so that the text
may well be longer than the one it came from.

What does go down is the ink, for any text (`TypeText.IsPart.ink_lt`).
So there is no infinite descent, and no more texts are ever open at once than
the text has characters that are not blank, and one.

* `Reading.within`: the reading of a text with a bound on the texts that are
  open at once. It has no result if the bound is too small.
* `Reading.within_of_ink_lt`: the bound that is always large enough.
* `TypeText.exists_longer_inner`: there is no bound on how much longer the
  text gets.
* `Viewpoint.map_text_ends`: the law.
-/

set_option autoImplicit false

namespace Externals

open Text

/-! ### Parts -/

namespace TypeText

/-- A type is read directly out of another: it is what is left without
`undefined`, the element or the argument. -/
def IsPart (u t : TypeText) : Prop :=
  t.nullableInner? = some u ∨ t.element? = some u ∨ t.promise? = some (some u)

/-- A part has less ink, whichever of the three it is: an `undefined`, a
pair of brackets or the name of a promise is gone. -/
theorem IsPart.ink_lt {u t : TypeText} (h : u.IsPart t) : ink u.chars < ink t.chars := by
  rcases h with hinner | helement | hargument
  · exact ink_nullableInner? hinner
  · exact ink_element? helement
  · exact ink_promise? hargument

/-- So nothing goes on forever along parts. -/
theorem wellFounded_isPart : WellFounded IsPart :=
  Subrelation.wf IsPart.ink_lt (measure fun t : TypeText => ink t.chars).wf

end TypeText

/-! ### Readings within a bound -/

namespace Reading

/-- The reading of a text when at most `n` texts may be open at once: the
text, one that is read out of it, and so on. -/
def within : Nat → TypeText → Option Reading
  | 0, _ => none
  | n + 1, t =>
      match t.nullableInner? with
      | some inner => (within n inner).map (nullable (trimString t.text))
      | none => do
          let element ← t.element?.mapM (within n)
          let promise ← t.promise?.mapM fun argument => argument.mapM (within n)
          return ofAnswers (trimString t.text) t.symbol? t.qualified? t.isString t.isBoolean
            t.isNumber element t.isVoid promise t.isDynamic t.isSelf

/-- If all parts can be read with one text less, the text can be read. -/
theorem within_succ {n : Nat} {t : TypeText}
    (h : ∀ u, TypeText.IsPart u t → within n u = some (ofText u)) :
    within (n + 1) t = some (ofText t) := by
  rw [within, ofText_eq]
  cases hinner : t.nullableInner? with
  | some inner => simp only [h inner (.inl hinner), Option.map_some]
  | none =>
      -- The hypothesis covers every text this one is read through: what it makes nullable, its
      -- element and the argument of its promise.
      have helement : t.element?.mapM (within n) = some (t.element?.map ofText) := by
        cases hpart : t.element? with
        | none => rfl
        | some element => simp [h element (.inr (.inl hpart))]
      have hpromise : (t.promise?.mapM fun argument => argument.mapM (within n))
          = some (t.promise?.map fun argument => argument.map ofText) := by
        cases hpart : t.promise? with
        | none => rfl
        | some argument =>
            cases argument with
            | none => rfl
            | some argument => simp [h argument (.inr (.inr hpart))]
      simp only [helement, hpromise]
      rfl

/-- More texts than there is ink are never open at once. The bound is
one more than the ink, since the text itself is open too. -/
theorem within_of_ink_lt {n : Nat} {t : TypeText} (h : ink t.chars < n) :
    within n t = some (ofText t) := by
  -- On the bound: opening a part takes one from it and at least one from the ink.
  induction n generalizing t with
  | zero => exact absurd h (Nat.not_lt_zero _)
  | succ n ih =>
      refine within_succ fun u hpart => ih ?_
      have hless := hpart.ink_lt
      omega

end Reading

/-! ### Longer parts -/

namespace TypeText

/-- A union of names of one letter and `undefined`, with no blank in it. -/
def tightUnion : Nat → List Char
  | 0 => "undefined".toList
  | n + 1 => 'a' :: '|' :: tightUnion n

/-- Each name adds itself and a bar. -/
theorem length_tightUnion (n : Nat) : (tightUnion n).length = 2 * n + 9 := by
  induction n with
  | zero => rfl
  | succ n ih =>
      show (tightUnion n).length + 1 + 1 = _
      omega

/-- There is no bracket and no arrow in such a union. -/
theorem closed_tightUnion (n : Nat) : Closed (fun _ => false) (tightUnion n) := by
  induction n with
  | zero => decide
  | succ n ih =>
      have hname : Closed (fun _ => false) ['a', '|'] := by decide
      exact hname.append ih

/-- Its members are the names and `undefined`. -/
theorem splitTopLevel_tightUnion (n : Nat) :
    splitTopLevel '|' (tightUnion n) = List.replicate n ['a'] ++ ["undefined".toList] := by
  induction n with
  | zero => decide
  | succ n ih =>
      have hfirst : Closed (· == '|') ['a'] := by decide
      have hcut := splitTopLevel_closed_append rfl rfl (by decide) hfirst (tightUnion n)
      rw [ih] at hcut
      exact hcut

/-- The members of such a union put together again, with blanks around
the bars: this is where the text grows. -/
def spacedUnion (n : Nat) : List Char :=
  [' ', '|', ' '].intercalate (List.replicate (n + 1) ['a'])

/-- One more name in front, with a bar and two blanks. -/
theorem spacedUnion_succ (n : Nat) :
    spacedUnion (n + 1) = ['a'] ++ [' ', '|', ' '] ++ spacedUnion n := by
  rw [spacedUnion, List.replicate_succ, List.replicate_succ, List.intercalate_cons_cons,
    ← List.replicate_succ]
  rfl

/-- Each name but the last adds itself, a bar and two blanks. -/
theorem length_spacedUnion (n : Nat) : (spacedUnion n).length = 4 * n + 1 := by
  induction n with
  | zero => rfl
  | succ n ih =>
      rw [spacedUnion_succ, List.length_append, ih]
      simp only [List.length_append, List.length_cons, List.length_nil]
      omega

/-- There are no blanks at its ends, so none is trimmed off. -/
theorem tight_spacedUnion (n : Nat) : Tight (spacedUnion n) := by
  have hname : Tight ['a'] := ⟨⟨'a', rfl, by decide⟩, ⟨'a', rfl, by decide⟩⟩
  induction n with
  | zero => exact hname
  | succ n ih =>
      rw [spacedUnion_succ]
      exact hname.append ih

/-- It begins with a name, so it is in no parentheses. -/
theorem enclosed?_spacedUnion (n : Nat) : enclosed? (spacedUnion n) = none := by
  cases n with
  | zero => rfl
  | succ n =>
      rw [spacedUnion_succ]
      rfl

/-- What is left of the tight union without `undefined` is the spaced
one. Both have `n + 1` names. -/
theorem nullableInner?_tightUnion (n : Nat) :
    nullableInner? ⟨tightUnion (n + 1)⟩ = some ⟨spacedUnion n⟩ := by
  have hof : of ([' ', '|', ' '].intercalate (List.replicate (n + 1) ['a'])) = ⟨spacedUnion n⟩ :=
    of_of_enclosed?_none (tight_spacedUnion n) (enclosed?_spacedUnion n)
  have hmembers := splitTopLevel_tightUnion (n + 1)
  simp only [nullableInner?, hasTopLevelArrow_of_closed (closed_tightUnion (n + 1)), hmembers,
    List.dropLast_concat, List.getLast?_concat, hof]
  rfl

/-- What is left of a union can be longer than the union by any length.
The union loses the ten characters of `|undefined` and gains two blanks
for every other bar, so enough names outweigh the loss. -/
theorem exists_longer_inner (n : Nat) :
    ∃ t inner : TypeText, t.nullableInner? = some inner
      ∧ t.chars.length + n ≤ inner.chars.length := by
  refine ⟨_, _, nullableInner?_tightUnion (n + 5), ?_⟩
  show (tightUnion (n + 6)).length + n ≤ (spacedUnion (n + 5)).length
  rw [length_tightUnion, length_spacedUnion]
  omega

end TypeText

/-- Reading ends for every text, balanced or not. A part has less ink than
the text it is read out of, so there is no infinite descent along parts, and
with more texts open at once than the text has ink every reading is found
and maps to what the text maps to. The length of the text is no such bound:
a part can be longer by any length. -/
theorem Viewpoint.map_text_ends (v : Viewpoint) (p : Position) :
    (∀ t u : TypeText, u.IsPart t → ink u.chars < ink t.chars)
      ∧ WellFounded TypeText.IsPart
      ∧ (∀ (text : String) (n : Nat), ink text.toList < n →
          (Reading.within n (TypeText.ofString text)).map (v.mapReading p)
            = some (v.map p (.unresolved text)))
      ∧ ∀ n, ∃ t u : TypeText, u.IsPart t ∧ t.chars.length + n ≤ u.chars.length := by
  refine ⟨fun t u => TypeText.IsPart.ink_lt, TypeText.wellFounded_isPart, fun text n hn => ?_,
    fun n => ?_⟩
  · -- Trimming and taking off parentheses add no ink.
    have hink : ink (TypeText.ofString text).chars ≤ ink text.toList :=
      TypeText.ink_of_le text.toList
    rw [Reading.within_of_ink_lt (Nat.lt_of_le_of_lt hink hn)]
    rfl
  · obtain ⟨t, inner, hinner, hlength⟩ := TypeText.exists_longer_inner n
    exact ⟨t, inner, .inl hinner, hlength⟩

end Externals
