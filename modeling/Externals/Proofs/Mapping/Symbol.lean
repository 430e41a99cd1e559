import Externals.Proofs.Mapping.Agreement

/-!
# `Externals.Proofs.Mapping.Symbol`: types that refer to a plain name

A type position may refer to a plain name, its *symbol*. Where the name
is located, the mapping answers with the name itself and asks for
whatever import it needs; no other rule is looked at.

The reading of a position puts `T | undefined` before the symbol. These
two never meet: a text with a symbol is a name, or ends with a bracket,
so its last union member is not `undefined`.

* `Reading.symbol?_of`: the reading of a position keeps its symbol.
* `Viewpoint.map_of_locate`: a position with a located symbol is mapped
  to the symbol.
-/

set_option autoImplicit false

namespace Externals

open Text

/-! ### Texts that end with a bracket -/

namespace Text

/-- Closing brackets stand at the end of the last segment. They are no
separators, so the last segment is not empty and ends as the text does. -/
theorem getLast_segments (sep : Char) {c : Char} (hc : isClosing c = true) (cs : List Char)
    (before : Char) (depth : Int) (h : cs.getLast? = some c) :
    ∃ ss s, segments sep before depth cs = ss ++ [s] ∧ s.getLast? = some c := by
  induction cs generalizing before depth with
  | nil => cases h
  | cons d cs ih =>
      cases cs with
      | nil =>
          have hd : d = c := by simpa using h
          subst hd
          exact ⟨[], [d], by simp [segments, hc], rfl⟩
      | cons e cs =>
          obtain ⟨ss, s, hrest, hs⟩ := ih d (depthAfter before d depth) h
          rw [segments, hrest]
          -- The first character starts a segment or goes in front of one: the last end stays.
          split
          · exact ⟨[] :: ss, s, rfl, hs⟩
          · cases ss with
            | nil =>
                refine ⟨[], d :: s, rfl, ?_⟩
                rw [List.getLast?_cons, hs]
                rfl
            | cons first ss => exact ⟨(d :: first) :: ss, s, rfl, hs⟩

/-- Trimming keeps a last character that is no blank. -/
theorem getLast?_trim {cs : List Char} {c : Char} (hc : isBlank c = false)
    (h : cs.getLast? = some c) : (trim cs).getLast? = some c := by
  obtain ⟨front, rfl⟩ := List.getLast?_eq_some_iff.mp h
  -- A last character with ink survives the trimming from the left, and it stops the one from
  -- the right.
  have hleft : ∃ front', trimLeft (front ++ [c]) = front' ++ [c] := by
    rw [trimLeft, List.dropWhile_append]
    split
    · exact ⟨[], by simp [hc]⟩
    · exact ⟨_, rfl⟩
  obtain ⟨front', hfront⟩ := hleft
  rw [trim, hfront, trimRight, List.reverse_append]
  simp [hc]

/-- If the last segment is not empty, all segments are kept and
trimmed. -/
theorem trimSegments_append (ss : List (List Char)) {s : List Char}
    (hs : (trim s).isEmpty = false) :
    trimSegments (ss ++ [s]) = ss.map trim ++ [trim s] := by
  -- With ink in the last segment nothing is left out, so trimming is done segment by
  -- segment.
  induction ss with
  | nil => simp [trimSegments, hs]
  | cons t ss ih =>
      cases ss with
      | nil => simp [trimSegments, hs]
      | cons u ss =>
          rw [List.cons_append, List.cons_append, trimSegments, List.map_cons, List.cons_append,
            ← ih]
          rfl

/-- What follows the last separator of a text that ends with a bracket
ends with that bracket. -/
theorem getLast_splitTopLevel (sep : Char) {c : Char} (hc : isClosing c = true) {cs : List Char}
    (h : cs.getLast? = some c) :
    ∃ s, (splitTopLevel sep cs).getLast? = some s ∧ s.getLast? = some c := by
  obtain ⟨ss, s, hsegments, hs⟩ := getLast_segments sep hc cs ' ' 0 h
  -- A closing bracket is no blank, so the last segment keeps it and is not left out.
  have hblank : isBlank c = false := by
    rw [isClosing] at hc
    simp only [Bool.or_eq_true, beq_iff_eq] at hc
    rcases hc with ((rfl | rfl) | rfl) | rfl <;> decide
  have hlast := getLast?_trim hblank hs
  have hne : (trim s).isEmpty = false := by
    cases ht : trim s with
    | nil => simp [ht] at hlast
    | cons d ds => rfl
  refine ⟨trim s, ?_, hlast⟩
  rw [splitTopLevel, hsegments, trimSegments_append _ hne, List.getLast?_concat]

/-- Where nothing is left behind the bracket that closes, the text ends
with that bracket. -/
theorem getLast_of_untilClosed {before : Char} {depth : Int} {cs inside : List Char}
    (h : untilClosed before depth cs = some (inside, [])) :
    ∃ c, cs.getLast? = some c ∧ isClosing c = true := by
  -- The search stops behind the bracket that closes; with nothing left over, that bracket is
  -- the last character.
  induction cs generalizing before depth inside with
  | nil => cases h
  | cons d cs ih =>
      rw [untilClosed] at h
      dsimp only at h
      split at h
      · rename_i hclose
        cases h
        simp only [Bool.and_eq_true] at hclose
        exact ⟨d, rfl, hclose.1.1⟩
      · obtain ⟨⟨inner, after⟩, hrest, hpair⟩ := Option.map_eq_some_iff.mp h
        obtain rfl : after = [] := congrArg Prod.snd hpair
        obtain ⟨c, hc, hclosing⟩ := ih hrest
        exact ⟨c, by rw [List.getLast?_cons, hc]; rfl, hclosing⟩

/-- A generic form ends with a bracket. -/
theorem getLast_of_splitGeneric {cs : List Char} {g : List Char × List Char}
    (h : splitGeneric cs = some g) : ∃ c, cs.getLast? = some c ∧ isClosing c = true := by
  rw [splitGeneric] at h
  split at h
  · cases h
  · rename_i d rest hdrop
    split at h
    · rename_i inside hclosed
      obtain ⟨c, hc, hclosing⟩ := getLast_of_untilClosed hclosed
      refine ⟨c, ?_, hclosing⟩
      rw [← List.takeWhile_append_dropWhile (p := (· != '<')) (l := cs), hdrop,
        List.getLast?_append, List.getLast?_cons, hc]
      rfl
    · cases h

end Text

/-! ### Symbols of readings -/

/-- A text that refers to a plain name is not `T | undefined`. -/
theorem TypeText.nullableInner?_of_symbol? {t : TypeText} {name : String}
    (h : t.symbol? = some name) : t.nullableInner? = none := by
  rw [symbol?] at h
  split at h
  · rename_i hname
    exact nullableInner?_of_neat (PlainName.neat ⟨t.chars, hname⟩)
  · obtain ⟨g, hgeneric, -⟩ := Option.map_eq_some_iff.mp h
    obtain ⟨c, hlast, hc⟩ := getLast_of_splitGeneric (Option.filter_eq_some_iff.mp hgeneric).1
    obtain ⟨s, hmember, hs⟩ := getLast_splitTopLevel '|' hc hlast
    -- The last member ends with a bracket, and `undefined` with a letter.
    have hne : s ≠ "undefined".toList := by
      rintro rfl
      have hd : c = 'd' := by simpa using hs.symm
      rw [hd] at hc
      exact absurd hc (by decide)
    simp only [nullableInner?, hmember]
    split
    · rfl
    · rw [if_neg]
      rw [Bool.and_eq_true, beq_iff_eq, Option.some.injEq]
      exact fun hundefined => hne hundefined.1

namespace Reading

/-- The plain name a reading may refer to. -/
def symbol? : Reading → Option String
  | nullable _ _ => none
  | array _ symbol _ => symbol
  | promise _ symbol _ => symbol
  | atom _ symbol _ => symbol

/-- The answers to all other questions do not change the symbol. -/
theorem symbol?_ofAnswers (text : String) (symbol : Option String)
    (qualified : Option (String × String)) (isString isBoolean isNumber : Bool)
    (element : Option Reading) (isVoid : Bool) (promise : Option (Option Reading))
    (isDynamic isSelf : Bool) :
    (ofAnswers text symbol qualified isString isBoolean isNumber element isVoid promise isDynamic
      isSelf).symbol? = symbol := by
  unfold ofAnswers
  repeat' split
  all_goals rfl

/-- The reading of a text has the symbol of the text. -/
theorem symbol?_ofText {t : TypeText} {name : String} (h : t.symbol? = some name) :
    (ofText t).symbol? = some name := by
  rw [ofText_eq, TypeText.nullableInner?_of_symbol? h]
  dsimp only
  rw [symbol?_ofAnswers, h]

/-- The reading of a resolved type has its symbol. Only references have
one. -/
theorem symbol?_ofResolved {t : ResolvedType} {name : String} (h : t.symbol? = some name) :
    (ofResolved t).symbol? = some name := by
  cases t with
  | reference text n args =>
      rw [ofResolved, symbol?_ofAnswers, h]
  | plain text shape => cases h
  | array text element => cases h
  | nullable text inner => cases h

/-- The reading of a position has the symbol of the position. -/
theorem symbol?_of {type : TypeRef} {name : String} (h : type.describe.symbol = some name) :
    (Reading.of type).symbol? = some name := by
  cases type with
  | resolved t => exact symbol?_ofResolved h
  | unresolved text => exact symbol?_ofText h

end Reading

/-! ### Located symbols -/

/-- A located name is a name of the chain. A viewpoint asks for this
first. -/
theorem SymbolIndex.hasName_of_locate {ix : SymbolIndex} {id : Nat} {name : String} {l : Location}
    (h : ix.locate id name = some l) : ix.hasName id name = true := by
  obtain ⟨i, hi, hat⟩ := List.exists_of_findSome?_eq_some h
  rw [hasName, List.any_eq_true]
  refine ⟨i, hi, ?_⟩
  -- What a scope locates it declares or imports, and either makes the name known there.
  rw [locateAt] at hat
  split at hat
  · rename_i hdeclares
    rw [hdeclares, Bool.true_or]
  · split at hat
    · rename_i himport
      rw [himport, Option.isSome_some, Bool.or_true]
    · cases hat

namespace Viewpoint

/-- So a name that is located from a scope is located from the viewpoint
within it. -/
theorem locate_within {ix : SymbolIndex} {id : Nat} {name : String} {l : Location}
    (h : ix.locate id name = some l) : (within ix id).locate name = some l := by
  rw [Viewpoint.locate, within, if_pos (SymbolIndex.hasName_of_locate h), h]

/-- A reading with a located symbol is answered by the name, with the
line that brings it in. All its other parts are rules that the name
hides. -/
theorem mapReading_of_locate {v : Viewpoint} {r : Reading} {name : String} {l : Location}
    (hr : r.symbol? = some name) (hl : v.locate name = some l) (p : Position) :
    (v.mapReading p r).value.base = name
      ∧ (v.mapReading p r).imports = (v.importFor? name l).toList := by
  have hsymbol : ∀ text rule, (v.symbolOr p text (some name) rule).value.base = name
      ∧ (v.symbolOr p text (some name) rule).imports = (v.importFor? name l).toList := by
    intro text rule
    simp [symbolOr, resolve, hl, Position.annotate]
  -- A located symbol is used before the rule is looked at, so the three forms that carry a
  -- symbol are alike.
  cases r with
  | nullable text inner => cases hr
  | array text symbol element =>
      cases hr
      exact hsymbol text _
  | promise text symbol argument =>
      cases hr
      exact hsymbol text _
  | atom text symbol atom =>
      cases hr
      exact hsymbol text _

/-- A located symbol is answered by its name, whatever the type is, and
with its import. -/
theorem map_of_locate {v : Viewpoint} {type : TypeRef} {name : String} {l : Location}
    (htype : type.describe.symbol = some name) (hl : v.locate name = some l) (p : Position) :
    (v.map p type).value.base = name ∧ (v.map p type).imports = (v.importFor? name l).toList :=
  mapReading_of_locate (Reading.symbol?_of htype) hl p

end Viewpoint

end Externals
