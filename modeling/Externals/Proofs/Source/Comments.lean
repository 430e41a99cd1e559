import Externals.Proofs.Source.Shape
import Externals.Source.Token

/-!
# `Externals.Proofs.Source.Comments`: comments in types

A comment is a node where a type may stand, and not every reader of types
passes over it. This module compares a type with the same type without
comments (`TypeNode.uncommented`), up to the texts that are kept.

Comments count in three places.

* Where a shape is read. Annotations and parentheses are read by their
  first node, so a comment before the type is taken for it and one behind
  it is not seen. A union reads all its nodes. A type with a comment in
  such a place is `Masked`: it has no shape (`isSome_shape?_iff`), and as
  a part of another type it is of shape `other`.
* Among the arguments of a reference, where each is one argument more.
* In a name, which loses its blanks and keeps its comments.

`Altered` is what the last two, and masked parts, do to a type that still
has a shape. A union shows little of its members: only in one type with
`undefined` can a member be altered (`shape?_union_uncommented`).

* `TypeNode.bare_toTypeRef_uncommented_iff`: a type is what it is without
  comments exactly if they neither mask nor alter it.
* `toTypeRef_uncommented_iff`: the same for annotations and for the bases
  of interfaces, with the number of bases and arguments that comments add.
-/

set_option autoImplicit false

namespace Externals

/-! ### Comments in names -/

namespace Text

/-- Blanks are what squeezing drops, wherever they stand. -/
theorem squeeze_eq_filter (cs : List Char) : squeeze cs = cs.filter fun c => !isBlank c := by
  unfold squeeze
  induction cs with
  | nil => rfl
  | cons c cs ih =>
      rw [words]
      -- A blank ends a word and is dropped; any other character opens a word or joins the one in
      -- front, and either way it is kept.
      split
      · rename_i hblank
        rw [ih, List.filter_cons_of_neg (by simp [hblank])]
      · rename_i hblank
        rw [List.filter_cons_of_pos (by simp [hblank]), ← ih]
        split
        · rfl
        · split <;> rename_i hwords <;> simp [hwords]

/-- So what is left is as long as the text has ink. Comments are
compared by this number. -/
theorem length_squeeze (cs : List Char) : (squeeze cs).length = ink cs := by
  rw [squeeze_eq_filter, ink, List.countP_eq_length_filter]

end Text

namespace Source

open Text

/-- A text without its comments. A comment goes up to its end, or to the
end of the text if it has none, and nothing in it begins another. -/
def dropComments : List Char → List Char
  | [] => []
  | c :: cs =>
      match commentExtent? c cs with
      | some n => dropComments (cs.drop n)
      | none => c :: dropComments cs
termination_by cs => cs.length
decreasing_by
  · simp only [List.length_cons, List.length_drop]
    omega
  · simp

/-- A comment begins somewhere in a text: two slashes, or a slash and a
star. -/
def HasComment (cs : List Char) : Prop := ['/', '/'] <:+: cs ∨ ['/', '*'] <:+: cs

/-- Two characters begin a text, said of the first one and what
follows. -/
theorem pair_prefix_cons_iff {a b c : Char} {cs : List Char} :
    [a, b] <+: c :: cs ↔ c = a ∧ cs.head? = some b := by
  cases cs with
  | nil => simp
  | cons d ds => simp [eq_comm]

/-- A comment begins at the first character or later. -/
theorem hasComment_cons {c : Char} {cs : List Char} :
    HasComment (c :: cs) ↔ (commentExtent? c cs).isSome = true ∨ HasComment cs := by
  -- A comment starts at a slash that another slash or a star follows.
  have hextent : (commentExtent? c cs).isSome = true
      ↔ ['/', '/'] <+: c :: cs ∨ ['/', '*'] <+: c :: cs := by
    rw [pair_prefix_cons_iff, pair_prefix_cons_iff, commentExtent?]
    by_cases hslash : c = '/'
    · by_cases hline : cs.head? = some '/'
      · simp [hslash, hline]
      · by_cases hblock : cs.head? = some '*'
        · simp [hslash, hblock]
        · simp [hslash, hline, hblock]
    · simp [hslash]
  rw [HasComment, HasComment, hextent, List.infix_cons_iff, List.infix_cons_iff, or_or_or_comm]

/-- Dropping comments adds no ink. -/
theorem ink_dropComments_le (cs : List Char) : ink (dropComments cs) ≤ ink cs := by
  -- A comment is skipped, and what is skipped may have had ink; the rest is copied.
  fun_induction dropComments cs with
  | case1 => exact Nat.le_refl _
  | case2 c cs n h ih =>
      have hdrop : ink (cs.drop n) ≤ ink cs := (List.drop_sublist n cs).countP_le
      rw [ink_cons]
      omega
  | case3 c cs h ih =>
      rw [ink_cons, ink_cons]
      omega

/-- A comment takes at least its slash along. So a text with a comment
has less ink without it, and cannot be the same. -/
theorem ink_dropComments_lt {cs : List Char} (h : HasComment cs) :
    ink (dropComments cs) < ink cs := by
  fun_induction dropComments cs with
  | case1 => simp [HasComment] at h
  | case2 c cs n hn ih =>
      -- A comment starts here: its slash is ink, and it is gone from the result.
      have hdrop : ink (cs.drop n) ≤ ink cs := (List.drop_sublist n cs).countP_le
      have hle := ink_dropComments_le (cs.drop n)
      have hslash : c = '/' := by
        unfold commentExtent? at hn
        by_contra hne
        simp [hne] at hn
      rw [ink_cons, hslash, if_neg (by decide)]
      omega
  | case3 c cs hn ih =>
      -- None starts here, so the comment is further on.
      have hlater := (hasComment_cons.mp h).resolve_left (by simp [hn])
      have hfewer := ih hlater
      rw [ink_cons, ink_cons]
      omega

/-- A text without comments stays as it is. -/
theorem dropComments_of_not_hasComment {cs : List Char} (h : ¬ HasComment cs) :
    dropComments cs = cs := by
  fun_induction dropComments cs with
  | case1 => rfl
  | case2 c cs n hn ih => exact absurd (hasComment_cons.mpr (.inl (by simp [hn]))) h
  | case3 c cs hn ih => rw [ih fun hlater => h (hasComment_cons.mpr (.inr hlater))]

/-- A name without its comments. -/
def nameUncommented (name : String) : String := String.ofList (dropComments name.toList)

/-- A name is as it was without its comments exactly if it has none.
Blanks do not count in this comparison, as a name loses them anyway. -/
theorem squeezeString_nameUncommented {name : String} :
    squeezeString name = squeezeString (nameUncommented name) ↔ ¬ HasComment name.toList := by
  rw [squeezeString, squeezeString, nameUncommented, String.toList_ofList]
  refine ⟨fun heq h => ?_, fun h => by rw [dropComments_of_not_hasComment h]⟩
  have hlength := congrArg String.length heq
  rw [String.length_ofList, String.length_ofList, length_squeeze, length_squeeze] at hlength
  exact Nat.ne_of_gt (ink_dropComments_lt h) hlength

/-! ### Trees without comments -/

namespace TypeNode

/-- A node that is a comment. -/
def isComment : TypeNode → Bool
  | comment _ => true
  | _ => false

mutual

/-- A type without the comments in it. An array begins with its element,
so that comments can only stand behind it. -/
def uncommented : TypeNode → TypeNode
  | qualified s => qualified ⟨s.start, nameUncommented s.text⟩
  | generic s head args => generic s (nameUncommented head) (uncommentedAll args)
  | array s (element :: behind) => array s (uncommented element :: uncommentedAll behind)
  | parens s children => parens s (uncommentedAll children)
  | union s members => union s (uncommentedAll members)
  | node => node

/-- The types among nodes, without comments. -/
def uncommentedAll : List TypeNode → List TypeNode
  | [] => []
  | node :: nodes =>
      if node.isComment then uncommentedAll nodes else uncommented node :: uncommentedAll nodes

end

/-- A comment among nodes is left out. -/
theorem uncommentedAll_cons_of_comment {node : TypeNode} (h : node.isComment = true)
    (nodes : List TypeNode) : uncommentedAll (node :: nodes) = uncommentedAll nodes := by
  rw [uncommentedAll, if_pos h]

/-- Any other node stays, without the comments in it. -/
theorem uncommentedAll_cons_of_type {node : TypeNode} (h : ¬ node.isComment = true)
    (nodes : List TypeNode) :
    uncommentedAll (node :: nodes) = uncommented node :: uncommentedAll nodes := by
  rw [uncommentedAll, if_neg h]

/-- Each comment is one node less. -/
theorem length_uncommentedAll (nodes : List TypeNode) :
    nodes.length = (uncommentedAll nodes).length + nodes.countP isComment := by
  induction nodes with
  | nil => rfl
  | cons node nodes ih =>
      -- A comment is counted and left out; a type stays.
      by_cases h : node.isComment = true
      · rw [uncommentedAll_cons_of_comment h, List.countP_cons_of_pos h, List.length_cons]
        omega
      · rw [uncommentedAll_cons_of_type h, List.countP_cons_of_neg h, List.length_cons,
          List.length_cons]
        omega

/-- Where no node is a comment all of them stay. -/
theorem uncommentedAll_eq_map {nodes : List TypeNode}
    (h : ∀ node ∈ nodes, ¬ node.isComment = true) :
    uncommentedAll nodes = nodes.map uncommented := by
  induction nodes with
  | nil => rfl
  | cons node nodes ih =>
      rw [uncommentedAll_cons_of_type (h node (.head _)), List.map_cons,
        ih fun other hother => h other (.tail _ hother)]

/-- What is made of the nodes of a list one by one is as without
comments exactly if no node is a comment and each gives what it gives
without the comments in it. If one is a comment, the lists have
different lengths. -/
theorem map_uncommentedAll_iff {α : Type} (f : TypeNode → α) (nodes : List TypeNode) :
    nodes.map f = (uncommentedAll nodes).map f
      ↔ ∀ node ∈ nodes, ¬ node.isComment = true ∧ f node = f node.uncommented := by
  constructor
  · intro heq
    -- With a comment there would be more on the left.
    have hlength := congrArg List.length heq
    rw [List.length_map, List.length_map, length_uncommentedAll] at hlength
    have hnone : ∀ node ∈ nodes, ¬ node.isComment = true :=
      List.countP_eq_zero.mp (by omega)
    rw [uncommentedAll_eq_map hnone, List.map_map] at heq
    exact fun node hnode => ⟨hnone node hnode, List.map_inj_left.mp heq node hnode⟩
  · intro h
    rw [uncommentedAll_eq_map fun node hnode => (h node hnode).1, List.map_map]
    exact List.map_inj_left.mpr fun node hnode => (h node hnode).2

/-- A node without parts has no comments in it, and may be one. -/
theorem uncommented_of_leaf {node : TypeNode} (h : node.hasParts = false) :
    node.uncommented = node := by
  cases node with
  | qualified s => cases h
  | generic s head args => cases h
  | array s children => cases h
  | parens s children => cases h
  | union s members => cases h
  | _ => rfl

/-! ### Where a comment counts -/

/-- A comment stands where a shape is read: in place of the type, as the
first node in parentheses, or among the members of a union. -/
inductive Masked : TypeNode → Prop
  | comment (s : Fragment) : Masked (comment s)
  | parens {s : Fragment} {inner : TypeNode} {behind : List TypeNode} (h : Masked inner) :
      Masked (parens s (inner :: behind))
  | union {s : Fragment} {members : List TypeNode} {member : TypeNode} (hmem : member ∈ members)
      (h : Masked member) : Masked (union s members)

/-- A type that would be a part of special shape without comments, but
not with them. One that would be of shape `other` anyway loses nothing. -/
def Lost (node : TypeNode) : Prop := Masked node ∧ node.uncommented.partShape ≠ .plain "" .other

/-- A comment changes the shape of a type that has one: it counts as a
part of a name, as an argument, or changes an argument, an element or the
type that is nullable. -/
inductive Altered : TypeNode → Prop
  | qualified {s : Fragment} (h : HasComment s.text.toList) : Altered (qualified s)
  | head {s : Fragment} {head : String} {args : List TypeNode} (h : HasComment head.toList) :
      Altered (generic s head args)
  | commentArg {s : Fragment} {head : String} {args : List TypeNode} {arg : TypeNode}
      (hmem : arg ∈ args) (h : arg.isComment = true) : Altered (generic s head args)
  | lostArg {s : Fragment} {head : String} {args : List TypeNode} {arg : TypeNode}
      (hmem : arg ∈ args) (h : Lost arg) : Altered (generic s head args)
  | arg {s : Fragment} {head : String} {args : List TypeNode} {arg : TypeNode}
      (hmem : arg ∈ args) (hshown : ¬ Masked arg) (h : Altered arg) : Altered (generic s head args)
  | lostElement {s : Fragment} {element : TypeNode} {behind : List TypeNode} (h : Lost element) :
      Altered (array s (element :: behind))
  | element {s : Fragment} {element : TypeNode} {behind : List TypeNode} (hshown : ¬ Masked element)
      (h : Altered element) : Altered (array s (element :: behind))
  | parens {s : Fragment} {inner : TypeNode} {behind : List TypeNode} (h : Altered inner) :
      Altered (parens s (inner :: behind))
  | nullable {s : Fragment} {member last : TypeNode} (hlast : last.isUndefined = true)
      (h : Altered member) : Altered (union s [member, last])

/-- Comments change what is made of a type: they take its shape away or
give it another. -/
def Changed (node : TypeNode) : Prop :=
  (Masked node ∧ node.uncommented.shape?.isSome = true) ∨ (¬ Masked node ∧ Altered node)

/-- A comment masks itself. -/
theorem Masked.of_isComment {node : TypeNode} (h : node.isComment = true) : Masked node := by
  cases node with
  | comment s => exact .comment s
  | _ => cases h

/-- What is not masked is no comment. -/
theorem not_isComment {node : TypeNode} (h : ¬ Masked node) : ¬ node.isComment = true :=
  fun hcomment => h (.of_isComment hcomment)

/-- Parentheses are masked by their first node only. -/
theorem masked_parens_iff {s : Fragment} {inner : TypeNode} {behind : List TypeNode} :
    Masked (parens s (inner :: behind)) ↔ Masked inner := by
  refine ⟨fun h => ?_, .parens⟩
  cases h with
  | parens h => exact h

/-- A union is masked by any of its members. -/
theorem masked_union_iff {s : Fragment} {members : List TypeNode} :
    Masked (union s members) ↔ ∃ member ∈ members, Masked member := by
  constructor
  · intro h
    cases h with
    | union hmem h => exact ⟨_, hmem, h⟩
  · rintro ⟨member, hmem, h⟩
    exact .union hmem h

/-- In a union that is not masked no member is a comment, so leaving out
comments keeps their number. -/
theorem not_masked_union {s : Fragment} {members : List TypeNode} (h : ¬ Masked (union s members)) :
    (∀ member ∈ members, ¬ Masked member) ∧ uncommentedAll members = members.map uncommented := by
  have hshown : ∀ member ∈ members, ¬ Masked member :=
    fun member hmem hmember => h (.union hmem hmember)
  exact ⟨hshown, uncommentedAll_eq_map fun member hmem => not_isComment (hshown member hmem)⟩

/-- A type has a shape exactly if it has one without comments and none
of them masks it. -/
theorem isSome_shape?_iff (node : TypeNode) :
    node.shape?.isSome = true ↔ ¬ Masked node ∧ node.uncommented.shape?.isSome = true := by
  induction node using parts_induction with
  | leaf node hleaf =>
      rw [uncommented_of_leaf hleaf, iff_and_self]
      intro hsome hmasked
      cases hmasked with
      | comment s => simp [shape?, resolve?] at hsome
      | parens h => cases hleaf
      | union hmem h => cases hleaf
  | qualified s =>
      simp only [uncommented, shape?_qualified, Option.isSome_some, and_true, true_iff]
      rintro ⟨⟩
  | generic s head args ih =>
      simp only [uncommented, shape?_generic, Option.isSome_some, and_true, true_iff]
      rintro ⟨⟩
  | array s children ih =>
      cases children with
      | nil => simp [uncommented, shape?, resolve?]
      | cons element behind =>
          simp only [uncommented, shape?_array, Option.isSome_some, and_true, true_iff]
          rintro ⟨⟩
  | parens s children ih =>
      cases children with
      | nil => simp [uncommented, uncommentedAll, shape?, resolve?]
      | cons inner behind =>
          rw [shape?_parens, ih inner (.head _), masked_parens_iff]
          refine and_congr_right fun hshown => ?_
          rw [uncommented, uncommentedAll_cons_of_type (not_isComment hshown), shape?_parens]
  | union s members ih =>
      rw [isSome_shape?_union]
      constructor
      -- The members with their comments have a shape, so none of them is masked or a comment.
      · intro hall
        have hparts := fun member hmem => (ih member hmem).mp (hall member hmem)
        have hshown : ¬ Masked (union s members) := by
          rw [masked_union_iff]
          rintro ⟨member, hmem, hmember⟩
          exact (hparts member hmem).1 hmember
        refine ⟨hshown, ?_⟩
        rw [uncommented, (not_masked_union hshown).2, isSome_shape?_union, List.forall_mem_map]
        exact fun member hmem => (hparts member hmem).2
      · rintro ⟨hshown, hall⟩ member hmem
        obtain ⟨hmembers, hmap⟩ := not_masked_union hshown
        rw [uncommented, hmap, isSome_shape?_union, List.forall_mem_map] at hall
        exact (ih member hmem).mpr ⟨hmembers member hmem, hall member hmem⟩

/-- A masked type has no shape. -/
theorem shape?_of_masked {node : TypeNode} (h : Masked node) : node.shape? = none := by
  rw [← Option.not_isSome_iff_eq_none, isSome_shape?_iff]
  exact fun hsome => hsome.1 h

/-- Comments do not hide that a type is `undefined`, unless they mask
it. -/
theorem isUndefined_uncommented {node : TypeNode} (h : ¬ Masked node) :
    node.uncommented.isUndefined = node.isUndefined := by
  induction node using parts_induction with
  | leaf node hleaf => rw [uncommented_of_leaf hleaf]
  | qualified s => simp [uncommented, isUndefined]
  | generic s head args ih => simp [uncommented, isUndefined]
  | array s children ih => cases children <;> simp [uncommented, isUndefined]
  | parens s children ih =>
      cases children with
      | nil => rw [uncommented, uncommentedAll]
      | cons inner behind =>
          -- The first child is what counts; as it is not masked, it is no comment and stays first.
          have hshown : ¬ Masked inner := fun hinner => h (.parens hinner)
          rw [uncommented, uncommentedAll_cons_of_type (not_isComment hshown), isUndefined,
            isUndefined, ih inner (.head _) hshown]
  | union s members ih => simp [uncommented, isUndefined]

/-- Comments change a type as a part of another: it loses its shape, or
has a different one. -/
def ChangedPart (node : TypeNode) : Prop := Lost node ∨ (¬ Masked node ∧ Altered node)

/-- A reference is altered by a comment in its name, by one among its
arguments, or by an argument that is changed. -/
theorem altered_generic_iff {s : Fragment} {head : String} {args : List TypeNode} :
    Altered (generic s head args)
      ↔ HasComment head.toList ∨ ∃ arg ∈ args, arg.isComment = true ∨ ChangedPart arg := by
  constructor
  · intro h
    cases h with
    | head h => exact .inl h
    | commentArg hmem h => exact .inr ⟨_, hmem, .inl h⟩
    | lostArg hmem h => exact .inr ⟨_, hmem, .inr (.inl h)⟩
    | arg hmem hshown h => exact .inr ⟨_, hmem, .inr (.inr ⟨hshown, h⟩)⟩
  · rintro (h | ⟨arg, hmem, h | h | ⟨hshown, h⟩⟩)
    · exact .head h
    · exact .commentArg hmem h
    · exact .lostArg hmem h
    · exact .arg hmem hshown h

/-- An array is altered if its element is changed. -/
theorem altered_array_iff {s : Fragment} {element : TypeNode} {behind : List TypeNode} :
    Altered (array s (element :: behind)) ↔ ChangedPart element := by
  constructor
  · intro h
    cases h with
    | lostElement h => exact .inl h
    | element hshown h => exact .inr ⟨hshown, h⟩
  · rintro (h | ⟨hshown, h⟩)
    · exact .lostElement h
    · exact .element hshown h

/-- Parentheses are altered if their first node is. -/
theorem altered_parens_iff {s : Fragment} {inner : TypeNode} {behind : List TypeNode} :
    Altered (parens s (inner :: behind)) ↔ Altered inner := by
  refine ⟨fun h => ?_, .parens⟩
  cases h with
  | parens h => exact h

/-- As a part, a type has the shape it has without comments exactly if
they do not change it there. The hypothesis is what the induction gives
for the part. -/
theorem partShape_uncommented_iff {node : TypeNode}
    (h : ¬ Masked node → (node.shape? = node.uncommented.shape? ↔ ¬ Altered node)) :
    node.partShape = node.uncommented.partShape ↔ ¬ ChangedPart node := by
  by_cases hmasked : Masked node
  · rw [partShape, shape?_of_masked hmasked, Option.getD_none, ChangedPart, Lost]
    simp [hmasked, eq_comm]
  · -- There are two shapes or none, since nothing is masked.
    have hsome := isSome_shape?_iff node
    rw [ChangedPart, Lost, partShape, partShape]
    simp only [hmasked, false_and, false_or, not_false_eq_true, true_and, ← h hmasked] at hsome ⊢
    cases hnode : node.shape? <;> cases hbare : node.uncommented.shape? <;>
      simp [hnode, hbare] at hsome ⊢

/-- The loose shape of a union depends on the number of members and on
the last one, and comments within members change neither. -/
theorem looseShape_map_uncommented {members : List TypeNode}
    (h : ∀ member ∈ members, ¬ Masked member) :
    looseShape (members.map uncommented) = looseShape members := by
  have hlast : (members.map uncommented).getLast?.any isUndefined
      = members.getLast?.any isUndefined := by
    rw [List.getLast?_map]
    cases hlast : members.getLast? with
    | none => rfl
    | some last => exact isUndefined_uncommented (h last (List.mem_of_getLast? hlast))
  rw [looseShape, looseShape, hlast, List.length_map]

/-- Comments within the members of a union only change it if it is one
type with `undefined`. -/
theorem shape?_union_uncommented {s : Fragment} {members : List TypeNode}
    (hloose : ∀ member last, members = [member, last] → last.isUndefined = false)
    (h : ¬ Masked (union s members)) :
    (union s members).shape? = (union s members).uncommented.shape? := by
  obtain ⟨hshown, hmap⟩ := not_masked_union h
  have hsome := isSome_shape?_iff (union s members)
  simp only [h, not_false_eq_true, true_and] at hsome
  -- Either both unions have a shape or neither; neither is a type or `undefined`, so where
  -- they have a shape it is made from all the members.
  by_cases hall : (union s members).shape?.isSome = true
  · have hbare := hsome.mp hall
    rw [uncommented, hmap] at hbare ⊢
    rw [isSome_shape?_union] at hall hbare
    have hlooseMap : ∀ member last,
        members.map uncommented = [member, last] → last.isUndefined = false := by
      intro member last heq
      obtain ⟨first, rest, rfl, rfl, hrest⟩ := List.map_eq_cons_iff.mp heq
      obtain ⟨second, rest, rfl, rfl, hnil⟩ := List.map_eq_cons_iff.mp hrest
      obtain rfl := List.map_eq_nil_iff.mp hnil
      rw [isUndefined_uncommented (hshown second (.tail _ (.head _)))]
      exact hloose first second rfl
    rw [shape?_union_loose hloose hall, shape?_union_loose hlooseMap hbare,
      looseShape_map_uncommented hshown]
  · rw [Option.not_isSome_iff_eq_none.mp hall,
      Option.not_isSome_iff_eq_none.mp fun hbare => hall (hsome.mpr hbare)]

/-- A union is altered only as one type with `undefined`, if that type
is. -/
theorem altered_union_iff {s : Fragment} {members : List TypeNode} :
    Altered (union s members)
      ↔ ∃ member last, members = [member, last] ∧ last.isUndefined = true ∧ Altered member := by
  refine ⟨fun h => ?_, ?_⟩
  · cases h with
    | nullable hlast h => exact ⟨_, _, rfl, hlast, h⟩
  · rintro ⟨member, last, rfl, hlast, h⟩
    exact .nullable hlast h

/-- A type that is not masked has the shape it has without comments
exactly if they do not alter it. -/
theorem shape?_uncommented_iff {node : TypeNode} (h : ¬ Masked node) :
    node.shape? = node.uncommented.shape? ↔ ¬ Altered node := by
  induction node using parts_induction with
  | leaf node hleaf =>
      rw [uncommented_of_leaf hleaf]
      simp only [true_iff]
      intro haltered
      cases haltered <;> cases hleaf
  | qualified s =>
      have haltered : Altered (qualified s) ↔ HasComment s.text.toList := by
        refine ⟨fun h => ?_, .qualified⟩
        cases h with
        | qualified h => exact h
      rw [uncommented, shape?_qualified, shape?_qualified, haltered,
        ← squeezeString_nameUncommented]
      simp
  | generic s head args ih =>
      rw [uncommented, shape?_generic, shape?_generic, altered_generic_iff]
      simp only [Option.some.injEq, ResolvedType.reference.injEq, true_and,
        squeezeString_nameUncommented, map_uncommentedAll_iff, not_or, not_exists, not_and]
      refine and_congr_right fun _ => forall₂_congr fun arg hmem => and_congr_right fun _ => ?_
      exact partShape_uncommented_iff (ih arg hmem)
  | array s children ih =>
      cases children with
      | nil =>
          simp only [uncommented, true_iff]
          rintro ⟨⟩
      | cons element behind =>
          rw [uncommented, shape?_array, shape?_array, altered_array_iff,
            ← partShape_uncommented_iff (ih element (.head _))]
          simp
  | parens s children ih =>
      cases children with
      | nil =>
          simp only [uncommented, uncommentedAll, true_iff]
          rintro ⟨⟩
      | cons inner behind =>
          have hshown : ¬ Masked inner := fun hinner => h (.parens hinner)
          rw [uncommented, uncommentedAll_cons_of_type (not_isComment hshown), shape?_parens,
            shape?_parens, altered_parens_iff, ih inner (.head _) hshown]
  | union s members ih =>
      -- Only a pair with `undefined` shows the shape of a member.
      rw [altered_union_iff]
      by_cases hpair : ∃ member last, members = [member, last] ∧ last.isUndefined = true
      · obtain ⟨member, last, rfl, hlast⟩ := hpair
        obtain ⟨hshown, hmap⟩ := not_masked_union h
        have hmember := hshown member (.head _)
        have hbare := (isUndefined_uncommented (hshown last (.tail _ (.head _)))).trans hlast
        rw [uncommented, hmap, List.map_cons, List.map_cons, List.map_nil,
          shape?_union_pair hlast, shape?_union_pair hbare,
          (Option.map_injective fun _ _ heq => (ResolvedType.nullable.inj heq).2).eq_iff,
          ih member (.head _) hmember]
        simp [hlast]
      · have hloose : ∀ member last, members = [member, last] → last.isUndefined = false := by
          intro member last heq
          rw [← Bool.not_eq_true]
          exact fun hlast => hpair ⟨member, last, heq, hlast⟩
        refine iff_of_true (shape?_union_uncommented hloose h) ?_
        rintro ⟨member, last, heq, hlast, -⟩
        exact hpair ⟨member, last, heq, hlast⟩

/-- What is made of a type is as without comments exactly if they do not
change it. -/
theorem bare_toTypeRef_uncommented_iff (node : TypeNode) :
    node.toTypeRef.bare = node.uncommented.toTypeRef.bare ↔ ¬ Changed node := by
  rw [bare_toTypeRef_inj, Changed]
  by_cases hmasked : Masked node
  · rw [shape?_of_masked hmasked, eq_comm, ← Option.not_isSome_iff_eq_none]
    simp [hmasked]
  · rw [shape?_uncommented_iff hmasked]
    simp [hmasked]

/-- Each node is one part, also a comment. -/
theorem length_resolveParts (nodes : List TypeNode) :
    (resolveParts nodes).length = nodes.length := by
  rw [← List.length_map ResolvedType.bare, map_bare_resolveParts, List.length_map]

end TypeNode

/-! ### Annotations and bases -/

namespace Typing

/-- An annotation without comments. -/
def uncommented : Typing → Typing
  | type children => type (TypeNode.uncommentedAll children)
  | predicate source => predicate source

/-- Comments change what is made of an annotation, which is read by its
first node, as parentheses are. -/
def Changed : Typing → Prop
  | type children => (TypeNode.parens default children).Changed
  | predicate _ => False

/-- An annotation is read like parentheses, wherever these would stand. -/
theorem bare_toTypeRef_type (s : Fragment) (children : List TypeNode) :
    (type children).toTypeRef.bare = (TypeNode.parens s children).toTypeRef.bare := by
  cases children with
  | nil => simp [toTypeRef, TypeNode.toTypeRef, TypeNode.resolve?, TypeRef.bare]
  | cons node behind =>
      rw [toTypeRef, TypeNode.bare_toTypeRef_inj, TypeNode.shape?_parens]

end Typing

/-- What comments do to types. An annotation is what it is without
comments exactly if they do not change it. An interface has one base more
for each comment among its bases, and the bases are what they are without
comments exactly if there is none and no base is changed. A reference has
one argument more for each comment among its arguments. -/
theorem toTypeRef_uncommented_iff (typing : Typing) (name : String) (bases : List TypeNode)
    (members : List MemberNode) (s : Fragment) (head : String) (args : List TypeNode) :
    (typing.toTypeRef.bare = typing.uncommented.toTypeRef.bare ↔ ¬ typing.Changed)
      ∧ (∃ d d' : InterfaceDecl,
          (StatementNode.interfaceDecl name bases members).toStatement? = some (.interfaceDecl d)
          ∧ (StatementNode.interfaceDecl name (TypeNode.uncommentedAll bases) members).toStatement?
            = some (.interfaceDecl d')
          ∧ d.bases.length = d'.bases.length + bases.countP TypeNode.isComment
          ∧ (d.bases.map TypeRef.bare = d'.bases.map TypeRef.bare
            ↔ ∀ base ∈ bases, ¬ base.isComment = true ∧ ¬ base.Changed))
      ∧ ∃ (called called' : String) (types types' : List ResolvedType),
          (TypeNode.generic s head args).resolve? = some (.reference s.text called types)
          ∧ (TypeNode.generic s head args).uncommented.resolve?
            = some (.reference s.text called' types')
          ∧ types.length = types'.length + args.countP TypeNode.isComment := by
  -- In turn: the type itself, the bases of an interface, the arguments of a generic type.
  refine ⟨?_, ?_, ?_⟩
  · cases typing with
    | type children =>
        rw [Typing.uncommented, Typing.bare_toTypeRef_type default,
          Typing.bare_toTypeRef_type default, Typing.Changed,
          ← TypeNode.bare_toTypeRef_uncommented_iff, TypeNode.uncommented]
    | predicate source => exact iff_of_true rfl id
  · refine ⟨_, _, rfl, rfl, ?_, ?_⟩
    · rw [List.length_map, List.length_map, TypeNode.length_uncommentedAll]
    · rw [List.map_map, List.map_map, TypeNode.map_uncommentedAll_iff]
      simp only [Function.comp_apply, TypeNode.bare_toTypeRef_uncommented_iff]
  · refine ⟨_, _, _, _, by rw [TypeNode.resolve?], by rw [TypeNode.uncommented, TypeNode.resolve?],
      ?_⟩
    rw [TypeNode.length_resolveParts, TypeNode.length_resolveParts, TypeNode.length_uncommentedAll]

/-- A type behind a comment. -/
def commentFirst : Typing := .type [.comment ⟨8, "/* c */"⟩, .predefined ⟨16, "string"⟩]

/-- The comment is taken for the type. -/
theorem not_bare_toTypeRef_commentFirst :
    commentFirst.toTypeRef.bare ≠ commentFirst.uncommented.toTypeRef.bare := by
  simp [commentFirst, Typing.uncommented, Typing.toTypeRef, TypeNode.toTypeRef,
    TypeNode.uncommentedAll, TypeNode.isComment, TypeNode.uncommented, TypeNode.resolve?,
    TypeRef.bare]

end Source

end Externals
