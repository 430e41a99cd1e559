import Externals.Source.Resolve
import Mathlib.Data.List.Basic

/-!
# `Externals.Proofs.Source.Shape`: types up to their texts

A resolved type keeps the text of each of its nodes. What remains
without the texts is the shape of the type, and this module gives the
shape of every form of type by the shapes of its parts:

* a reference or an array has a shape whatever its parts are, a part
  without one is of shape `other` there (`shape?_generic`,
  `shape?_array`);
* parentheses are read by their first node alone (`shape?_parens`);
* a union has a shape if all its members have one
  (`isSome_shape?_union`). Of one type with `undefined` it is that type,
  nullable (`shape?_union_pair`); all others depend on no more than the
  number of members and whether the last is `undefined`
  (`shape?_union_loose`).

`parts_induction` is the induction over a type that these forms call for.
-/

set_option autoImplicit false

namespace Externals

/-! ### Types up to their texts -/

namespace ResolvedType

mutual

/-- A type without the texts of its nodes. -/
def bare : ResolvedType → ResolvedType
  | plain _ shape => plain "" shape
  | array _ element => array "" (bare element)
  | nullable _ inner => nullable "" (bare inner)
  | reference _ name args => reference "" name (bareAll args)

/-- Types without the texts of their nodes. -/
def bareAll : List ResolvedType → List ResolvedType
  | [] => []
  | type :: types => bare type :: bareAll types

end

/-- It is the types one by one. The recursion is written out because
types are nested in lists. -/
theorem bareAll_eq (types : List ResolvedType) : bareAll types = types.map bare := by
  induction types with
  | nil => rfl
  | cons type types ih => rw [bareAll, ih, List.map_cons]

end ResolvedType

/-- A type position without the texts in it. -/
def TypeRef.bare : TypeRef → TypeRef
  | resolved type => resolved type.bare
  | unresolved _ => unresolved ""

namespace Source

open Text

namespace TypeNode

/-! ### Forms of types -/

/-- A type that is made of others, or of several names. All others are
leaves to the induction below. -/
def hasParts : TypeNode → Bool
  | qualified _ | generic .. | array .. | parens .. | union .. => true
  | _ => false

/-- Induction over a type and its parts. The parts stand in lists, so
the hypothesis is about all members of a list. -/
@[elab_as_elim]
theorem parts_induction {motive : TypeNode → Prop}
    (leaf : ∀ node, node.hasParts = false → motive node)
    (qualified : ∀ s, motive (.qualified s))
    (generic : ∀ s head args, (∀ arg ∈ args, motive arg) → motive (.generic s head args))
    (array : ∀ s children, (∀ child ∈ children, motive child) → motive (.array s children))
    (parens : ∀ s children, (∀ child ∈ children, motive child) → motive (.parens s children))
    (union : ∀ s members, (∀ member ∈ members, motive member) → motive (.union s members)) :
    ∀ node, motive node
  | .qualified s => qualified s
  | .generic s head args => generic s head args fun arg _ =>
      parts_induction leaf qualified generic array parens union arg
  | .array s children => array s children fun child _ =>
      parts_induction leaf qualified generic array parens union child
  | .parens s children => parens s children fun child _ =>
      parts_induction leaf qualified generic array parens union child
  | .union s members => union s members fun member _ =>
      parts_induction leaf qualified generic array parens union member
  | .predefined s => leaf (.predefined s) rfl
  | .literal s kind => leaf (.literal s kind) rfl
  | .template s => leaf (.template s) rfl
  | .self s => leaf (.self s) rfl
  | .name s => leaf (.name s) rfl
  | .other s => leaf (.other s) rfl
  | .comment s => leaf (.comment s) rfl

/-! ### Shapes -/

/-- The shape of a type, if it has one. -/
def shape? (node : TypeNode) : Option ResolvedType := node.resolve?.map ResolvedType.bare

/-- The shape that a type has as a part of another. A part without a
shape is not left out but is of shape `other`. -/
def partShape (node : TypeNode) : ResolvedType := node.shape?.getD (.plain "" .other)

/-- Type positions are alike exactly if the types in them have the same
shape, or none. -/
theorem bare_toTypeRef_inj {node other : TypeNode} :
    node.toTypeRef.bare = other.toTypeRef.bare ↔ node.shape? = other.shape? := by
  rw [toTypeRef, toTypeRef, shape?, shape?]
  cases node.resolve? <;> cases other.resolve? <;> simp [TypeRef.bare]

/-- Without texts, a part that is resolved has this shape. -/
theorem bare_resolvePart (node : TypeNode) : node.resolvePart.bare = node.partShape := by
  rw [resolvePart, partShape, shape?]
  cases node.resolve? with
  | none => simp [ResolvedType.bare]
  | some type => rfl

/-- So do several parts, one by one. -/
theorem map_bare_resolveParts (nodes : List TypeNode) :
    (resolveParts nodes).map ResolvedType.bare = nodes.map partShape := by
  induction nodes with
  | nil => rw [resolveParts, List.map_nil, List.map_nil]
  | cons node nodes ih =>
      rw [resolveParts, List.map_cons, List.map_cons, ih, bare_resolvePart]

/-- A reference always has a shape: its name without blanks, with the
shapes of its arguments. -/
theorem shape?_generic (s : Fragment) (head : String) (args : List TypeNode) :
    (generic s head args).shape?
      = some (.reference "" (squeezeString head) (args.map partShape)) := by
  simp [shape?, resolve?, ResolvedType.bare, ResolvedType.bareAll_eq, map_bare_resolveParts]

/-- A dotted name is a reference without arguments. -/
theorem shape?_qualified (s : Fragment) :
    (qualified s).shape? = some (.reference "" (squeezeString s.text) []) := by
  simp [shape?, resolve?, ResolvedType.bare, ResolvedType.bareAll]

/-- An array has the shape of its first node as its element. What stands
behind it is not read. -/
theorem shape?_array (s : Fragment) (element : TypeNode) (behind : List TypeNode) :
    (array s (element :: behind)).shape? = some (.array "" element.partShape) := by
  simp [shape?, resolve?, ResolvedType.bare, bare_resolvePart]

/-- Parentheses have the shape of their first node, if it has one. -/
theorem shape?_parens (s : Fragment) (inner : TypeNode) (behind : List TypeNode) :
    (parens s (inner :: behind)).shape? = inner.shape? := by
  rw [shape?, resolve?, shape?]

/-- The type `undefined`, as a keyword or as a name, perhaps in
parentheses. Only the first node in parentheses counts. -/
def isUndefined : TypeNode → Bool
  | literal _ .undefined => true
  | name s => s.text = "undefined"
  | parens _ (inner :: _) => isUndefined inner
  | _ => false

/-- Types are resolved together if each of them is resolved. -/
theorem resolveAll?_eq_some_iff {nodes : List TypeNode} {types : List ResolvedType} :
    resolveAll? nodes = some types ↔ nodes.map resolve? = types.map some := by
  induction nodes generalizing types with
  | nil => cases types <;> simp [resolveAll?]
  | cons node nodes ih =>
      rw [resolveAll?]
      -- One node that does not resolve makes all fail.
      cases hnode : node.resolve? with
      | none => cases types <;> simp [hnode]
      | some type =>
          cases types with
          | nil => cases resolveAll? nodes <;> simp
          | cons first rest => cases hnodes : resolveAll? nodes <;> simp [hnode, ← ih, hnodes]

/-- A union has a shape if all its members have one. -/
theorem isSome_shape?_union {s : Fragment} {members : List TypeNode} :
    (union s members).shape?.isSome = true ↔ ∀ member ∈ members, member.shape?.isSome = true := by
  rw [shape?, resolve?, Option.isSome_map, Option.isSome_map]
  induction members with
  | nil => simp [resolveAll?]
  | cons member members ih =>
      rw [resolveAll?, List.forall_mem_cons, ← ih, shape?, Option.isSome_map]
      cases member.resolve? with
      | none => simp
      | some type => cases resolveAll? members <;> simp

/-- No predefined type is `undefined`, which is a literal. -/
theorem predefinedShape_ne_undefined (name : String) : predefinedShape name ≠ .undefined := by
  unfold predefinedShape
  split <;> exact nofun

/-- No union is, whatever its members are. -/
theorem unionType_ne_undefined (whole : Fragment) (sources : List Fragment)
    (types : List ResolvedType) (text : String) :
    unionType whole sources types ≠ .plain text .undefined := by
  unfold unionType
  split
  · split <;> exact nofun
  · exact nofun

/-- No other type is resolved as `undefined`. So a union can be told by
its nodes whether it is one with `undefined`. -/
theorem isUndefined_iff (node : TypeNode) :
    node.isUndefined = true ↔ ∃ text, node.resolve? = some (.plain text .undefined) := by
  -- Only the word and parentheses around it resolve to `undefined`: every other form has a
  -- shape of its own, a union included.
  induction node using parts_induction with
  | leaf node hleaf =>
      cases node with
      | predefined s => simp [isUndefined, resolve?, predefinedShape_ne_undefined]
      | literal s kind => cases kind <;> simp [isUndefined, resolve?, LiteralKind.shape]
      | template s => simp [isUndefined, resolve?]
      | self s => simp [isUndefined, resolve?]
      | name s => by_cases hs : s.text = "undefined" <;> simp [isUndefined, resolve?, nameType, hs]
      | other s => simp [isUndefined, resolve?]
      | comment s => simp [isUndefined, resolve?]
      | _ => cases hleaf
  | qualified s => simp [isUndefined, resolve?]
  | generic s head args => simp [isUndefined, resolve?]
  | array s children => cases children <;> simp [isUndefined, resolve?]
  | parens s children ih =>
      cases children with
      | nil => simp [isUndefined, resolve?]
      | cons inner behind => rw [isUndefined, resolve?, ih inner (.head _)]
  | union s members => simp [isUndefined, resolve?, unionType_ne_undefined]

/-- The shape of a union by its number of members and by its last one,
for all but those of one type with `undefined`. What the members are
does not show in it. -/
def looseShape (members : List TypeNode) : ResolvedType :=
  if 2 ≤ members.length ∧ members.getLast?.any isUndefined then .nullable "" (.plain "" .other)
  else .plain "" .other

/-- A type or `undefined` is that type, nullable, and it has no shape if
the type has none. -/
theorem shape?_union_pair {last : TypeNode} (h : last.isUndefined = true) (s : Fragment)
    (member : TypeNode) :
    (union s [member, last]).shape? = member.shape?.map (.nullable "") := by
  obtain ⟨text, hlast⟩ := (isUndefined_iff last).mp h
  rw [shape?, resolve?, shape?]
  cases hmember : member.resolve? with
  | none => simp [resolveAll?, hmember]
  | some type => simp [resolveAll?, hmember, hlast, unionType, restOfUnion, ResolvedType.bare]

/-- What is left of a union is of shape `other`, unless it is a single
type. -/
theorem bare_restOfUnion (whole : Fragment) (sources : List Fragment) {types : List ResolvedType}
    (h : types.length ≠ 1) :
    (restOfUnion whole sources types).bare = .plain "" .other := by
  unfold restOfUnion
  split
  · exact absurd rfl h
  · split <;> simp [ResolvedType.bare]

/-- Whether the last of some types is `undefined`. -/
theorem any_isUndefined_getLast? {nodes : List TypeNode} {types : List ResolvedType}
    (h : nodes.map resolve? = types.map some) :
    nodes.getLast?.any isUndefined = true
      ↔ ∃ text, types.getLast? = some (.plain text .undefined) := by
  -- The last type is the last node resolved.
  have hlast : nodes.getLast?.map resolve? = types.getLast?.map some := by
    rw [← List.getLast?_map, ← List.getLast?_map, h]
  cases hnode : nodes.getLast? with
  | none =>
      rw [hnode, Option.map_none, eq_comm, Option.map_eq_none_iff] at hlast
      simp [hlast]
  | some node =>
      rw [hnode, Option.map_some, eq_comm, Option.map_eq_some_iff] at hlast
      obtain ⟨type, htype, hresolved⟩ := hlast
      simp [htype, isUndefined_iff, ← hresolved]

/-- A union of types that all have a shape has this shape. Without its
last member it is one type only if it had two, and that case is
excluded. -/
theorem shape?_union_loose {members : List TypeNode}
    (hloose : ∀ member last, members = [member, last] → last.isUndefined = false)
    (hall : ∀ member ∈ members, member.shape?.isSome = true) (s : Fragment) :
    (union s members).shape? = some (looseShape members) := by
  have hsome := (isSome_shape?_union (s := s)).mpr hall
  rw [shape?, resolve?, Option.isSome_map, Option.isSome_map] at hsome
  obtain ⟨types, htypes⟩ := Option.isSome_iff_exists.mp hsome
  have hmap := resolveAll?_eq_some_iff.mp htypes
  have hlength : members.length = types.length := by simpa using congrArg List.length hmap
  rw [shape?, resolve?, htypes, Option.map_some, Option.map_some, looseShape, unionType]
  by_cases hlast : members.getLast?.any isUndefined = true
  · obtain ⟨text, htext⟩ := (any_isUndefined_getLast? hmap).mp hlast
    simp only [htext, hlast, and_true, hlength]
    split
    · rename_i htwo
      -- Two members would be a type and `undefined`.
      have hrest : types.dropLast.length ≠ 1 := by
        intro hone
        rw [List.length_dropLast] at hone
        obtain ⟨member, last, hpair⟩ := List.length_eq_two.mp (by omega : members.length = 2)
        have := hloose member last hpair
        simp [hpair, this] at hlast
      rw [ResolvedType.bare, bare_restOfUnion s _ hrest]
    · rw [ResolvedType.bare]
  · have hnot : ¬ ∃ text, types.getLast? = some (.plain text .undefined) :=
      fun h => hlast ((any_isUndefined_getLast? hmap).mpr h)
    split
    · rename_i text htext
      exact absurd ⟨text, htext⟩ hnot
    · rw [ResolvedType.bare, if_neg fun h => hlast h.2]

end TypeNode

end Source

end Externals
