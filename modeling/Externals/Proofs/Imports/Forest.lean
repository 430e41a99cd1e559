import Externals.Proofs.Imports.Shelf
import Mathlib.Data.List.Nodup
import Mathlib.Logic.Relation

/-!
# `Externals.Proofs.Imports.Forest`: the arena of headers as a forest

Headers are made as roots or as children of headers that exist, and
lines are recorded in headers that exist. Arenas that arise this way are
forests of any depth (`Reachable.forest`): children are numbered after
their parent and after their older siblings, a header has one parent,
siblings have different labels, and every line stands under its key.

The two readers of a header go through the headers below it. Which of
two headers comes first is said without the list they go through:
`Precedes` holds of a header and what is below it, and of what is below
two siblings, in the order of the siblings.

* `Forest.pairwise_subtree`: the list is ordered by `Precedes`, and
  `Forest.precedes_asymm`: no two headers precede each other.
* `lookup_first_flatten_last`: a look-up finds the first line of a name,
  a section has the last line of each name.
-/

set_option autoImplicit false

namespace Externals

namespace Headers

/-! ### Arenas that arise -/

/-- One change to an arena, at headers that it has: a new root, a child
that is found or made, a line. -/
inductive Step : Headers → Headers → Prop
  | addRoot (h : Headers) (label : String) : Step h (h.addRoot label).1
  | child (h : Headers) {parent : Nat} (hparent : parent < h.size) (label : String) :
      Step h (h.child parent label).1
  | addImport (h : Headers) {id : Nat} (hid : id < h.size) (line : ImportLine) :
      Step h (h.addImport id line)

/-- The arenas that arise from the empty one. -/
def Reachable (h : Headers) : Prop := Relation.ReflTransGen Step {} h

/-- Children are numbered after their parent and in the order they were
made, a header is the child of one header only, siblings have different
labels, and every line stands under its own key. -/
structure Forest (h : Headers) : Prop where
  child_lt : ∀ id, ∀ c ∈ h.children id, id < c ∧ c < h.size
  ascending : ∀ id, (h.children id).Pairwise (· < ·)
  one_parent : ∀ id id', ∀ c ∈ h.children id, c ∈ h.children id' → id = id'
  nodup_labels : ∀ id, ((h.children id).map h.label?).Nodup
  own_key : ∀ id key line, (h.importsOf id).get? key = some line → line.key = key

/-- The empty arena is a forest. -/
theorem forest_empty : Forest {} where
  child_lt := nofun
  ascending := fun _ => List.Pairwise.nil
  one_parent := nofun
  nodup_labels := fun _ => List.Pairwise.nil
  own_key := nofun

-- One line is a sequence of lines, so recording it is a case of recording several.

/-- Recording a line makes no header. -/
theorem size_addImport (h : Headers) (id : Nat) (line : ImportLine) :
    (h.addImport id line).size = h.size :=
  h.size_addImports id [line]

/-- It changes no label. -/
theorem label?_addImport (h : Headers) (id : Nat) (line : ImportLine) (i : Nat) :
    (h.addImport id line).label? i = h.label? i :=
  h.label?_addImports id [line] i

/-- It changes no children. -/
theorem children_addImport (h : Headers) (id : Nat) (line : ImportLine) (i : Nat) :
    (h.addImport id line).children i = h.children i :=
  h.children_addImports id [line] i

/-- The header has the line under its key afterwards. -/
theorem importsOf_addImport_self (h : Headers) {id : Nat} (hid : id < h.size)
    (line : ImportLine) :
    (h.addImport id line).importsOf id = (h.importsOf id).insert line.key line :=
  h.importsOf_addImports_self hid [line]

/-- The other headers have the lines they had. -/
theorem importsOf_addImport_of_ne (h : Headers) {id i : Nat} (hne : id ≠ i) (line : ImportLine) :
    (h.addImport id line).importsOf i = h.importsOf i :=
  h.importsOf_addImports_of_ne hne [line]

namespace Forest

variable {h : Headers}

/-- In a forest, all noted children are true children. -/
theorem childrenOf_eq (hf : h.Forest) (id : Nat) : h.childrenOf id = h.children id :=
  childrenOf_eq_children (hf.child_lt id)

/-- The labels of children stay when a header is made: its number is
new. -/
theorem map_label?_of_new (hf : h.Forest) {h' : Headers} {label : String}
    (hlabel : ∀ i, h'.label? i = if i = h.size then some label else h.label? i) (id : Nat) :
    (h.children id).map h'.label? = (h.children id).map h.label? := by
  refine List.map_congr_left fun c hc => ?_
  rw [hlabel, if_neg (Nat.ne_of_lt (hf.child_lt id c hc).2)]

/-- A new root keeps the arena a forest. -/
theorem addRoot (hf : h.Forest) (label : String) : (h.addRoot label).1.Forest where
  -- A root has no parent and no lines of its own, so each field is the old one with a larger
  -- size.
  child_lt := fun id c hc => by
    rw [children_addRoot] at hc
    rw [size_addRoot]
    obtain ⟨hlt, hsize⟩ := hf.child_lt id c hc
    exact ⟨hlt, Nat.lt_succ_of_lt hsize⟩
  ascending := fun id => by
    rw [children_addRoot]
    exact hf.ascending id
  one_parent := fun id id' c hc hc' => by
    rw [children_addRoot] at hc hc'
    exact hf.one_parent id id' c hc hc'
  nodup_labels := fun id => by
    rw [children_addRoot, hf.map_label?_of_new (h.label?_addRoot label)]
    exact hf.nodup_labels id
  own_key := fun id key line hline => by
    rw [importsOf_addRoot] at hline
    exact hf.own_key id key line hline

/-- A child with a new label keeps the arena a forest. Its number is
greater than those of its siblings. -/
theorem addChild (hf : h.Forest) {parent : Nat} (hparent : parent < h.size) {label : String}
    (hnew : ∀ c ∈ h.children parent, h.label? c ≠ some label) :
    (h.addChild parent label).Forest where
  child_lt := fun id c hc => by
    rw [size_addChild]
    rcases mem_children_addChild hparent hc with hin | ⟨rfl, rfl⟩
    · obtain ⟨hlt, hsize⟩ := hf.child_lt id c hin
      exact ⟨hlt, Nat.lt_succ_of_lt hsize⟩
    · exact ⟨hparent, Nat.lt_succ_self _⟩
  ascending := fun id => by
    rw [h.children_addChild hparent]
    split
    · -- The new number is greater than all others.
      refine List.pairwise_append.mpr ⟨hf.ascending id, List.pairwise_singleton _ _, ?_⟩
      intro c hc d hd
      rw [List.mem_singleton.mp hd]
      exact (hf.child_lt id c hc).2
    · exact hf.ascending id
  one_parent := one_parent_addChild hparent (fun id c hc => (hf.child_lt id c hc).2) hf.one_parent
  nodup_labels := fun id => by
    have hold := hf.map_label?_of_new (h.label?_addChild parent label) id
    rw [h.children_addChild hparent]
    split
    · rename_i heq
      subst heq
      rw [List.map_append, hold, List.map_singleton, label?_addChild, if_pos rfl]
      refine List.nodup_append.mpr ⟨hf.nodup_labels parent, by simp, ?_⟩
      rintro a ha b hb rfl
      obtain ⟨c, hc, hlabel⟩ := List.mem_map.mp ha
      exact hnew c hc (hlabel.trans (List.mem_singleton.mp hb))
    · rw [hold]
      exact hf.nodup_labels id
  own_key := fun id key line hline => by
    rw [importsOf_addChild] at hline
    exact hf.own_key id key line hline

/-- A child that is found or made. It is made only where no sibling has
its label. -/
theorem child (hf : h.Forest) {parent : Nat} (hparent : parent < h.size) (label : String) :
    (h.child parent label).1.Forest := by
  rw [child_eq, hf.childrenOf_eq]
  cases hfind : (h.children parent).find? fun c => h.label? c == some label with
  | some c => exact hf
  | none =>
      refine hf.addChild hparent fun c hc hlabel => ?_
      exact List.find?_eq_none.mp hfind c hc (by simp [hlabel])

/-- A child that exists is found, and nothing changes. -/
theorem child_of_label? (hf : h.Forest) {parent c : Nat} (hc : c ∈ h.children parent)
    {label : String} (hlabel : h.label? c = some label) : h.child parent label = (h, c) := by
  rw [child_eq, hf.childrenOf_eq]
  cases hfind : (h.children parent).find? fun c => h.label? c == some label with
  | some found =>
      have hfound : h.label? found = some label := by simpa using List.find?_some hfind
      -- Siblings have different labels, so the one that is found is the one we know.
      have heq : found = c := List.inj_on_of_nodup_map (hf.nodup_labels parent)
        (List.mem_of_find?_eq_some hfind) hc (hfound.trans hlabel.symm)
      rw [heq]
  | none => exact absurd (by simp [hlabel]) (List.find?_eq_none.mp hfind c hc)

/-- A line keeps the arena a forest, because it is recorded under its
own key. -/
theorem addImport (hf : h.Forest) {id : Nat} (hid : id < h.size) (line : ImportLine) :
    (h.addImport id line).Forest where
  child_lt := fun i c hc => by
    rw [h.children_addImport] at hc
    rw [h.size_addImport]
    exact hf.child_lt i c hc
  ascending := fun i => by
    rw [h.children_addImport]
    exact hf.ascending i
  one_parent := fun i i' c hc hc' => by
    rw [h.children_addImport] at hc hc'
    exact hf.one_parent i i' c hc hc'
  nodup_labels := fun i => by
    rw [h.children_addImport, List.map_congr_left fun c _ => h.label?_addImport id line c]
    exact hf.nodup_labels i
  -- Only the lines of `id` change, and the line added is filed under its own key.
  own_key := fun i key l hl => by
    by_cases hi : id = i
    · subst hi
      rw [h.importsOf_addImport_self hid, Table.get?_insert] at hl
      split at hl
      · rename_i hkey
        rw [← Option.some.inj hl]
        exact hkey
      · exact hf.own_key id key l hl
    · rw [h.importsOf_addImport_of_ne hi] at hl
      exact hf.own_key i key l hl

end Forest

/-- One change keeps the arena a forest. -/
theorem Step.forest {h h' : Headers} (hs : Step h h') (hf : h.Forest) : h'.Forest := by
  cases hs with
  | addRoot label => exact hf.addRoot label
  | child hparent label => exact hf.child hparent label
  | addImport hid line => exact hf.addImport hid line

/-- Every arena that arises is a forest. -/
theorem Reachable.forest {h : Headers} (hr : h.Reachable) : h.Forest := by
  induction hr with
  | refl => exact forest_empty
  | tail _ hs ih => exact hs.forest ih

/-! ### Above and below -/

/-- A header and its descendants. -/
def Below (h : Headers) : Nat → Nat → Prop :=
  Relation.ReflTransGen fun id c => c ∈ h.children id

/-- The order of a walk that reads a header before its children, and the
children in the order they were made. It is defined from the children
only, without the walk. -/
inductive Precedes (h : Headers) : Nat → Nat → Prop
  | below {x c y : Nat} (hc : c ∈ h.children x) (hy : h.Below c y) : Precedes h x y
  | beside {parent c d x y : Nat} (hc : c ∈ h.children parent) (hd : d ∈ h.children parent)
      (hlt : c < d) (hx : h.Below c x) (hy : h.Below d y) : Precedes h x y

namespace Forest

variable {h : Headers}

/-- Numbers do not get smaller on the way down. -/
theorem le_of_below (hf : h.Forest) {id x : Nat} (hx : h.Below id x) : id ≤ x := by
  induction hx with
  | refl => exact Nat.le_refl _
  | tail _ hc ih => exact Nat.le_trans ih (Nat.le_of_lt (hf.child_lt _ _ hc).1)

/-- Going down from a header comes to an end. -/
theorem wellFounded (hf : h.Forest) : WellFounded fun c id => c ∈ h.children id := by
  -- Numbers grow on the way down and stay below the size.
  refine Subrelation.wf ?_ (measure fun id => h.size - id).wf
  intro c id hc
  obtain ⟨hlt, hsize⟩ := hf.child_lt id c hc
  show h.size - c < h.size - id
  omega

/-- Of two headers above a third, one is above the other: a header has
one parent. -/
theorem below_total (hf : h.Forest) {a b x : Nat} (ha : h.Below a x) (hb : h.Below b x) :
    h.Below a b ∨ h.Below b a := by
  have hunique : Relator.RightUnique (Function.swap fun id c => c ∈ h.children id) :=
    fun c id id' hc hc' => hf.one_parent id id' c hc hc'
  -- Read upwards, the path from the third header is determined, so one path extends the other.
  have htotal := Relation.ReflTransGen.total_of_right_unique hunique
    (Relation.reflTransGen_swap.mpr ha) (Relation.reflTransGen_swap.mpr hb)
  rcases htotal with hab | hba
  · exact .inr (Relation.reflTransGen_swap.mp hab)
  · exact .inl (Relation.reflTransGen_swap.mp hba)

/-- Nothing is below two siblings. -/
theorem eq_of_below (hf : h.Forest) {parent c d x : Nat} (hc : c ∈ h.children parent)
    (hd : d ∈ h.children parent) (hcx : h.Below c x) (hdx : h.Below d x) : c = d := by
  -- A child above its sibling would be above, or equal to, their parent.
  have hnot : ∀ {c d}, c ∈ h.children parent → d ∈ h.children parent → h.Below c d → c = d := by
    intro c d hc hd hcd
    rcases Relation.ReflTransGen.cases_tail hcd with heq | ⟨p, hp, hdp⟩
    · exact heq.symm
    · rw [hf.one_parent p parent d hdp hd] at hp
      have hle := hf.le_of_below hp
      have hlt := (hf.child_lt parent c hc).1
      omega
  rcases hf.below_total hcx hdx with hcd | hdc
  · exact hnot hc hd hcd
  · exact (hnot hd hc hdc).symm

/-- No child is above descendants of two siblings. -/
theorem not_above_both (hf : h.Forest) {parent c d e x y : Nat} (hc : c ∈ h.children parent)
    (hd : d ∈ h.children parent) (hlt : c < d) (he : e ∈ h.children parent) (hcx : h.Below c x)
    (hdy : h.Below d y) (hex : h.Below e x) (hey : h.Below e y) : False := by
  have hec := hf.eq_of_below he hc hex hcx
  have hed := hf.eq_of_below he hd hey hdy
  omega

/-- Two pairs of siblings do not stand in opposite orders above two
headers, be they children of one header or of two. -/
theorem not_crossed (hf : h.Forest) {p p' c d c' d' x y : Nat} (hpp : h.Below p p')
    (hc : c ∈ h.children p) (hd : d ∈ h.children p) (hcd : c < d) (hcx : h.Below c x)
    (hdy : h.Below d y) (hc' : c' ∈ h.children p') (hd' : d' ∈ h.children p') (hcd' : c' < d')
    (hcy : h.Below c' y) (hdx : h.Below d' x) : False := by
  rcases Relation.ReflTransGen.cases_head hpp with rfl | ⟨e, he, hep⟩
  · have hx := hf.eq_of_below hc hd' hcx hdx
    have hy := hf.eq_of_below hd hc' hdy hcy
    omega
  · -- The second pair is below one child of `p`, which is then above both headers.
    exact hf.not_above_both hc hd hcd he hcx hdy ((hep.tail hd').trans hdx)
      ((hep.tail hc').trans hcy)

/-- No two headers precede each other. Each precedes the other for one
of two reasons, which makes four cases. -/
theorem precedes_asymm (hf : h.Forest) {x y : Nat} (hxy : h.Precedes x y)
    (hyx : h.Precedes y x) : False := by
  cases hxy with
  | below hc hy =>
      cases hyx with
      | below hd hx =>
          -- Numbers grow on the way down.
          have hlt := (hf.child_lt _ _ hc).1
          have hle := hf.le_of_below hy
          have hlt' := (hf.child_lt _ _ hd).1
          have hle' := hf.le_of_below hx
          omega
      | beside hp hq hpq hpy hqx =>
          exact hf.not_above_both hp hq hpq hq hpy hqx (hqx.trans (.head hc hy)) hqx
  | beside hc hd hcd hcx hdy =>
      cases hyx with
      | below he hx =>
          exact hf.not_above_both hc hd hcd hd hcx hdy (hdy.trans (.head he hx)) hdy
      | beside hc' hd' hcd' hcy hdx =>
          -- Both parents are above `x`, so one is above the other.
          rcases hf.below_total (.head hc hcx) (.head hd' hdx) with hpp | hpp
          · exact hf.not_crossed hpp hc hd hcd hcx hdy hc' hd' hcd' hcy hdx
          · exact hf.not_crossed hpp hc' hd' hcd' hcy hdx hc hd hcd hcx hdy

/-! ### The walk -/

/-- The walk from a header, without the bound that makes it terminate. -/
theorem subtree_eq (hf : h.Forest) (id : Nat) :
    h.subtree id = id :: (h.children id).flatMap h.subtree := by
  rw [subtree_eq_cons, hf.childrenOf_eq]

/-- The walk reaches what is below the header. -/
theorem mem_subtree_iff (hf : h.Forest) {id x : Nat} : x ∈ h.subtree id ↔ h.Below id x := by
  induction id using hf.wellFounded.induction with
  | _ id ih =>
      rw [hf.subtree_eq, List.mem_cons, List.mem_flatMap, Below,
        Relation.ReflTransGen.cases_head_iff, eq_comm]
      refine or_congr_right (exists_congr fun c => and_congr_right fun hc => ?_)
      exact ih c hc

/-- The walk reads headers in their order. -/
theorem pairwise_subtree (hf : h.Forest) (id : Nat) : (h.subtree id).Pairwise h.Precedes := by
  induction id using hf.wellFounded.induction with
  | _ id ih =>
      rw [hf.subtree_eq, List.pairwise_cons, List.pairwise_flatMap]
      refine ⟨fun y hy => ?_, ih, ?_⟩
      · -- The header itself comes before all that is below it.
        obtain ⟨c, hc, hy⟩ := List.mem_flatMap.mp hy
        exact .below hc (hf.mem_subtree_iff.mp hy)
      · -- The walks of two children come in the order of the children.
        refine (hf.ascending id).imp_of_mem fun hc hd hlt x hx y hy => ?_
        exact .beside hc hd hlt (hf.mem_subtree_iff.mp hx) (hf.mem_subtree_iff.mp hy)

end Forest

/-! ### The first and the last line of a name -/

/-- The line of a name in the first header, below a header, that has
one. -/
def HoldsFirst (h : Headers) (id : Nat) (key : String) (line : ImportLine) : Prop :=
  ∃ x, h.Below id x ∧ (h.importsOf x).get? key = some line
    ∧ ∀ y, h.Below id y → key ∈ (h.importsOf y).keys → y = x ∨ h.Precedes x y

/-- The line of a name in the last header, below a header, that has
one. -/
def HoldsLast (h : Headers) (id : Nat) (key : String) (line : ImportLine) : Prop :=
  ∃ x, h.Below id x ∧ (h.importsOf x).get? key = some line
    ∧ ∀ y, h.Below id y → key ∈ (h.importsOf y).keys → y = x ∨ h.Precedes y x

/-- A name that some header has at or below a header. -/
def Occurs (h : Headers) (id : Nat) (key : String) : Prop :=
  ∃ x, h.Below id x ∧ key ∈ (h.importsOf x).keys

/-- Merging asks the headers of the walk from the last to the first. -/
theorem get?_merged (h : Headers) (id : Nat) (key : String) :
    (h.merged id).get? key
      = (h.subtree id).reverse.findSome? fun c => (h.importsOf c).get? key := by
  rw [merged, Table.get?_foldl_insertAll h.importsOf, Table.get?_empty, Option.or_none]

namespace Forest

variable {h : Headers}

/-- A look-up gives the line of the first header that has the name. -/
theorem lookup_eq_some_iff (hf : h.Forest) {id : Nat} {key : String} {line : ImportLine} :
    h.lookup id key = some line ↔ h.HoldsFirst id key line := by
  rw [lookup, findSome?_eq_some_iff_of_pairwise (hf.pairwise_subtree id) hf.precedes_asymm]
  simp only [hf.mem_subtree_iff, HoldsFirst, ← Table.contains_iff, Table.contains]

/-- Merging goes through the same headers, and later lines win. -/
theorem get?_merged_eq_some_iff (hf : h.Forest) {id : Nat} {key : String} {line : ImportLine} :
    (h.merged id).get? key = some line ↔ h.HoldsLast id key line := by
  rw [get?_merged, findSome?_eq_some_iff_of_pairwise
    (List.pairwise_reverse.mpr (hf.pairwise_subtree id)) fun hab hba => hf.precedes_asymm hba hab]
  simp only [List.mem_reverse, hf.mem_subtree_iff, HoldsLast, ← Table.contains_iff, Table.contains]

/-- Merging keeps every line under its own key. -/
theorem key_of_get?_merged (hf : h.Forest) {id : Nat} (key : String) (line : ImportLine)
    (hline : (h.merged id).get? key = some line) : line.key = key := by
  obtain ⟨x, -, hx, -⟩ := hf.get?_merged_eq_some_iff.mp hline
  exact hf.own_key x key line hx

/-- A section has the last line of each name. -/
theorem mem_flatten_iff (hf : h.Forest) {id : Nat} {line : ImportLine} :
    line ∈ h.flatten id ↔ h.HoldsLast id line.key line := by
  rw [mem_flatten_iff_get?_merged hf.key_of_get?_merged, hf.get?_merged_eq_some_iff]

/-- A name is known at a header if it occurs there. -/
theorem hasName_iff (hf : h.Forest) {id : Nat} {key : String} :
    h.hasName id key = true ↔ h.Occurs id key := by
  rw [hasName, lookup, List.findSome?_isSome_iff]
  simp only [hf.mem_subtree_iff, Occurs, ← Table.contains_iff, Table.contains]

/-- The names of a section are those that occur. -/
theorem exists_mem_flatten_iff (hf : h.Forest) {id : Nat} {key : String} :
    (∃ line ∈ h.flatten id, line.key = key) ↔ h.Occurs id key := by
  -- A key has a line in the merged table iff some header below has one for it.
  have hmerged : ((h.merged id).get? key).isSome ↔ h.Occurs id key := by
    rw [get?_merged, List.findSome?_isSome_iff]
    simp only [List.mem_reverse, hf.mem_subtree_iff, Occurs, ← Table.contains_iff, Table.contains]
  rw [← hmerged, Option.isSome_iff_exists]
  constructor
  · rintro ⟨line, hline, rfl⟩
    exact ⟨line, (mem_flatten_iff_get?_merged hf.key_of_get?_merged).mp hline⟩
  · rintro ⟨line, hline⟩
    have hkey := hf.key_of_get?_merged key line hline
    refine ⟨line, (mem_flatten_iff_get?_merged hf.key_of_get?_merged).mpr ?_, hkey⟩
    rw [hkey]
    exact hline

end Forest

/-! ### What recording a line changes -/

/-- A line does not change what is below what. -/
theorem below_addImport (h : Headers) (id : Nat) (line : ImportLine) :
    (h.addImport id line).Below = h.Below := by
  unfold Below
  simp only [h.children_addImport]

/-- A line adds its key to one header. -/
theorem mem_keys_importsOf_addImport {h : Headers} {id : Nat} (hid : id < h.size)
    (line : ImportLine) {x : Nat} {key : String} :
    key ∈ ((h.addImport id line).importsOf x).keys
      ↔ key ∈ (h.importsOf x).keys ∨ x = id ∧ key = line.key := by
  by_cases heq : x = id
  · subst heq
    rw [h.importsOf_addImport_self hid, Table.mem_keys_insert]
    simp
  · rw [h.importsOf_addImport_of_ne (Ne.symm heq)]
    simp [heq]

/-- A line that is recorded makes its key occur above it, and nothing
else. -/
theorem occurs_addImport_iff {h : Headers} {id : Nat} (hid : id < h.size) (line : ImportLine)
    {other : Nat} {key : String} :
    (h.addImport id line).Occurs other key
      ↔ h.Occurs other key ∨ h.Below other id ∧ key = line.key := by
  rw [Occurs, Occurs, below_addImport]
  -- The line is added at `id` alone, so a key occurs as before or it is the new line's key
  -- and `id` lies below.
  constructor
  · rintro ⟨x, hx, hkey⟩
    rcases (mem_keys_importsOf_addImport hid line).mp hkey with hold | ⟨rfl, hnew⟩
    · exact .inl ⟨x, hx, hold⟩
    · exact .inr ⟨hx, hnew⟩
  · rintro (⟨x, hx, hold⟩ | ⟨hx, hnew⟩)
    · exact ⟨x, hx, (mem_keys_importsOf_addImport hid line).mpr (.inl hold)⟩
    · exact ⟨id, hx, (mem_keys_importsOf_addImport hid line).mpr (.inr ⟨rfl, hnew⟩)⟩

namespace Forest

variable {h : Headers}

/-- The walk does not depend on the lines. -/
theorem subtree_addImport (hf : h.Forest) {id : Nat} (hid : id < h.size) (line : ImportLine)
    (other : Nat) : (h.addImport id line).subtree other = h.subtree other := by
  induction other using hf.wellFounded.induction with
  | _ other ih =>
      rw [hf.subtree_eq, (hf.addImport hid line).subtree_eq, h.children_addImport,
        List.flatMap_def, List.flatMap_def, List.map_congr_left ih]

/-- Sections of headers that are not above the line stay as they are. -/
theorem flatten_addImport (hf : h.Forest) {id : Nat} (hid : id < h.size) (line : ImportLine)
    {other : Nat} (hnot : ¬ h.Below other id) :
    (h.addImport id line).flatten other = h.flatten other := by
  have hmerged : (h.addImport id line).merged other = h.merged other := by
    rw [merged, merged, hf.subtree_addImport hid]
    -- The header is not on the walk, so every header on it has the lines it had.
    refine List.foldl_ext _ _ _ fun t c hc => ?_
    rw [importsOf_addImport_of_ne h]
    rintro rfl
    exact hnot (hf.mem_subtree_iff.mp hc)
  rw [flatten, flatten, hmerged]

end Forest

/-- In every arena that arises, headers are a forest that can be walked
down to its end, each header before its children and these in their
order. A name is known at a header exactly if it occurs at or below it,
and then it has one line in the section. A look-up gives the line of the
first header that has the name, the section that of the last. A new line
changes the sections above it only. -/
theorem lookup_first_flatten_last {h : Headers} (hr : h.Reachable) :
    h.Forest
      ∧ (∀ parent, ∀ c ∈ h.children parent, ∀ label, h.label? c = some label →
          h.child parent label = (h, c))
      ∧ (WellFounded fun c id => c ∈ h.children id)
      ∧ (∀ id, h.subtree id = id :: (h.children id).flatMap h.subtree
          ∧ (∀ x, x ∈ h.subtree id ↔ h.Below id x) ∧ (h.subtree id).Pairwise h.Precedes)
      ∧ (∀ x y, h.Precedes x y → ¬ h.Precedes y x)
      ∧ (∀ id key line, h.lookup id key = some line ↔ h.HoldsFirst id key line)
      ∧ (∀ id line, line ∈ h.flatten id ↔ h.HoldsLast id line.key line)
      ∧ (∀ id, ((h.flatten id).map ImportLine.key).Nodup
          ∧ (h.flatten id).Pairwise fun a b => ¬ b.render < a.render)
      ∧ (∀ id key, (h.hasName id key = true ↔ ∃ line ∈ h.flatten id, line.key = key)
          ∧ (h.hasName id key = true ↔ h.Occurs id key))
      ∧ ∀ id, id < h.size → ∀ line other,
          (¬ h.Below other id → (h.addImport id line).flatten other = h.flatten other)
            ∧ ∀ key, (h.addImport id line).hasName other key = true
                ↔ h.hasName other key = true ∨ h.Below other id ∧ key = line.key := by
  have hf := hr.forest
  refine ⟨hf, fun _ _ hc _ hlabel => hf.child_of_label? hc hlabel, hf.wellFounded,
    fun id => ⟨hf.subtree_eq id, fun _ => hf.mem_subtree_iff, hf.pairwise_subtree id⟩,
    fun _ _ => hf.precedes_asymm, fun _ _ _ => hf.lookup_eq_some_iff,
    fun _ _ => hf.mem_flatten_iff, fun id => ?_,
    fun _ _ => ⟨hf.hasName_iff.trans hf.exists_mem_flatten_iff.symm, hf.hasName_iff⟩,
    fun id hid line other => ⟨hf.flatten_addImport hid line, fun key => ?_⟩⟩
  · exact ⟨nodup_map_key_flatten_of_merged hf.key_of_get?_merged, h.pairwise_flatten id⟩
  · rw [(hf.addImport hid line).hasName_iff, hf.hasName_iff, occurs_addImport_iff hid]

/-- Two children of a root, and a child of the older one that was made
last. All but the older child import a `Signal`. -/
def threeSignals : Headers :=
  let h := ((({} : Headers).addRoot "file").1.child 0 "a").1
  let h := ((h.child 0 "b").1.child 1 "c").1
  ((h.addImport 0 ⟨"own", "Signal", none⟩).addImport 3 ⟨"deep", "Signal", none⟩).addImport 2
    ⟨"young", "Signal", none⟩

/-- This arena arises, by seven changes. -/
theorem reachable_threeSignals : threeSignals.Reachable :=
  Relation.ReflTransGen.refl
    |>.tail (.addRoot _ "file")
    |>.tail (.child _ (by decide) "a")
    |>.tail (.child _ (by decide) "b")
    |>.tail (.child _ (by decide) "c")
    |>.tail (.addImport _ (by decide) _)
    |>.tail (.addImport _ (by decide) _)
    |>.tail (.addImport _ (by decide) _)

/-- The walk goes through 0, 1, 3, 2, so number 2 is last although 3 is
greater. A look-up at the root finds its own line, the section has that
of number 2. -/
theorem holds_threeSignals :
    threeSignals.HoldsFirst 0 "Signal" ⟨"own", "Signal", none⟩
      ∧ threeSignals.HoldsLast 0 "Signal" ⟨"young", "Signal", none⟩
      ∧ threeSignals.HoldsFirst 1 "Signal" ⟨"deep", "Signal", none⟩ := by
  obtain ⟨-, -, -, -, -, hfirst, hlast, -⟩ := lookup_first_flatten_last reachable_threeSignals
  refine ⟨(hfirst 0 _ _).mp ?_, (hlast 0 ⟨"young", "Signal", none⟩).mp ?_, (hfirst 1 _ _).mp ?_⟩
  · decide +kernel
  · decide +kernel
  · decide +kernel

end Headers

end Externals
