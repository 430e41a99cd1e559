import Externals.Proofs.Scope.Paths

/-!
# `Externals.Proofs.Scope.Segments`: what packages are made of

The package of a scope is the root package and the segments of the
modules around it, with one dot between neighbours. A module can add
several segments, one, or none, and its name can be any text, so this
rests on two facts: only parts with text become segments, and a safe
segment is an identifier whatever the part was.

* `isSegment_safeSegment`: letters in lower case, digits and
  underscores, and no digit in front.
* `joinPackage_intercalate`: joining two packages appends their
  segments.
* `packageOf_segments`: the package of every scope of every index.
-/

set_option autoImplicit false

namespace Externals

open Text

/-! ### Segments -/

/-- What a segment can begin with: a letter in lower case or an
underscore. -/
def isSegmentStart (c : Char) : Bool := c.isLower || c == '_'

/-- What a segment can go on with. -/
def isSegmentPart (c : Char) : Bool := isSegmentStart c || c.isDigit

/-- A name in lower case that can stand between the dots of a package.
It can be decided, so the examples compute. -/
def isSegment (s : String) : Bool :=
  match s.toList with
  | [] => false
  | c :: cs => isSegmentStart c && cs.all isSegmentPart

/-- A text is a segment if its first character can begin one and the
others go on. -/
theorem isSegment_ofList {c : Char} {cs : List Char} (hc : isSegmentStart c = true)
    (hcs : ∀ d ∈ cs, isSegmentPart d = true) : isSegment (String.ofList (c :: cs)) = true := by
  rw [isSegment, String.toList_ofList]
  exact Bool.and_eq_true_iff.mpr ⟨hc, List.all_eq_true.mpr hcs⟩

/-- A segment is not empty. -/
theorem ne_empty_of_isSegment {s : String} (h : isSegment s = true) : s ≠ "" := by
  rintro rfl
  cases h

/-- Upper case letters have lower case ones. -/
theorem isLower_toLower {c : Char} (h : c.isUpper = true) : c.toLower.isLower = true := by
  have hletters : ∀ n : Fin 26, (Char.ofNat (65 + n)).toLower.isLower = true := by decide
  have hupper := of_decide_eq_true h
  have hlow : 65 ≤ c.toNat := hupper.1
  have hhigh : c.toNat ≤ 90 := hupper.2
  have hletter := hletters ⟨c.toNat - 65, by omega⟩
  rw [Nat.add_sub_cancel' hlow, Char.ofNat_toNat] at hletter
  exact hletter

/-- A safe character can stand in a segment. Letters come out in lower
case, digits stay, and everything else is an underscore. -/
theorem isSegmentPart_safeSegmentChar (c : Char) : isSegmentPart (safeSegmentChar c) = true := by
  unfold safeSegmentChar
  split
  · rename_i hsafe
    by_cases hupper : c.isUpper = true
    · simp [isSegmentPart, isSegmentStart, isLower_toLower hupper]
    · -- All other letters, the digits and the underscore stay.
      have hstays : c.toLower = c := dif_neg fun hbounds => hupper (decide_eq_true hbounds)
      have hkinds : c.isAlphanum = (c.isUpper || c.isLower || c.isDigit) := rfl
      rw [hstays]
      simpa [isSegmentPart, isSegmentStart, hkinds, hupper, or_right_comm] using hsafe
  · decide

/-- A text that is made safe is a segment. An underscore is put in front
of a digit, so that the first character is right too. -/
theorem isSegment_safeSegment {cs : List Char} (h : cs ≠ []) :
    isSegment (String.ofList (safeSegment cs)) = true := by
  obtain ⟨d, ds, rfl⟩ := List.exists_cons_of_ne_nil h
  have hparts : ∀ c ∈ (d :: ds).map safeSegmentChar, isSegmentPart c = true := by
    intro c hc
    obtain ⟨raw, -, rfl⟩ := List.mem_map.mp hc
    exact isSegmentPart_safeSegmentChar raw
  unfold safeSegment
  dsimp only
  split
  · exact isSegment_ofList rfl hparts
  · rename_i hdigit
    refine isSegment_ofList ?_ fun c hc => hparts c (.tail _ hc)
    -- Of all that can stand in a segment only digits do not begin one.
    have hfirst := hparts _ (.head _)
    rw [isSegmentPart, Bool.or_eq_true_iff] at hfirst
    exact hfirst.resolve_right hdigit

/-! ### The segments of modules -/

/-- The texts that the segments of a module are made from. Each part of
an ambient name is one, and empty parts are left out. -/
def segmentTexts (kind : ModuleKind) (name front : String) : List (List Char) :=
  match kind with
  | .global => []
  | .ambient => nameParts (dropFront front.toList name.toList)
  | .namespaced => [name.toList].filter fun text => !text.isEmpty

/-- The segments a module adds to the package of its parent. -/
def moduleSegments (kind : ModuleKind) (name front : String) : List String :=
  (segmentTexts kind name front).map fun text => String.ofList (safeSegment text)

/-- Each of them is a segment, because its text is not empty. -/
theorem isSegment_of_mem_moduleSegments {kind : ModuleKind} {name front segment : String}
    (h : segment ∈ moduleSegments kind name front) : isSegment segment = true := by
  obtain ⟨text, htext, rfl⟩ := List.mem_map.mp h
  refine isSegment_safeSegment ?_
  cases kind with
  | global => cases htext
  | ambient => simpa using (List.mem_filter.mp htext).2
  | namespaced => simpa using (List.mem_filter.mp htext).2

/-- What a module adds to a package is these segments with dots between
them. It is one text and may be several segments. -/
theorem packageSegment_eq (kind : ModuleKind) (name front : String) :
    packageSegment kind name front = ".".intercalate (moduleSegments kind name front) := by
  rw [← String.toList_inj, String.toList_intercalate, moduleSegments, List.map_map]
  -- As lists of characters: the parts of a module, the one name of a namespace, nothing for
  -- the global scope.
  cases kind with
  | global => rfl
  | ambient =>
      simp only [packageSegment, segmentTexts, Function.comp_def, String.toList_ofList]
      rfl
  | namespaced =>
      simp only [packageSegment, segmentTexts, Function.comp_def, String.toList_ofList]
      cases name.toList <;> simp [safeSegment]

/-! ### Joining packages -/

/-- Only an empty list of texts is joined to nothing. -/
theorem intercalate_eq_empty_iff {segments : List String} (h : ∀ s ∈ segments, s ≠ "") :
    ".".intercalate segments = "" ↔ segments = [] := by
  cases segments with
  | nil => simp
  | cons s more =>
      have hs : s.toList ≠ [] := mt String.toList_eq_nil_iff.mp (h s (.head _))
      rw [← String.toList_eq_nil_iff, String.toList_intercalate, List.map_cons]
      cases more <;> simp [hs]

/-- Joining packages appends their segments. An empty package leaves no
dot behind, on either side. -/
theorem joinPackage_intercalate {segments more : List String} (h : ∀ s ∈ segments, s ≠ "")
    (hmore : ∀ s ∈ more, s ≠ "") :
    joinPackage (".".intercalate segments) (".".intercalate more)
      = ".".intercalate (segments ++ more) := by
  unfold joinPackage
  -- Joining leaves out the dot when either side is empty; a list of segments prints as empty
  -- only when it has none.
  split
  · rename_i hempty
    rw [String.isEmpty_iff, intercalate_eq_empty_iff hmore] at hempty
    rw [hempty, List.append_nil]
  · rename_i hsome
    rw [String.isEmpty_iff, intercalate_eq_empty_iff hmore] at hsome
    split
    · rename_i hempty
      rw [String.isEmpty_iff, intercalate_eq_empty_iff h] at hempty
      rw [hempty, List.nil_append]
    · rename_i hne
      rw [String.isEmpty_iff, intercalate_eq_empty_iff h] at hne
      exact (String.intercalate_append_of_ne_nil hne hsome).symm

/-! ### The segments of scopes -/

/-- The root package, if there is one. It is taken as a whole, as
nothing is known about what is in it. -/
def Conventions.rootParts (c : Conventions) : List String :=
  if c.rootPackage.isEmpty then [] else [c.rootPackage]

/-- Joined, it is the root package again. -/
theorem Conventions.intercalate_rootParts (c : Conventions) :
    ".".intercalate c.rootParts = c.rootPackage := by
  unfold rootParts
  split
  · rename_i hempty
    rw [String.isEmpty_iff.mp hempty, String.intercalate_nil]
  · exact String.intercalate_singleton

/-- An empty one is left out. -/
theorem Conventions.ne_empty_of_mem_rootParts {c : Conventions} {s : String}
    (h : s ∈ c.rootParts) : s ≠ "" := by
  unfold rootParts at h
  split at h
  · cases h
  · rename_i hne
    rw [List.mem_singleton.mp h]
    exact fun hempty => hne (String.isEmpty_iff.mpr hempty)

/-- The segments a scope adds to those of its parent: those of its module,
and none for a namespace inside a module or a namespace. -/
def Scope.ownSegments (front : String) (s : Scope) : List String :=
  if s.kind == .namespaced && s.parent.getD SymbolIndex.root != SymbolIndex.root then []
  else moduleSegments s.kind s.rawName front

/-- Each of them is a segment. -/
theorem Scope.isSegment_of_mem_ownSegments {front segment : String} {s : Scope}
    (h : segment ∈ s.ownSegments front) : isSegment segment = true := by
  unfold ownSegments at h
  split at h
  · cases h
  · exact isSegment_of_mem_moduleSegments h

/-- What a scope notes as its segment is made of them. -/
theorem Scope.Named.segment_eq_intercalate {front : String} {s : Scope} (h : s.Named front) :
    s.segment = ".".intercalate (s.ownSegments front) := by
  rw [h.segment_eq, ownSegments]
  split
  · exact String.intercalate_nil.symm
  · exact packageSegment_eq _ _ _

namespace SymbolIndex

/-- The segments that a scope of an index adds, and none where there is
no scope. -/
def segmentsAt (ix : SymbolIndex) (id : Nat) : List String :=
  (ix.scopes[id]?.map (Scope.ownSegments ix.conventions.modulePrefix)).getD []

/-- The segments of a scope, those of the outermost module first. -/
def segmentsOf (ix : SymbolIndex) (id : Nat) : List String :=
  (ix.chain id).reverse.flatMap ix.segmentsAt

/-- Each of them is a segment. -/
theorem isSegment_of_mem_segmentsAt {ix : SymbolIndex} {i : Nat} {segment : String}
    (h : segment ∈ ix.segmentsAt i) : isSegment segment = true := by
  unfold segmentsAt at h
  cases hs : ix.scopes[i]? with
  | none =>
      rw [hs] at h
      cases h
  | some s =>
      rw [hs] at h
      exact Scope.isSegment_of_mem_ownSegments h

/-- So all segments of a scope are. -/
theorem isSegment_of_mem_segmentsOf {ix : SymbolIndex} {id : Nat} {segment : String}
    (h : segment ∈ ix.segmentsOf id) : isSegment segment = true := by
  obtain ⟨i, -, hi⟩ := List.mem_flatMap.mp h
  exact isSegment_of_mem_segmentsAt hi

/-- A scope has the segments of its parent, and then its own. -/
theorem segmentsOf_of_parent? {ix : SymbolIndex} {id parent : Nat}
    (h : ix.parent? id = some parent) :
    ix.segmentsOf id = ix.segmentsOf parent ++ ix.segmentsAt id := by
  rw [segmentsOf, chain_of_parent? h, List.reverse_cons, List.flatMap_append,
    List.flatMap_singleton]
  rfl

/-- What a scope of an index notes is made of the segments that it
adds. -/
theorem AllNamed.segmentOf_eq {ix : SymbolIndex} (h : ix.AllNamed) (i : Nat) :
    ix.segmentOf i = ".".intercalate (ix.segmentsAt i) := by
  unfold segmentOf segmentsAt
  cases hs : ix.scopes[i]? with
  | none => exact String.intercalate_nil.symm
  | some s => exact (h s (List.mem_of_getElem? hs)).segment_eq_intercalate

/-- The package of a scope from its segments, by induction along the
chain: each scope appends what it adds. -/
theorem AllNamed.packageOf_eq {ix : SymbolIndex} (h : ix.AllNamed) (id : Nat) :
    ix.packageOf id = ".".intercalate (ix.conventions.rootParts ++ ix.segmentsOf id) := by
  rw [packageOf, segmentsOf]
  induction ix.chain id with
  | nil => simp [Conventions.intercalate_rootParts]
  | cons i chain ih =>
      -- Both sides are made of segments that are not empty, so a dot stands exactly between two
      -- of them.
      have houter : ∀ s ∈ ix.conventions.rootParts ++ chain.reverse.flatMap ix.segmentsAt,
          s ≠ "" := by
        intro s hs
        rcases List.mem_append.mp hs with hroot | hsegment
        · exact Conventions.ne_empty_of_mem_rootParts hroot
        · obtain ⟨j, -, hj⟩ := List.mem_flatMap.mp hsegment
          exact ne_empty_of_isSegment (isSegment_of_mem_segmentsAt hj)
      have hown : ∀ s ∈ ix.segmentsAt i, s ≠ "" := fun s hs =>
        ne_empty_of_isSegment (isSegment_of_mem_segmentsAt hs)
      rw [List.foldr_cons, ih, h.segmentOf_eq, joinPackage_intercalate houter hown,
        List.append_assoc, List.reverse_cons, List.flatMap_append, List.flatMap_singleton]

/-- The root adds nothing, since a global block has no segments. -/
theorem Reachable.segmentsOf_root {c : Conventions} {ix : SymbolIndex} (h : ix.Reachable c) :
    ix.segmentsOf root = [] := by
  have hchain : ix.chain root = [root] :=
    chain_of_root (by rw [h.consistent.parent?_eq, h.consistent.notedParent_root])
  obtain ⟨start, hrun⟩ := h
  have hgrown := (hrun.consistent (consistent_initial c start)).2
  have hroot := hgrown.map_scope (Scope.ownSegments ix.conventions.modulePrefix) (fun _ => rfl)
    (show root < (initial c start).1.size from Nat.zero_lt_one)
  rw [segmentsOf, hchain, List.reverse_singleton, List.flatMap_singleton, segmentsAt, hroot]
  rfl

/-- A namespace inside a module or a namespace adds nothing. -/
theorem segmentsAt_of_nested {ix : SymbolIndex} {id parent : Nat} {s : Scope}
    (hs : ix.scopes[id]? = some s) (hkind : s.kind = .namespaced)
    (hparent : ix.notedParent id = some parent) (hroot : parent ≠ root) :
    ix.segmentsAt id = [] := by
  rw [notedParent, hs] at hparent
  have hparent : s.parent = some parent := hparent
  rw [segmentsAt, hs]
  exact if_pos (by simp [hkind, hparent, hroot])

/-- The package of every scope is the root package and the segments of
the scope, with single dots between them, and each segment is a name in
lower case. The root has no segments, a scope has those of its parent and
perhaps more, and a namespace in a module or a namespace has no more. -/
theorem packageOf_segments {c : Conventions} {ix : SymbolIndex} (h : ix.Reachable c) (id : Nat) :
    ix.packageOf id = ".".intercalate (c.rootParts ++ ix.segmentsOf id)
      ∧ (∀ segment ∈ ix.segmentsOf id, isSegment segment = true)
      ∧ ix.segmentsOf root = []
      ∧ ∀ parent, ix.notedParent id = some parent →
          ix.segmentsOf parent <+: ix.segmentsOf id
            ∧ ∀ s, ix.scopes[id]? = some s → s.kind = .namespaced → parent ≠ root →
                ix.packageOf id = ix.packageOf parent := by
  obtain ⟨rfl, hnamed⟩ := h.allNamed
  refine ⟨hnamed.packageOf_eq id, fun segment => isSegment_of_mem_segmentsOf, h.segmentsOf_root,
    fun parent hparent => ?_⟩
  have hup : ix.parent? id = some parent := by rw [h.consistent.parent?_eq, hparent]
  have hsegments := segmentsOf_of_parent? hup
  refine ⟨⟨_, hsegments.symm⟩, fun s hs hkind hroot => ?_⟩
  rw [hnamed.packageOf_eq, hnamed.packageOf_eq, hsegments,
    segmentsAt_of_nested hs hkind hparent hroot, List.append_nil]

/-- Without a root package, a module with an empty part and a part that
begins with a digit, and a namespace in it. -/
def digitIndex : SymbolIndex :=
  (((initial rootless {}).1.register {} "node:fs//9P é" .ambient none).1.register {} "Stats"
    .namespaced (some 1)).1

/-- It is made by registering two modules. -/
theorem reachable_digitIndex : digitIndex.Reachable rootless := by
  refine ⟨{}, .tail (.tail .refl (.register {} "node:fs//9P é" .ambient none nofun))
    (.register {} "Stats" .namespaced (some 1) ?_)⟩
  intro p hp
  cases hp
  decide +kernel

/-- The empty part leaves no trace, the digit gets an underscore, and the
namespace is in the package of the module. -/
theorem packageOf_segments_digitIndex :
    digitIndex.segmentsOf 1 = ["fs", "_9p__"] ∧ digitIndex.packageOf 2 = "fs._9p__"
      ∧ isSegment "_9p__" = true ∧ digitIndex.packageOf 2 = digitIndex.packageOf 1 := by
  obtain ⟨hpackage, hsegment, -⟩ := packageOf_segments reachable_digitIndex 1
  obtain ⟨-, -, -, hup⟩ := packageOf_segments reachable_digitIndex 2
  have hone : digitIndex.segmentsOf 1 = ["fs", "_9p__"] := by decide +kernel
  have hparent : digitIndex.notedParent 2 = some 1 := by decide +kernel
  obtain ⟨s, hs⟩ := exists_scope (show 2 < digitIndex.size by decide +kernel)
  have hkind : s.kind = .namespaced := by
    have hmap : digitIndex.scopes[2]?.map Scope.kind = some .namespaced := by decide +kernel
    rw [hs] at hmap
    exact Option.some.inj hmap
  -- A namespace inside a module adds no segment, so scope 2 has the package of scope 1.
  have hsame := (hup 1 hparent).2 s hs hkind (by decide)
  refine ⟨hone, ?_, hsegment "_9p__" (by rw [hone]; decide), hsame⟩
  rw [hsame, hpackage, hone]
  decide +kernel

end SymbolIndex

end Externals
