import Externals.Proofs.Scope.Paths

/-!
# `Externals.Proofs.Scope.Packages`: a path tells its package

The path of a scope is its package, with slashes for the dots, and then
a slash and the stem. Scopes are told apart by their paths, so two of
them with the same path are one, and the question is whether they would
have had the same package. A path could be read in two ways if a slash
of it came from the stem, or from the package before its dots were
replaced.

Stems have no slashes, unless an ambient module has nothing else in its
name. Segments have none either; only the root package may, and all
packages begin with it. So the part of a path behind the root package
tells the dots of the package from everything else.

* `Conventions.pathOf_inj`: the stem is what follows the last slash.
* `AllNamed.underRoot_packageOf`: packages have no slash behind the root
  package.
* `AllNamed.packageOf_of_outputPath`: a scope with the path of a package
  and a stem has this package.
-/

set_option autoImplicit false

namespace Externals

open Text

/-! ### The last slash -/

namespace Text

/-- Pieces do not hold the character they are cut at. -/
theorem not_mem_of_mem_splitOn {sep : Char} {cs piece : List Char} (h : piece ∈ splitOn sep cs) :
    sep ∉ piece := by
  induction cs generalizing piece with
  | nil =>
      rw [List.mem_singleton.mp h]
      exact List.not_mem_nil
  | cons c cs ih =>
      -- A separator starts a new piece and joins none; any other character joins the first.
      by_cases hc : c = sep
      · simp only [splitOn, hc, beq_self_eq_true, if_true, List.mem_cons] at h
        rcases h with rfl | hmem
        · exact List.not_mem_nil
        · exact ih hmem
      · obtain ⟨s, ss, hs⟩ := List.exists_cons_of_ne_nil (splitOn_ne_nil sep cs)
        rw [splitOn_cons_of_ne hc hs, List.mem_cons] at h
        rw [hs] at ih
        rcases h with rfl | hmem
        · rw [List.mem_cons, not_or]
          exact ⟨Ne.symm hc, ih (.head _)⟩
        · exact ih (.tail _ hmem)

/-- A text is cut at its last separator in one way. -/
theorem append_cons_inj {sep : Char} {front front' last last' : List Char} (h : sep ∉ last)
    (h' : sep ∉ last') (heq : front ++ sep :: last = front' ++ sep :: last') :
    front = front' ∧ last = last' := by
  have hpieces := congrArg (splitOn sep) heq
  rw [splitOn_append_cons, splitOn_append_cons, splitOn_of_not_mem h, splitOn_of_not_mem h']
    at hpieces
  obtain rfl : last = last' := by simpa using (List.append_inj' hpieces rfl).2
  exact ⟨List.append_cancel_right heq, rfl⟩

end Text

/-! ### Segments and stems -/

/-- A safe segment has no slashes, as no safe character is one. -/
theorem slash_not_mem_safeSegment (cs : List Char) : '/' ∉ safeSegment cs := by
  -- Every character that is not safe becomes an underscore, and so is the one put in front.
  have hmap : '/' ∉ cs.map safeSegmentChar := by
    rw [List.mem_map]
    rintro ⟨c, -, hc⟩
    exact (safeSegmentChar_ne c).1 hc
  unfold safeSegment
  dsimp only
  split
  · rw [List.mem_cons, not_or]
    exact ⟨by decide, hmap⟩
  · exact hmap

/-- What a module adds to a package has none either. The segments of an
ambient module are joined with dots. -/
theorem slash_not_mem_packageSegment (kind : ModuleKind) (name front : String) :
    '/' ∉ (packageSegment kind name front).toList := by
  cases kind with
  | global => exact List.not_mem_nil
  | namespaced =>
      simp only [packageSegment, String.toList_ofList]
      exact slash_not_mem_safeSegment _
  | ambient =>
      simp only [packageSegment, String.toList_ofList]
      -- The parts are joined by dots, so a slash would have to come from one of them.
      induction nameParts (dropFront front.toList name.toList) with
      | nil => exact List.not_mem_nil
      | cons part parts ih =>
          cases parts with
          | nil =>
              rw [List.map_singleton, List.intercalate_singleton]
              exact slash_not_mem_safeSegment part
          | cons next parts =>
              rw [List.map_cons, List.map_cons, List.intercalate_cons_cons]
              simp only [List.mem_append, not_or]
              exact ⟨⟨slash_not_mem_safeSegment part, by decide⟩, ih⟩

/-- Camel case brings no slashes in: a character stays as it is, or
becomes a capital letter. -/
theorem slash_not_mem_camelFrom {cs : List Char} (h : '/' ∉ cs) (started upper : Bool) :
    '/' ∉ camelFrom started upper cs := by
  induction cs generalizing started upper with
  | nil => exact List.not_mem_nil
  | cons c cs ih =>
      rw [List.mem_cons, not_or] at h
      rw [camelFrom]
      split
      · exact ih h.2 _ _
      · rw [List.mem_cons, not_or]
        refine ⟨fun heq => ?_, ih h.2 _ _⟩
        split at heq
        · exact toUpper_ne (by decide) (Ne.symm h.1) heq.symm
        · exact h.1 heq

/-- A stem has no slashes, or nothing else. The latter happens for an
ambient module whose name is nothing but slashes. -/
theorem slash_fileStem {kind : ModuleKind} {name : String} (front : String)
    (h : kind = .namespaced → '/' ∉ name.toList) :
    '/' ∉ (fileStem kind name front).toList ∨ ∀ c ∈ (fileStem kind name front).toList, c = '/' := by
  cases kind with
  | global => exact .inl (show '/' ∉ "global".toList by decide)
  | namespaced => exact .inl (h rfl)
  | ambient =>
      simp only [fileStem, String.toList_ofList]
      -- Without parts the name is all slashes; otherwise the stem comes from the last part,
      -- which has none.
      cases hlast : (nameParts (dropFront front.toList name.toList)).getLast? with
      | none =>
          rw [List.getLast?_eq_none_iff] at hlast
          exact .inr (eq_slash_of_mem_camelFrom (eq_slash_of_nameParts hlast) _ _)
      | some part =>
          have hpart := (List.mem_filter.mp (List.mem_of_getLast? hlast)).1
          exact .inl (slash_not_mem_camelFrom (not_mem_of_mem_splitOn hpart) _ _)

/-- What follows the last slash of a path is the stem with the extension,
so that a stem and a package with slashes for its dots can be read off. -/
theorem Conventions.pathOf_inj {c : Conventions} {package package' stem stem' : String}
    (hstem : '/' ∉ stem.toList ∨ ∀ ch ∈ stem.toList, ch = '/') (hstem' : '/' ∉ stem'.toList)
    (hne : stem' ≠ "") (heq : c.pathOf package stem = c.pathOf package' stem') :
    package.toList.map (fun ch => if ch == '.' then '/' else ch)
        = package'.toList.map (fun ch => if ch == '.' then '/' else ch)
      ∧ stem = stem' := by
  have hlist := congrArg String.toList heq
  rw [toList_pathOf, toList_pathOf, ← List.cons_append, ← List.append_assoc, ← List.cons_append,
    ← List.append_assoc] at hlist
  replace hlist := List.append_cancel_right hlist
  rcases hstem with hstem | hstem
  · obtain ⟨hpackage, hsame⟩ := append_cons_inj hstem hstem' hlist
    exact ⟨hpackage, String.toList_inj.mp hsame⟩
  · -- A stem of slashes ends the path with a slash, and the other stem does not.
    have hslash : stem.toList.getLast?.getD '/' = '/' := by
      cases hch : stem.toList.getLast? with
      | none => rfl
      | some ch => exact hstem ch (List.mem_of_getLast? hch)
    have hlist' : stem'.toList ≠ [] := fun h => hne (String.toList_eq_nil_iff.mp h)
    obtain ⟨ch, hch⟩ := Option.isSome_iff_exists.mp (List.getLast?_isSome.mpr hlist')
    have hlast := congrArg List.getLast? hlist
    rw [List.getLast?_append, List.getLast?_append, List.getLast?_cons, List.getLast?_cons,
      Option.some_or, Option.some_or, hslash, hch] at hlast
    obtain rfl : '/' = ch := Option.some.inj hlast
    exact absurd (List.mem_of_getLast? hch) hstem'

/-! ### Packages below the root package -/

/-- A text that begins with the root package and has no slash behind it.
The root package comes from the configuration and may hold anything, but
it is the same for all packages. -/
def Conventions.UnderRoot (c : Conventions) (package : String) : Prop :=
  ∃ rest, '/' ∉ rest ∧ package.toList = c.rootPackage.toList ++ rest

namespace Conventions.UnderRoot

variable {c : Conventions}

/-- The root package itself is such a text. -/
theorem rootPackage (c : Conventions) : c.UnderRoot c.rootPackage :=
  ⟨[], List.not_mem_nil, (List.append_nil _).symm⟩

/-- A further segment keeps this, if there is no slash in it. -/
theorem joinPackage {parent segment : String} (h : c.UnderRoot parent)
    (hsegment : '/' ∉ segment.toList) : c.UnderRoot (joinPackage parent segment) := by
  obtain ⟨rest, hrest, hparent⟩ := h
  unfold Externals.joinPackage
  split
  · exact ⟨rest, hrest, hparent⟩
  · split
    · -- Nothing stands before the segment, so there is no root package either.
      rename_i hempty
      rw [String.isEmpty_iff] at hempty
      rw [hempty] at hparent
      have hroot : c.rootPackage.toList = [] := (List.append_eq_nil_iff.mp hparent.symm).1
      exact ⟨segment.toList, hsegment, by rw [hroot, List.nil_append]⟩
    · refine ⟨rest ++ '.' :: segment.toList, ?_, ?_⟩
      · rw [List.mem_append, List.mem_cons, not_or, not_or]
        exact ⟨hrest, by decide, hsegment⟩
      · rw [String.toList_append, String.toList_append, hparent, List.append_assoc,
          List.append_assoc]
        rfl

/-- Slashes for dots keep these packages apart. Behind the root package
a slash always comes from a dot. -/
theorem eq_of_slashes {package package' : String} (h : c.UnderRoot package)
    (h' : c.UnderRoot package')
    (heq : package.toList.map (fun ch => if ch == '.' then '/' else ch)
      = package'.toList.map (fun ch => if ch == '.' then '/' else ch)) : package = package' := by
  -- Behind the root package every slash was a dot before.
  have hback : ∀ rest : List Char, '/' ∉ rest →
      (rest.map fun ch => if ch == '.' then '/' else ch).map
        (fun ch => if ch == '/' then '.' else ch) = rest := by
    intro rest hrest
    rw [List.map_map]
    refine Eq.trans (List.map_congr_left fun ch hch => ?_) (List.map_id rest)
    have hne : ch ≠ '/' := fun heq => hrest (heq ▸ hch)
    by_cases hdot : ch = '.'
    · simp [hdot]
    · simp [hdot, hne]
  obtain ⟨rest, hrest, hlist⟩ := h
  obtain ⟨rest', hrest', hlist'⟩ := h'
  rw [hlist, hlist', List.map_append, List.map_append] at heq
  have hsame : rest = rest' := by
    rw [← hback rest hrest, ← hback rest' hrest', List.append_cancel_left heq]
  rw [← String.toList_inj, hlist, hlist', hsame]

end Conventions.UnderRoot

namespace SymbolIndex.AllNamed

variable {ix : SymbolIndex} (h : ix.AllNamed)

include h

/-- Packages have no slash behind the root package: each scope on the
chain adds a segment without one. -/
theorem underRoot_packageOf (id : Nat) : ix.conventions.UnderRoot (ix.packageOf id) := by
  have hsegment : ∀ i, '/' ∉ (ix.segmentOf i).toList := by
    intro i
    unfold segmentOf
    cases hs : ix.scopes[i]? with
    | none => exact List.not_mem_nil
    | some s =>
        show '/' ∉ s.segment.toList
        rw [(h s (List.mem_of_getElem? hs)).segment_eq]
        split
        · exact List.not_mem_nil
        · exact slash_not_mem_packageSegment _ _ _
  rw [packageOf]
  -- The package is joined up the chain, one segment without a slash at a time.
  induction ix.chain id with
  | nil => exact .rootPackage ix.conventions
  | cons i chain ih => exact ih.joinPackage (hsegment i)

/-- A scope with the path of a package and a stem has this package. So a
module that finds a scope by its path finds one of the package that it
would have got. -/
theorem packageOf_of_outputPath
    (hnames : ∀ s ∈ ix.scopes, s.kind = .namespaced → '/' ∉ s.rawName.toList) {id : Nat}
    {package stem : String} (hpackage : ix.conventions.UnderRoot package)
    (hstem : '/' ∉ stem.toList) (hne : stem ≠ "")
    (hpath : ix.outputPath id = ix.conventions.pathOf package stem) :
    ix.packageOf id = package := by
  -- The stem is free of slashes or made of them alone, so the path can be cut where the
  -- package ends.
  have hown : '/' ∉ ((ix.scopes[id]?.map Scope.stem).getD "").toList
      ∨ ∀ ch ∈ ((ix.scopes[id]?.map Scope.stem).getD "").toList, ch = '/' := by
    cases hs : ix.scopes[id]? with
    | none => exact .inl List.not_mem_nil
    | some s =>
        have hmem := List.mem_of_getElem? hs
        have hslash := slash_fileStem ix.conventions.modulePrefix (hnames s hmem)
        rw [← (h s hmem).stem_eq] at hslash
        exact hslash
  exact (h.underRoot_packageOf id).eq_of_slashes hpackage
    (Conventions.pathOf_inj hown hstem hne hpath).1

end SymbolIndex.AllNamed

end Externals
