import Externals.Proofs.Scope.Registry

/-!
# `Externals.Proofs.Scope.Naming`: ambient modules and the global scope

Scopes are told apart by paths, and different modules can have the same
path. The global scope is not among those an ambient module can share:
its file is named `global` and stands in the root package, while an
ambient module either adds a segment to the package, which shows as one
more directory, or has nothing but slashes in its name.

* `pathOf_ambient_ne_global`: the two paths differ, whatever the root
  package, the extension and the front that names lose.
* `SymbolIndex.scopeOf_ambient_ne_root`: so a registered ambient module
  is not the global scope.
-/

set_option autoImplicit false

namespace Externals

open Text

/-! ### Segments -/

/-- A safe character is no separator, neither of packages nor of paths.
Characters that are not safe are replaced by an underscore, and letters
are put in lower case. -/
theorem safeSegmentChar_ne (c : Char) : safeSegmentChar c ≠ '/' ∧ safeSegmentChar c ≠ '.' := by
  unfold safeSegmentChar
  split
  · rename_i hsafe
    unfold Char.toLower
    split
    · -- A letter in lower case comes after both separators.
      rename_i hupper
      have hlow : 65 ≤ c.val.toNat := hupper.1
      have hhigh : c.val.toNat ≤ 90 := hupper.2
      have hval : (c.val + ('a'.val - 'A'.val)).toNat = c.val.toNat + 32 := by
        rw [UInt32.toNat_add, show ('a'.val - 'A'.val).toNat = 32 from rfl]
        omega
      refine ⟨fun heq => ?_, fun heq => ?_⟩
      · have hslash : (c.val + ('a'.val - 'A'.val)).toNat = 47 :=
          congrArg (fun d : Char => d.val.toNat) heq
        omega
      · have hdot : (c.val + ('a'.val - 'A'.val)).toNat = 46 :=
          congrArg (fun d : Char => d.val.toNat) heq
        omega
    · refine ⟨?_, ?_⟩
      · rintro rfl
        revert hsafe
        decide
      · rintro rfl
        revert hsafe
        decide
  · decide

/-- A safe segment begins with a safe character, unless there is nothing
to begin with. -/
theorem exists_cons_safeSegment {cs : List Char} (h : cs ≠ []) :
    ∃ c rest, safeSegment cs = c :: rest ∧ c ≠ '/' ∧ c ≠ '.' := by
  obtain ⟨d, ds, rfl⟩ := List.exists_cons_of_ne_nil h
  unfold safeSegment
  dsimp only
  split
  · exact ⟨'_', _, rfl, by decide⟩
  · exact ⟨safeSegmentChar d, _, rfl, safeSegmentChar_ne d⟩

/-- So does what an ambient module adds to a package, unless its name
has no parts. Parts are what stands between the slashes, and empty ones
do not count. -/
theorem packageSegment_ambient_cases (name front : String) :
    (nameParts (dropFront front.toList name.toList) = []
        ∧ packageSegment .ambient name front = "")
      ∨ ∃ c rest, (packageSegment .ambient name front).toList = c :: rest ∧ c ≠ '/' ∧ c ≠ '.' := by
  simp only [packageSegment, String.toList_ofList]
  cases hparts : nameParts (dropFront front.toList name.toList) with
  | nil => exact .inl ⟨rfl, rfl⟩
  | cons part parts =>
      -- No part of a name is empty, so the first one gives the first character of the segment.
      have hne : part ≠ [] := by
        have hmem : part ∈ nameParts (dropFront front.toList name.toList) := by
          rw [hparts]
          exact List.mem_cons_self
        simpa using (List.mem_filter.mp hmem).2
      obtain ⟨c, rest, hsegment, hsafe⟩ := exists_cons_safeSegment hne
      refine .inr ?_
      cases parts with
      | nil => exact ⟨c, rest, by simp [hsegment], hsafe⟩
      | cons other parts =>
          refine ⟨c, rest ++ '.' :: ['.'].intercalate ((other :: parts).map safeSegment), ?_, hsafe⟩
          simp [hsegment]

/-! ### Names of slashes -/

/-- A name without parts has nothing but slashes. -/
theorem eq_slash_of_nameParts {cs : List Char} (h : nameParts cs = []) : ∀ c ∈ cs, c = '/' := by
  unfold nameParts at h
  rw [List.filter_eq_nil_iff] at h
  induction cs with
  | nil => exact nofun
  | cons d cs ih =>
      by_cases hd : d = '/'
      · simp only [splitOn, hd, beq_self_eq_true, if_true, List.mem_cons, forall_eq_or_imp] at h
        intro c hc
        rcases List.mem_cons.mp hc with rfl | hmem
        · exact hd
        · exact ih h.2 c hmem
      · -- Any other character stands in a part.
        have hpart : ∃ s ∈ splitOn '/' (d :: cs), s ≠ [] := by
          simp only [splitOn, beq_iff_eq, hd, if_false]
          split
          · exact ⟨[d], List.mem_cons_self, List.cons_ne_nil _ _⟩
          · exact ⟨_, List.mem_cons_self, List.cons_ne_nil _ _⟩
        obtain ⟨s, hs, hne⟩ := hpart
        exact absurd (by simpa using hne) (h s hs)

/-- Slashes stay in camel case. -/
theorem eq_slash_of_mem_camelFrom {cs : List Char} (h : ∀ c ∈ cs, c = '/') (started upper : Bool) :
    ∀ c ∈ camelFrom started upper cs, c = '/' := by
  -- A slash is no separator of words, so it is copied, and raising it to upper case leaves
  -- it.
  induction cs generalizing started upper with
  | nil => exact nofun
  | cons d cs ih =>
      have hd : d = '/' := h d List.mem_cons_self
      subst hd
      intro c hc
      rw [camelFrom, if_neg (by decide), List.mem_cons] at hc
      rcases hc with rfl | hmem
      · split <;> decide
      · exact ih (fun c hc => h c (.tail _ hc)) _ _ c hmem

/-- An ambient module without parts in its name is not named `global`:
there is no letter in it. -/
theorem fileStem_ambient_ne {name front : String}
    (h : nameParts (dropFront front.toList name.toList) = []) :
    fileStem .ambient name front ≠ "global" := by
  intro heq
  have hstem : camelFrom false false (dropFront front.toList name.toList) = "global".toList := by
    have hlist := congrArg String.toList heq
    simp only [fileStem, h, String.toList_ofList] at hlist
    exact hlist
  -- The stem would have a letter in it, and a name without parts gives slashes only.
  have hg : 'g' ∈ camelFrom false false (dropFront front.toList name.toList) := by
    rw [hstem]
    decide
  exact absurd (eq_slash_of_mem_camelFrom (eq_slash_of_nameParts h) _ _ 'g' hg) (by decide)

/-! ### Paths -/

/-- A path, character by character: the package with slashes for its
dots, a slash, the stem and the extension. -/
theorem toList_pathOf (c : Conventions) (package stem : String) :
    (c.pathOf package stem).toList
      = package.toList.map (fun ch => if ch == '.' then '/' else ch)
          ++ '/' :: (stem.toList ++ '.' :: c.extension.toList) := by
  simp [Conventions.pathOf]

/-- An ambient module at the root has another path than the global
scope. The two could agree only if the module added no directory, or if
a directory more could be made up for by a slash in `global`. -/
theorem pathOf_ambient_ne_global (c : Conventions) (name : String) :
    c.pathOf (joinPackage c.rootPackage (packageSegment .ambient name c.modulePrefix))
        (fileStem .ambient name c.modulePrefix)
      ≠ c.pathOf c.rootPackage "global" := by
  intro heq
  have hlist := congrArg String.toList heq
  rw [toList_pathOf, toList_pathOf] at hlist
  rcases packageSegment_ambient_cases name c.modulePrefix with
    ⟨hparts, hsegment⟩ | ⟨d, rest, hsegment, hslash, hdot⟩
  · -- Without a segment the stems would be the same.
    rw [hsegment, show joinPackage c.rootPackage "" = c.rootPackage from if_pos rfl] at hlist
    simp only [List.append_cancel_left_eq, List.cons.injEq, true_and,
      List.append_cancel_right_eq, String.toList_inj] at hlist
    exact fileStem_ambient_ne hparts hlist
  · unfold joinPackage at hlist
    split at hlist
    · rename_i hempty
      rw [String.isEmpty_iff] at hempty
      rw [hempty] at hsegment
      cases hsegment
    · split at hlist
      · -- Without a root package one path begins with a slash and the other does not.
        rename_i hempty
        rw [String.isEmpty_iff] at hempty
        rw [hempty, hsegment] at hlist
        simp only [List.map_cons, beq_iff_eq, hdot, if_false, List.cons_append,
          String.toList_empty, List.map_nil, List.nil_append, List.cons.injEq] at hlist
        exact hslash hlist.1
      · -- Otherwise one has a directory more, and no slash is left on the other side.
        have hsep : ".".toList.map (fun ch => if ch == '.' then '/' else ch) = ['/'] := by decide
        simp only [String.toList_append, List.map_append, List.append_assoc,
          List.append_cancel_left_eq, hsep, List.cons_append, List.nil_append, List.cons.injEq,
          true_and] at hlist
        rw [← List.cons_append, ← List.append_assoc, List.append_cancel_right_eq] at hlist
        have hmem : '/' ∈ "global".toList := by
          rw [← hlist]
          exact List.mem_append_right _ List.mem_cons_self
        revert hmem
        decide

/-! ### Scopes -/

namespace SymbolIndex

/-- The global scope keeps its package and its path, in every index that
grew from an initial one. -/
theorem Grown.root_initial {c : Conventions} {h : Headers} {ix : SymbolIndex}
    (hgrown : (initial c h).1.Grown ix) :
    ix.conventions = c ∧ ix.packageOf root = c.rootPackage
      ∧ ix.outputPath root = c.pathOf c.rootPackage "global" := by
  have hchain : (initial c h).1.chain root = [root] := chain_of_root rfl
  have hpackage : (initial c h).1.packageOf root = c.rootPackage := by
    simp only [SymbolIndex.packageOf, hchain]
    rfl
  have hlt : root < (initial c h).1.size := Nat.zero_lt_one
  refine ⟨hgrown.conventions, (hgrown.packageOf hlt).trans hpackage, ?_⟩
  rw [hgrown.outputPath hlt, SymbolIndex.outputPath, hpackage]
  rfl

/-- An ambient module that is registered at the root is not the global
scope, because its path is another one. -/
theorem scopeOf_ambient_ne_root {c : Conventions} {h : Headers} {ix : SymbolIndex}
    (hgrown : (initial c h).1.Grown ix) (hix : ix.Consistent) {name : String}
    (hm : ix.HasModule name .ambient none) : ix.scopeOf name .ambient none ≠ root := by
  obtain ⟨hconventions, hpackage, hroot⟩ := hgrown.root_initial
  intro hscope
  -- Its path would be the path of the global scope.
  have hpath := hix.outputPath_scopeOf hm (by decide)
  rw [hscope, hroot] at hpath
  refine pathOf_ambient_ne_global c name (Eq.trans ?_ hpath.symm)
  simp only [placeOf, Option.getD_none, hpackage, hconventions]
  rfl

end SymbolIndex

end Externals
