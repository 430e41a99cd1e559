import Externals.Mapping.TypeText
import Externals.Proofs.Files.Join
import Externals.Proofs.Scope.Naming

/-!
# `Externals.Proofs.Scope.Paths`: where generated files lie

The name of an ambient module can be any text, and the path of its file
is made from it. This module says where the path leads.

A path has one dot, the one before the extension: those of the package
become slashes, and stems have none. So no part of a path goes up. And a
path is relative unless the package is empty: then nothing stands before
the slash in front of the stem, and the path is absolute.

`Scope.Named` is the invariant of all indexes. It ties what a scope
notes of its path to the module it was made for, so that facts about
names are facts about paths.

* `Reachable.allNamed`: the invariant.
* `outputPath_liesBelow`: files with a package lie below every directory
  they are generated into, files without one lie at the root.
-/

set_option autoImplicit false

namespace Externals

open Text

/-! ### Undivided texts -/

/-- A text that is one part of a path and one segment of a package: it
is not empty and holds neither a slash nor a dot. -/
def Undivided (cs : List Char) : Prop := cs ≠ [] ∧ '/' ∉ cs ∧ '.' ∉ cs

/-- Plain names are undivided, since neither a slash nor a dot is a
character of a name. -/
theorem undivided_of_isName {cs : List Char} (h : isName cs = true) : Undivided cs := by
  -- Neither separator can begin a name or go on with it.
  have hnot : ∀ c, isNameStart c = false → isNamePart c = false → c ∉ cs := by
    intro c hstart hpart hc
    cases cs with
    | nil => cases hc
    | cons d ds =>
        rw [isName, Bool.and_eq_true, List.all_eq_true] at h
        obtain ⟨hfirst, hmore⟩ := h
        rcases List.mem_cons.mp hc with rfl | hmem
        · rw [hstart] at hfirst
          exact Bool.false_ne_true hfirst
        · have hlater := hmore c hmem
          rw [hpart] at hlater
          exact Bool.false_ne_true hlater
  refine ⟨?_, hnot '/' (by decide) (by decide +kernel), hnot '.' (by decide) (by decide +kernel)⟩
  rintro rfl
  cases h

/-- Nothing, or undivided texts with dots between them. -/
def IsPackage (cs : List Char) : Prop := cs = [] ∨ ∀ part ∈ splitOn '.' cs, Undivided part

/-- The root package is a package and the extension is undivided.
Nothing is asked of the front that names lose. -/
structure Conventions.Sound (c : Conventions) : Prop where
  rootPackage : IsPackage c.rootPackage.toList
  extension : Undivided c.extension.toList

/-! ### Packages -/

/-- A text that does not begin with a separator. -/
def PlainStart (cs : List Char) : Prop := cs.head? ≠ some '.' ∧ cs.head? ≠ some '/'

/-- The empty text begins with nothing. -/
theorem plainStart_nil : PlainStart [] := ⟨nofun, nofun⟩

/-- A text begins plainly if its first character is no separator. -/
theorem plainStart_cons {c : Char} (hslash : c ≠ '/') (hdot : c ≠ '.') (cs : List Char) :
    PlainStart (c :: cs) :=
  ⟨fun h => hdot (Option.some.inj h), fun h => hslash (Option.some.inj h)⟩

/-- A package does, because its first segment is not empty. -/
theorem IsPackage.plainStart {cs : List Char} (h : IsPackage cs) : PlainStart cs := by
  rcases h with rfl | hparts
  · exact plainStart_nil
  · cases cs with
    | nil => exact plainStart_nil
    | cons c cs =>
        by_cases hdot : c = '.'
        · -- There would be an empty part before the dot.
          subst hdot
          exact absurd rfl (hparts [] (.head _)).1
        · obtain ⟨s, ss, hs⟩ := List.exists_cons_of_ne_nil (splitOn_ne_nil '.' cs)
          have hfirst := hparts (c :: s) (by rw [splitOn_cons_of_ne hdot hs]; exact .head _)
          refine plainStart_cons ?_ hdot cs
          rintro rfl
          exact hfirst.2.1 (.head _)

/-- So does what a module adds to a package, whatever its name. The
characters of a name are made safe. -/
theorem plainStart_packageSegment (kind : ModuleKind) (name front : String) :
    PlainStart (packageSegment kind name front).toList := by
  -- An empty segment starts plainly for want of a start; any other one starts with the safe
  -- first character of its first part.
  cases kind with
  | global => exact plainStart_nil
  | ambient =>
      rcases packageSegment_ambient_cases name front with ⟨-, h⟩ | ⟨c, rest, h, hslash, hdot⟩
      · rw [h]
        exact plainStart_nil
      · rw [h]
        exact plainStart_cons hslash hdot rest
  | namespaced =>
      show PlainStart (String.ofList (safeSegment name.toList)).toList
      rw [String.toList_ofList]
      by_cases hname : name.toList = []
      · rw [hname]
        exact plainStart_nil
      · obtain ⟨c, rest, h, hslash, hdot⟩ := exists_cons_safeSegment hname
        rw [h]
        exact plainStart_cons hslash hdot rest

/-- And so does a package with a further segment. -/
theorem plainStart_joinPackage {parent segment : String} (hparent : PlainStart parent.toList)
    (hsegment : PlainStart segment.toList) : PlainStart (joinPackage parent segment).toList := by
  unfold joinPackage
  split
  · exact hparent
  · split
    · exact hsegment
    · -- The first character is that of the parent.
      rename_i hne
      have hne : parent.toList ≠ [] := by simpa using hne
      obtain ⟨c, cs, hcs⟩ := List.exists_cons_of_ne_nil hne
      rw [hcs] at hparent
      rw [String.toList_append, String.toList_append, hcs]
      exact hparent

/-- A package with a further segment is empty only if both are. -/
theorem joinPackage_eq_empty_iff {parent segment : String} :
    joinPackage parent segment = "" ↔ parent = "" ∧ segment = "" := by
  unfold joinPackage
  split
  · rename_i h
    rw [String.isEmpty_iff] at h
    simp [h]
  · rename_i h
    rw [String.isEmpty_iff] at h
    split
    · rename_i h'
      rw [String.isEmpty_iff] at h'
      simp [h']
    · simp [h]

/-! ### Stems -/

/-- In upper case a character stays, or it becomes a capital letter. -/
theorem toUpper_ne {c d : Char} (hd : d.isUpper = false) (h : c ≠ d) : c.toUpper ≠ d := by
  by_cases hlower : c.val ≥ 'a'.val ∧ c.val ≤ 'z'.val
  · -- Only these letters change, and there are few.
    have hletters : ∀ n : Fin 26, (Char.ofNat (97 + n)).toUpper.isUpper = true := by decide
    have hlow : 97 ≤ c.toNat := hlower.1
    have hhigh : c.toNat ≤ 122 := hlower.2
    have hletter := hletters ⟨c.toNat - 97, by omega⟩
    rw [Nat.add_sub_cancel' hlow, Char.ofNat_toNat] at hletter
    rintro rfl
    rw [hletter] at hd
    cases hd
  · unfold Char.toUpper
    rw [dif_neg hlower]
    exact h

/-- Camel case drops dots: they end a word and are left out. -/
theorem dot_not_mem_camelFrom (cs : List Char) (started upper : Bool) :
    '.' ∉ camelFrom started upper cs := by
  induction cs generalizing started upper with
  | nil => exact List.not_mem_nil
  | cons c cs ih =>
      rw [camelFrom]
      split
      · exact ih _ _
      · rename_i hkept
        -- A dot is dropped with the other separators, and raising a letter makes none.
        have hc : c ≠ '.' := by
          rintro rfl
          exact hkept rfl
        rw [List.mem_cons, not_or]
        refine ⟨fun heq => ?_, ih _ _⟩
        split at heq
        · exact toUpper_ne (by decide) hc heq.symm
        · exact hc heq.symm

/-- A stem has no dots. That of a namespace is its name, which may have
none. -/
theorem dot_not_mem_fileStem {kind : ModuleKind} {name : String} (front : String)
    (h : kind = .namespaced → '.' ∉ name.toList) : '.' ∉ (fileStem kind name front).toList := by
  cases kind with
  | global => exact show '.' ∉ "global".toList by decide
  | ambient =>
      simp only [fileStem, String.toList_ofList]
      exact dot_not_mem_camelFrom _ _ _
  | namespaced => exact h rfl

/-! ### Paths -/

namespace Conventions

variable {c : Conventions} {package stem : String}

/-- A path is absolute exactly if there is no package. Then the slash in
front of the stem comes first. -/
theorem head?_pathOf (h : PlainStart package.toList) :
    (c.pathOf package stem).toList.head? = some '/' ↔ package = "" := by
  rw [toList_pathOf]
  -- The first character of the package is neither a dot nor a slash, so it comes through
  -- unchanged.
  cases hcs : package.toList with
  | nil => simp [String.toList_eq_nil_iff.mp hcs]
  | cons d ds =>
      rw [hcs] at h
      have hdot : d ≠ '.' := fun heq => h.1 (by rw [heq]; rfl)
      have hslash : d ≠ '/' := fun heq => h.2 (by rw [heq]; rfl)
      have hne : package ≠ "" := by
        rintro rfl
        cases hcs
      simp [hdot, hslash, hne]

/-- The only dot is the one before the extension: those of the package
have become slashes. -/
theorem count_dot_pathOf (hstem : '.' ∉ stem.toList) (hext : '.' ∉ c.extension.toList) :
    (c.pathOf package stem).toList.count '.' = 1 := by
  -- The dots of the package become slashes; the one left stands before the extension.
  have hpackage : '.' ∉ package.toList.map (fun ch => if ch == '.' then '/' else ch) := by
    rw [List.mem_map]
    rintro ⟨ch, -, heq⟩
    split at heq
    · exact absurd heq (by decide)
    · rename_i hne
      exact hne (by rw [heq]; rfl)
  rw [toList_pathOf, List.count_append, List.count_eq_zero_of_not_mem hpackage,
    List.count_cons_of_ne (by decide), List.count_append, List.count_eq_zero_of_not_mem hstem,
    List.count_cons_self, List.count_eq_zero_of_not_mem hext]

/-- No piece of a path goes up: that would take two dots. -/
theorem dots_not_mem_pathOf (hstem : '.' ∉ stem.toList) (hext : '.' ∉ c.extension.toList) :
    ['.', '.'] ∉ splitOn '/' (c.pathOf package stem).toList := by
  intro hmem
  have hle := (sublist_of_mem_splitOn hmem).count_le '.'
  rw [count_dot_pathOf hstem hext] at hle
  exact absurd hle (by decide)

/-- The same for the parts of the path as the file system reads it. -/
theorem dots_not_mem_parts_pathOf (hstem : '.' ∉ stem.toList) (hext : '.' ∉ c.extension.toList) :
    ".." ∉ (PathName.ofString (c.pathOf package stem)).parts := by
  intro hmem
  obtain ⟨piece, hpiece, heq⟩ := List.mem_map.mp (List.mem_filter.mp hmem).1
  have hdots : piece = ['.', '.'] := by
    rw [← String.toList_ofList (l := piece), heq]
    rfl
  rw [hdots] at hpiece
  exact dots_not_mem_pathOf hstem hext hpiece

/-- The last piece names a file. It is neither empty nor a dot, as it
ends with the extension. -/
theorem parts_pathOf_ne_nil (hext : Undivided c.extension.toList) :
    (PathName.ofString (c.pathOf package stem)).parts ≠ [] := by
  have hend : '/' ∉ '.' :: c.extension.toList := by
    rw [List.mem_cons, not_or]
    exact ⟨by decide, hext.2.1⟩
  obtain ⟨s, hs⟩ := exists_mem_splitOn_append hend stem.toList
  have hpart : String.ofList (s ++ '.' :: c.extension.toList)
      ∈ PathName.partsOf (stem.toList ++ '.' :: c.extension.toList) := by
    refine List.mem_filter.mpr ⟨List.mem_map_of_mem hs, ?_⟩
    -- Beside the dot there is the extension.
    obtain ⟨e, es, hes⟩ := List.exists_cons_of_ne_nil hext.1
    have hlength : 2 ≤ (String.ofList (s ++ '.' :: c.extension.toList)).length := by
      rw [String.length_ofList, List.length_append, List.length_cons, hes, List.length_cons]
      omega
    have hvoid : String.ofList (s ++ '.' :: c.extension.toList) ≠ ""
        ∧ String.ofList (s ++ '.' :: c.extension.toList) ≠ "." := by
      constructor
      · intro heq
        rw [heq] at hlength
        exact absurd hlength (by decide)
      · intro heq
        rw [heq] at hlength
        exact absurd hlength (by decide)
    simpa only [Bool.not_eq_true', Bool.or_eq_false_iff, beq_eq_false_iff_ne] using hvoid
  rw [PathName.parts_ofString, toList_pathOf, PathName.partsOf_append_cons]
  exact List.append_ne_nil_of_right_ne_nil _ (List.ne_nil_of_mem hpart)

end Conventions

/-! ### The modules that scopes are made for -/

/-- The stem and the segment of a scope are those of its module. A
namespace that does not stand at the root adds no segment. -/
structure Scope.Named (front : String) (s : Scope) : Prop where
  stem_eq : s.stem = fileStem s.kind s.rawName front
  segment_eq : s.segment
    = if s.kind == .namespaced && s.parent.getD SymbolIndex.root != SymbolIndex.root then ""
      else packageSegment s.kind s.rawName front

/-- A scope that shares the package of its parent: the global scope, a
module without any text between the slashes of its name, a namespace in
a module or a namespace. -/
def Scope.AddsNothing (front : String) (s : Scope) : Prop :=
  match s.kind with
  | .global => True
  | .ambient => nameParts (dropFront front.toList s.rawName.toList) = []
  | .namespaced => s.parent.getD SymbolIndex.root ≠ SymbolIndex.root

/-- The segment of such a scope begins plainly. -/
theorem Scope.Named.plainStart_segment {front : String} {s : Scope} (h : s.Named front) :
    PlainStart s.segment.toList := by
  rw [h.segment_eq]
  split
  · exact plainStart_nil
  · exact plainStart_packageSegment _ _ _

/-- Which scopes have no segment: those that share the package of their
parent. -/
theorem Scope.Named.segment_eq_empty_iff {front : String} {s : Scope} (h : s.Named front)
    (hname : s.kind = .namespaced → s.rawName.toList ≠ []) :
    s.segment = "" ↔ s.AddsNothing front := by
  rw [h.segment_eq, Scope.AddsNothing]
  -- An ambient module adds nothing when its name has no parts, a namespace when it stands
  -- inside another module, the global scope always.
  cases hkind : s.kind with
  | global => exact iff_of_true rfl trivial
  | ambient =>
      show packageSegment .ambient s.rawName front = "" ↔ _
      rcases packageSegment_ambient_cases s.rawName front with ⟨hparts, h⟩ | ⟨c, rest, h, -⟩
      · exact iff_of_true h hparts
      · refine iff_of_false (fun hempty => ?_) (fun hparts => ?_)
        · rw [hempty] at h
          cases h
        · simp [packageSegment, hparts] at h
  | namespaced =>
      by_cases hparent : s.parent.getD SymbolIndex.root = SymbolIndex.root
      · obtain ⟨c, rest, hsegment, -⟩ := exists_cons_safeSegment (hname hkind)
        simp [hparent, packageSegment, hsegment]
      · simp [hparent]

namespace SymbolIndex

/-- All scopes are named for their modules. -/
def AllNamed (ix : SymbolIndex) : Prop := ∀ s ∈ ix.scopes, s.Named ix.conventions.modulePrefix

/-- The global scope is named for the global module. -/
theorem allNamed_initial (c : Conventions) (h : Headers) : (initial c h).1.AllNamed := by
  intro s hs
  rw [List.mem_singleton.mp hs]
  exact ⟨rfl, rfl⟩

/-- What is in a scope does not matter to its name. -/
theorem AllNamed.of_bare {a b : SymbolIndex} (h : a.AllNamed)
    (hc : b.conventions = a.conventions)
    (hb : b.scopes.map Scope.bare = a.scopes.map Scope.bare) : b.AllNamed := by
  intro s hs
  -- How a scope is named does not depend on its tables, so it can be read off the bare
  -- scope.
  have hmem : s.bare ∈ a.scopes.map Scope.bare := by
    rw [← hb]
    exact List.mem_map_of_mem hs
  obtain ⟨old, hold, hbare⟩ := List.mem_map.mp hmem
  have hnamed : old.bare.Named a.conventions.modulePrefix :=
    ⟨(h old hold).stem_eq, (h old hold).segment_eq⟩
  rw [hbare, ← hc] at hnamed
  exact ⟨hnamed.stem_eq, hnamed.segment_eq⟩

/-- A new scope is named for its module, and the others stay as they
are. -/
theorem AllNamed.register {ix : SymbolIndex} (h : ix.AllNamed) (hs : Headers) (name : String)
    (kind : ModuleKind) (parent : Option Nat) : (ix.register hs name kind parent).1.AllNamed := by
  by_cases hm : ix.HasModule name kind parent
  · rw [register_kept hm]
    exact h
  · rw [register_made hm]
    intro s hs
    rcases List.mem_append.mp hs with hold | hnew
    · exact h s hold
    · rw [List.mem_singleton.mp hnew]
      exact ⟨rfl, rfl⟩

/-- One operation keeps the invariant, since only registering makes a
scope. -/
theorem Step.allNamed {a b : SymbolIndex} (hstep : a.Step b) (h : a.AllNamed) : b.AllNamed := by
  rcases hstep.bare_or_registered with ⟨hc, -, hb⟩ | ⟨hs, name, kind, parent, -, rfl⟩
  · exact h.of_bare hc hb
  · exact h.register hs name kind parent

/-- Scopes are named for their modules after any number of operations. -/
theorem Later.allNamed {a b : SymbolIndex} (hlater : a.Later b) (h : a.AllNamed) : b.AllNamed := by
  induction hlater with
  | refl => exact h
  | tail _ hstep ih => exact hstep.allNamed ih

/-- All scopes of an index are named for the modules they were made for. -/
theorem Reachable.allNamed {c : Conventions} {ix : SymbolIndex} (h : ix.Reachable c) :
    ix.conventions = c ∧ ix.AllNamed := by
  obtain ⟨start, hrun⟩ := h
  exact ⟨(hrun.consistent (consistent_initial c start)).2.conventions,
    hrun.allNamed (allNamed_initial c start)⟩

/-! ### Where files lie -/

/-- Packages do not begin with a separator, by induction along the
chain. -/
theorem AllNamed.plainStart_packageOf {ix : SymbolIndex} (h : ix.AllNamed)
    (hroot : PlainStart ix.conventions.rootPackage.toList) (id : Nat) :
    PlainStart (ix.packageOf id).toList := by
  have hsegment : ∀ i, PlainStart (ix.segmentOf i).toList := by
    intro i
    unfold segmentOf
    cases hs : ix.scopes[i]? with
    | none => exact plainStart_nil
    | some s => exact (h s (List.mem_of_getElem? hs)).plainStart_segment
  rw [packageOf]
  -- Up the chain, one segment is joined at a time, from the root package on.
  induction ix.chain id with
  | nil => exact hroot
  | cons i chain ih => exact plainStart_joinPackage ih (hsegment i)

/-- A package is empty if there is no root package and no segment. -/
theorem packageOf_eq_empty_iff {ix : SymbolIndex} {id : Nat} :
    ix.packageOf id = ""
      ↔ ix.conventions.rootPackage = "" ∧ ∀ i ∈ ix.chain id, ix.segmentOf i = "" := by
  rw [packageOf]
  induction ix.chain id with
  | nil => simp
  | cons i chain ih =>
      rw [List.foldr_cons, joinPackage_eq_empty_iff, ih, List.forall_mem_cons, and_assoc,
        and_comm (a := ix.segmentOf i = "")]

/-- Stems have no dots, if the names of namespaces have none. -/
theorem AllNamed.dot_not_mem_stem {ix : SymbolIndex} (h : ix.AllNamed)
    (hnames : ∀ s ∈ ix.scopes, s.kind = .namespaced → Undivided s.rawName.toList) (id : Nat) :
    '.' ∉ ((ix.scopes[id]?.map Scope.stem).getD "").toList := by
  cases hs : ix.scopes[id]? with
  | none => exact List.not_mem_nil
  | some s =>
      have hmem := List.mem_of_getElem? hs
      show '.' ∉ s.stem.toList
      rw [(h s hmem).stem_eq]
      exact dot_not_mem_fileStem _ fun hkind => (hnames s hmem hkind).2.2

/-- Where the file of a scope lies, whatever the names of ambient modules
are. No piece of its path goes up. Its path is relative exactly if the
scope has a package, and then the file lies below every directory that
files are generated into. A scope has no package exactly if there is no
root package and nothing on its chain adds a segment; its file then lies
at the root of the file system, whatever the directory. -/
theorem outputPath_liesBelow {c : Conventions} (hc : c.Sound) {ix : SymbolIndex}
    (h : ix.Reachable c)
    (hnames : ∀ s ∈ ix.scopes, s.kind = .namespaced → Undivided s.rawName.toList) (id : Nat) :
    ['.', '.'] ∉ splitOn '/' (ix.outputPath id).toList
      ∧ ((ix.outputPath id).toList.head? = some '/' ↔ ix.packageOf id = "")
      ∧ (ix.packageOf id = "" ↔ c.rootPackage = ""
          ∧ ∀ i ∈ ix.chain id, ∀ s, ix.scopes[i]? = some s → s.AddsNothing c.modulePrefix)
      ∧ (ix.packageOf id ≠ "" → ∀ directory, PathName.LiesBelow (.ofString directory)
          (.ofString (joinPath directory (ix.outputPath id))))
      ∧ (ix.packageOf id = "" →
          ∀ directory, joinPath directory (ix.outputPath id) = ix.outputPath id) := by
  obtain ⟨rfl, hnamed⟩ := h.allNamed
  have hstem := hnamed.dot_not_mem_stem hnames id
  have hext := hc.extension.2.2
  have habsolute : (ix.outputPath id).toList.head? = some '/' ↔ ix.packageOf id = "" :=
    Conventions.head?_pathOf (hnamed.plainStart_packageOf hc.rootPackage.plainStart id)
  -- A package is empty if no scope on the chain adds to it, and what a scope adds is told by
  -- its module.
  have hsegments : (∀ i ∈ ix.chain id, ix.segmentOf i = "")
      ↔ ∀ i ∈ ix.chain id, ∀ s, ix.scopes[i]? = some s →
          s.AddsNothing ix.conventions.modulePrefix := by
    refine forall₂_congr fun i _ => ?_
    unfold segmentOf
    cases hs : ix.scopes[i]? with
    | none => exact iff_of_true rfl nofun
    | some s =>
        have hmem := List.mem_of_getElem? hs
        have hempty := (hnamed s hmem).segment_eq_empty_iff fun hkind => (hnames s hmem hkind).1
        show s.segment = "" ↔ _
        rw [hempty]
        exact ⟨fun hadds t ht => Option.some.inj ht ▸ hadds, fun hall => hall s rfl⟩
  refine ⟨Conventions.dots_not_mem_pathOf hstem hext, habsolute,
    packageOf_eq_empty_iff.trans (and_congr_right' hsegments), fun hpackage directory => ?_,
    fun hpackage directory => ?_⟩
  · exact PathName.liesBelow_joinPath directory (mt habsolute.mp hpackage)
      (Conventions.parts_pathOf_ne_nil hc.extension)
      (Conventions.dots_not_mem_parts_pathOf hstem hext)
  · rw [joinPath, if_pos]
    exact beq_iff_eq.mpr (habsolute.mpr hpackage)

/-- No root package. -/
def rootless : Conventions := { rootPackage := "" }

/-- Such conventions are sound: having no root package is allowed. -/
theorem sound_rootless : rootless.Sound :=
  ⟨.inl rfl, undivided_of_isName (by decide +kernel)⟩

/-- Without a root package, a module whose name goes up, and a namespace
in it. -/
def upwardIndex : SymbolIndex :=
  (((initial rootless {}).1.register {} "../.." .ambient none).1.register {} "Up" .namespaced
    (some 1)).1

/-- It is made by registering two modules. -/
theorem reachable_upwardIndex : upwardIndex.Reachable rootless := by
  refine ⟨{}, .tail (.tail .refl (.register {} "../.." .ambient none nofun))
    (.register {} "Up" .namespaced (some 1) ?_)⟩
  intro p hp
  cases hp
  decide +kernel

/-- The name of its namespace is undivided. -/
theorem undivided_upwardIndex :
    ∀ s ∈ upwardIndex.scopes, s.kind = .namespaced → Undivided s.rawName.toList := by
  intro s hs hkind
  have hname : (upwardIndex.scopes.all fun s =>
      !(s.kind == .namespaced) || isName s.rawName.toList) = true := by decide +kernel
  have hs' := List.all_eq_true.mp hname s hs
  rw [hkind] at hs'
  exact undivided_of_isName hs'

/-- The module and the namespace stay in the output directory, and the
file of the global scope leaves it. -/
theorem outputPath_liesBelow_upwardIndex :
    PathName.LiesBelow (.ofString "out") (.ofString (joinPath "out" (upwardIndex.outputPath 2)))
      ∧ upwardIndex.outputPath 2 = "__/__/Up.kt"
      ∧ (upwardIndex.outputPath root).toList.head? = some '/'
      ∧ joinPath "out" (upwardIndex.outputPath root) = "/global.kt" := by
  obtain ⟨-, -, -, hbelow, -⟩ :=
    outputPath_liesBelow sound_rootless reachable_upwardIndex undivided_upwardIndex 2
  obtain ⟨-, habsolute, -, -, hleaves⟩ :=
    outputPath_liesBelow sound_rootless reachable_upwardIndex undivided_upwardIndex root
  have hempty : upwardIndex.packageOf root = "" := by decide +kernel
  refine ⟨hbelow (by decide +kernel) "out", by decide +kernel, habsolute.mpr hempty, ?_⟩
  rw [hleaves hempty]
  decide +kernel

end SymbolIndex

end Externals
