import Externals.Proofs.Project.FreshRun
import Externals.Proofs.Project.Founders
import Externals.Proofs.Scope.Embedding
import Externals.Proofs.Scope.Naming

/-!
# `Externals.Proofs.Project.Alone`: a file among others

What a file would give on its own, and what it gives after other files.
`alone c file` is the index of a project that collected nothing but the
file. When a walk through files comes to it, the scopes of the file are
added behind those that are there, in the order they have in `alone`,
and its statements are filed in the corresponding scopes: the joint
index holds a copy of the one of the file.

This needs that the file does not share a scope with an earlier one. The
two walks are followed in lockstep, move by move (`Lockstep.step`), and the
only place where they could part is a module whose path belongs to a scope
of an earlier file: the joint walk would find it, the other would make it.
`Clear` excludes that, for each earlier scope in one of two ways. The
joint walk does not come to it, or its path is none of the file's own.

* `Laid`: from a certain number on, the scopes of an index are copies of
  the scopes of files, one file after the other.
* `laid_collect`: so it is after files with separate scopes were collected.
* `Laid.separate`: such files have separate paths also on their own,
  which does not depend on their order.
-/

set_option autoImplicit false

namespace Externals.Project

open SymbolIndex (root moved Embedded Copied)

/-! ### Two walks through the same statements -/

/-- None of the first `n` scopes is met by two walks, a joint one with
the visits `vs` that ends in `P`, and another with the visits `ws` that
ends in `Q`. The first alternative is about the joint walk alone, the
second about paths, which both walks have in common. -/
def Clear (n : Nat) (P Q : SymbolIndex) (vs ws : List Visit) : Prop :=
  ∀ id, root < id → id < n →
    (∀ v ∈ vs, v.scope ≠ id) ∨ ∀ w ∈ ws, P.outputPath id ≠ Q.outputPath w.scope

/-- Walks with fewer visits are clear as well. So a condition on whole
walks can be used at each move of them. -/
theorem Clear.of_subset {n : Nat} {P Q : SymbolIndex} {vs vs' ws ws' : List Visit}
    (h : Clear n P Q vs' ws') (hvs : vs ⊆ vs') (hws : ws ⊆ ws') : Clear n P Q vs ws :=
  fun id hpos hid => (h id hpos hid).imp (fun hv v hm => hv v (hvs hm)) fun hw w hm => hw w (hws hm)

/-- The filings of a walk in the copies of its scopes: the same
statements in the same order. -/
def movedFilings (n : Nat) (fs : List Filing) : List Filing := fs.map fun f => (moved n f.1, f.2)

/-- Filings are moved one by one. -/
theorem movedFilings_append (n : Nat) (fs gs : List Filing) :
    movedFilings n (fs ++ gs) = movedFilings n fs ++ movedFilings n gs := List.map_append

/-- The statements that are filed in a scope, in order. -/
def statementsAt (id : Nat) (fs : List Filing) : List Statement :=
  fs.filterMap fun f => if f.1 = id then some f.2 else none

/-- What is filed in a scope by two walks, one after the other. -/
theorem statementsAt_append (id : Nat) (fs gs : List Filing) :
    statementsAt id (fs ++ gs) = statementsAt id fs ++ statementsAt id gs := List.filterMap_append

/-- Nothing is filed in a scope that no filing names. -/
theorem statementsAt_eq_nil {id : Nat} {fs : List Filing} (h : ∀ f ∈ fs, f.1 ≠ id) :
    statementsAt id fs = [] := by
  rw [statementsAt, List.filterMap_eq_nil_iff]
  exact fun f hf => if_neg (h f hf)

/-- A copy is given the statements of its original. This needs that no
two scopes have the same copy. -/
theorem statementsAt_movedFilings {n : Nat} (hn : root < n) (j : Nat) (fs : List Filing) :
    statementsAt (moved n j) (movedFilings n fs) = statementsAt j fs := by
  rw [statementsAt, movedFilings, List.filterMap_map, statementsAt]
  congr 1
  funext f
  by_cases hf : f.1 = j
  · simp [hf]
  · have hne : moved n f.1 ≠ moved n j := fun heq => hf (SymbolIndex.moved_injective hn heq)
    simp [hf, hne]

/-- What a project holds besides its scopes does not matter to copies. -/
theorem Copied.sameTree {n : Nat} {p p' q q' : Project} (h : Copied n q.index p.index)
    (hp : SameTree p p') (hq : SameTree q q') : Copied n q'.index p'.index :=
  h.of_bare hp.conventions hp.byPath hp.bare hq.conventions hq.byPath hq.bare

section

variable {n : Nat} {P Q : SymbolIndex}

/-- Two walks in lockstep: the scopes of one are copies of those of the
other, it is in the copies of the scopes the other is in, and it has
filed the same statements in the copies of their scopes. -/
structure Lockstep (n : Nat) (w u : Walk) : Prop where
  copied : Copied n u.index w.index
  scopes : w.trail.scopes = u.trail.scopes.map (moved n)
  filings : w.trail.filings = movedFilings n u.trail.filings

/-- So the one walk is at the copy of the scope that the other is at. -/
theorem Lockstep.here {w u : Walk} (h : Lockstep n w u) : w.trail.here = moved n u.trail.here := by
  rw [Trail.here, Trail.here, h.scopes]
  cases u.trail.scopes with
  | nil => exact (SymbolIndex.moved_root n).symm
  | cons id ids => rfl

/-- Entering a module in both walks. They could part here: the joint walk
could find the path of the module at a scope that is no copy, where the
other walk makes a scope. -/
theorem Lockstep.enter (hQ : Q.Consistent) {w u : Walk} (h : Lockstep n w u) (hw : w.Inside)
    (hu : u.Inside) (name : String) (kind : ModuleKind)
    (hP : (w.step (.enter name kind)).index.Grown P)
    (hQ' : (u.step (.enter name kind)).index.Grown Q)
    (hclear : Clear n P Q (w.step (.enter name kind)).trail.visits
      (u.step (.enter name kind)).trail.visits) :
    Copied n (u.step (.enter name kind)).index (w.step (.enter name kind)).index
      ∧ w.find name kind w.trail.here = moved n (u.find name kind u.trail.here) := by
  have houter := hw.entered name kind
  have hinner := hu.entered name kind
  have hplace := h.copied.placeOf hu.within.here_lt name kind
  have hboth := h.copied.register hu.within.here_lt name kind w.state.1.headers u.state.1.headers
  rw [← h.here] at hplace hboth
  -- All that is left to show: a scope that the joint walk finds at this path is a copy, or the
  -- global one. Suppose that it belongs to an earlier file.
  refine hboth fun hkind id hid => Decidable.byContradiction fun hcopy => ?_
  rw [not_or] at hcopy
  have hpos : root < id := Nat.pos_of_ne_zero hcopy.1
  rcases hclear id hpos (Nat.lt_of_not_le hcopy.2) with hmiss | hmiss
  · -- The joint walk finds the scope, so its visit leads there.
    rw [← hplace] at hid
    obtain ⟨hm, hscope⟩ := SymbolIndex.scopeOf_of_byPath (some w.trail.here) hkind hid
    refine hmiss ⟨name, kind, w.trail.here, w.find name kind w.trail.here⟩
      (List.mem_append_right _ List.mem_cons_self) ?_
    exact (houter.scope_eq.trans
      (houter.grown.scopeOf (some w.trail.here) hw.within.here_lt hm)).trans hscope
  · -- The other walk has a scope with the path of this one.
    obtain ⟨hlt, hpath⟩ := (h.copied.outer.byPath_iff _ id).mp hid
    obtain ⟨hmodule, hscope⟩ := hinner.later hu.within.here_lt hQ'
    refine hmiss ⟨name, kind, u.trail.here, u.find name kind u.trail.here⟩
      (List.mem_append_right _ List.mem_cons_self) ?_
    have hgrown := (hw.grown_step (.enter name kind)).trans hP
    have hgrown' := (hu.grown_step (.enter name kind)).trans hQ'
    rw [← hscope, hQ.outputPath_scopeOf hmodule hkind, hgrown.outputPath hlt, hpath,
      Option.getD_some, hgrown'.placeOf name kind hu.within.here_lt]

/-- The same move in both walks. Filing and leaving touch no scope of
the index, so all that can go wrong is entering. -/
theorem Lockstep.step (hQ : Q.Consistent) {w u : Walk} (h : Lockstep n w u) (hw : w.Inside)
    (hu : u.Inside) (m : Move) (hP : (w.step m).index.Grown P) (hQ' : (u.step m).index.Grown Q)
    (hclear : Clear n P Q (w.step m).trail.visits (u.step m).trail.visits) :
    Lockstep n (w.step m) (u.step m) := by
  -- Leaving and filing touch no scope, so the copy is unchanged and only the trail moves;
  -- entering may register a scope, and `Lockstep.enter` says it is registered on both sides.
  cases m with
  | leave =>
      refine ⟨h.copied, ?_, h.filings⟩
      rw [Walk.trail_step, Walk.trail_step, Trail.step, Trail.step, h.scopes, List.map_tail]
  | file s =>
      refine ⟨Copied.sameTree h.copied (gatherOne_sameTree hw.within.here_lt w.state.2 s)
        (gatherOne_sameTree hu.within.here_lt u.state.2 s), h.scopes, ?_⟩
      rw [Walk.trail_step, Walk.trail_step, Trail.step, Trail.step, h.filings, h.here,
        movedFilings_append]
      rfl
  | enter name kind =>
      obtain ⟨hcopied, hfind⟩ := h.enter hQ hw hu name kind hP hQ' hclear
      refine ⟨hcopied, ?_, h.filings⟩
      rw [Walk.trail_step, Walk.trail_step, Trail.step, Trail.step, hfind, h.scopes, List.map_cons]

/-- The same moves in both walks. The last indexes have grown from those
at each move, which is why they are fixed from the start. -/
theorem Lockstep.run (hQ : Q.Consistent) (ms : List Move) {w u : Walk} (h : Lockstep n w u)
    (hw : w.Inside) (hu : u.Inside) (hP : (w.run ms).index.Grown P)
    (hQ' : (u.run ms).index.Grown Q)
    (hclear : Clear n P Q (w.run ms).trail.visits (u.run ms).trail.visits) :
    Lockstep n (w.run ms) (u.run ms) := by
  induction ms generalizing w u with
  | nil => exact h
  | cons m ms ih =>
      refine ih ?_ (hw.step m) (hu.step m) hP hQ' hclear
      exact h.step hQ hw hu m (((hw.step m).grown_run ms).trans hP)
        (((hu.step m).grown_run ms).trans hQ')
        (hclear.of_subset (Walk.visits_subset_run ms _) (Walk.visits_subset_run ms _))

end

/-! ### Copies of files -/

/-- Collecting only adds to the index of the start. -/
theorem grown_collect (c : Conventions) (files : List SourceFile) :
    (SymbolIndex.initial c {}).1.Grown ((Project.initial c).collect files).index :=
  ((Project.initial c).collected files (rooted_initial c)).grown

/-- What files make of an empty project is consistent. -/
theorem consistent_collect (c : Conventions) (files : List SourceFile) :
    ((Project.initial c).collect files).index.Consistent :=
  ((Project.initial c).collected files (rooted_initial c)).consistent
    (SymbolIndex.consistent_initial c {})

/-- The index of a project that collected one file. It stands for the
file from here on: its scopes are numbered from one, in the order of the
walk. -/
def alone (c : Conventions) (file : SourceFile) : SymbolIndex :=
  ((Project.initial c).collect [file]).index

/-- It has grown from the index of the start. -/
theorem grown_alone (c : Conventions) (file : SourceFile) :
    (SymbolIndex.initial c {}).1.Grown (alone c file) :=
  grown_collect c [file]

/-- And it is consistent. -/
theorem consistent_alone (c : Conventions) (file : SourceFile) : (alone c file).Consistent :=
  consistent_collect c [file]

/-- An index holds a copy of a file: its scopes behind the first `n`, and
its statements in the copies of their scopes. -/
structure CopyOf (c : Conventions) (file : SourceFile) (n : Nat) (ix : SymbolIndex) : Prop
    extends Embedded n (alone c file) ix where
  filings : ix.fileFilings [file] = movedFilings n ((alone c file).fileFilings [file])

/-- The filings of files are those of the first and those of the others,
at one index. -/
theorem fileFilings_cons (ix : SymbolIndex) (file : SourceFile) (files : List SourceFile) :
    ix.fileFilings (file :: files) = ix.fileFilings [file] ++ ix.fileFilings files := by
  simp [SymbolIndex.fileFilings]

/-- A file has no statements in scopes that are not copies of its own,
the global scope apart. -/
theorem CopyOf.statementsAt_eq_nil {c : Conventions} {file : SourceFile} {n : Nat}
    {ix : SymbolIndex} (h : CopyOf c file n ix) {id : Nat} (hpos : root < id)
    (hid : id < n ∨ n + ((alone c file).size - 1) ≤ id) :
    statementsAt id (ix.fileFilings [file]) = [] := by
  rw [h.filings]
  refine Project.statementsAt_eq_nil fun f hf => ?_
  obtain ⟨f, hfile, rfl⟩ := List.mem_map.mp hf
  have hlt := (consistent_alone c file).rooted.fileFilings_lt [file] f hfile
  show moved n f.1 ≠ id
  rintro rfl
  -- The global scope is shared, so the statement stands in another one, within the bounds.
  have hne : root < f.1 := by
    refine Nat.pos_of_ne_zero fun heq => ?_
    rw [heq, show moved n 0 = root from SymbolIndex.moved_root n] at hpos
    exact Nat.lt_irrefl _ hpos
  have hbounds := SymbolIndex.moved_bounds n hne hlt
  omega

/-- In the global scope it has the statements it has on its own. -/
theorem CopyOf.statementsAt_root {c : Conventions} {file : SourceFile} {n : Nat} {ix : SymbolIndex}
    (h : CopyOf c file n ix) :
    statementsAt root (ix.fileFilings [file])
      = statementsAt root ((alone c file).fileFilings [file]) := by
  have hroot := statementsAt_movedFilings h.pos root ((alone c file).fileFilings [file])
  rw [SymbolIndex.moved_root] at hroot
  rw [h.filings, hroot]

/-- A copy of a file among others: its scopes have its own statements
and no others. It is more than a copy, as the other files could file
something in these scopes too. -/
structure Placed (c : Conventions) (files : List SourceFile) (file : SourceFile) (n : Nat)
    (ix : SymbolIndex) : Prop extends CopyOf c file n ix where
  statements : ∀ j, root < j → j < (alone c file).size →
    statementsAt (moved n j) (ix.fileFilings files)
      = statementsAt j ((alone c file).fileFilings [file])

/-- So it is if a file comes first whose copy ends before, since that
one files only in its own copy and in the global scope. -/
theorem Placed.cons {c : Conventions} {files : List SourceFile} {file f : SourceFile} {m n : Nat}
    {ix : SymbolIndex} (h : Placed c files file m ix) (hcopy : CopyOf c f n ix)
    (hm : n + ((alone c f).size - 1) ≤ m) : Placed c (f :: files) file m ix where
  toCopyOf := h.toCopyOf
  statements := fun j hpos hj => by
    obtain ⟨hle, -⟩ := SymbolIndex.moved_bounds m hpos hj
    have hearlier := hcopy.statementsAt_eq_nil (Nat.lt_of_lt_of_le h.pos hle)
      (.inr (Nat.le_trans hm hle))
    rw [fileFilings_cons, statementsAt_append, hearlier, List.nil_append, h.statements j hpos hj]

/-- From the scope `n` on, an index consists of copies of files, one
after the other and with nothing in between. The global scope is no part
of a copy, which is why each takes one scope less than its original. -/
def Laid (c : Conventions) (ix : SymbolIndex) : Nat → List SourceFile → Prop
  | n, [] => ix.size = n
  | n, file :: files =>
      CopyOf c file n ix ∧ Laid c ix (n + ((alone c file).size - 1)) files

/-- Two files come to no scope of an index that both share, apart from
the global one. It is asked at an index that has both files, so it can
be decided after they were collected. -/
def DisjointScopes (ix : SymbolIndex) (f g : SourceFile) : Prop :=
  ∀ v ∈ ix.fileVisits [f], ∀ w ∈ ix.fileVisits [g], v.scope = w.scope → v.scope = root

/-- The visits of a file are a list, so this can be decided. -/
instance (ix : SymbolIndex) (f g : SourceFile) : Decidable (DisjointScopes ix f g) :=
  inferInstanceAs (Decidable (∀ v ∈ ix.fileVisits [f], ∀ w ∈ ix.fileVisits [g],
    v.scope = w.scope → v.scope = root))

/-- On their own, two files have no path in common, apart from the one
of the global scope. It does not speak of a joint index, and so not of
an order of files. -/
def SeparatePaths (c : Conventions) (f g : SourceFile) : Prop :=
  ∀ i < (alone c f).size, ∀ j < (alone c g).size,
    (alone c f).outputPath i = (alone c g).outputPath j → i = root

/-- It is the same for both files. The global scope has its path for
itself, so a path that both have is that of both global scopes. -/
theorem SeparatePaths.symm {c : Conventions} {f g : SourceFile} (h : SeparatePaths c f g) :
    SeparatePaths c g f := by
  intro i hi j hj hpath
  have hj' := h j hj i hi hpath.symm
  subst hj'
  rw [(grown_alone c f).root_initial.2.2, ← (grown_alone c g).root_initial.2.2] at hpath
  exact (consistent_alone c g).eq_of_outputPath hi (consistent_alone c g).root_lt hpath

/-- A scope of an index belongs to a file: the file comes to it, and has
a scope with its path. These are the two things by which a later file
can be clear of it. -/
structure OwnedBy (c : Conventions) (ix : SymbolIndex) (id : Nat) (file : SourceFile) : Prop where
  visited : ∃ v ∈ ix.fileVisits [file], v.scope = id
  path : ∃ j, root < j ∧ j < (alone c file).size ∧ (alone c file).outputPath j = ix.outputPath id

/-- A file is clear of the scopes that belong to others, if it shares no
scope with them or has no path in common with them. -/
theorem clear_of_owned {c : Conventions} {ix : SymbolIndex} {n : Nat} {done : List SourceFile}
    {file : SourceFile} (howned : ∀ id, root < id → id < n → ∃ g ∈ done, OwnedBy c ix id g)
    (hapart : ∀ g ∈ done, DisjointScopes ix g file ∨ SeparatePaths c g file) :
    Clear n ix (alone c file) (ix.fileVisits [file]) ((alone c file).fileVisits [file]) := by
  intro id hpos hid
  obtain ⟨g, hg, howner⟩ := howned id hpos hid
  rcases hapart g hg with hdisjoint | hseparate
  · -- The other file comes to the scope, so this one does not.
    obtain ⟨v, hv, rfl⟩ := howner.visited
    refine .inl fun w hw heq => ?_
    rw [hdisjoint v hv w hw heq.symm] at hpos
    exact Nat.lt_irrefl _ hpos
  · -- The other file has the path of the scope, so this one has not.
    obtain ⟨j, hj, hlt, hpath⟩ := howner.path
    refine .inr fun w hw heq => ?_
    have hfounded := collected_founded (Project.initial c) [file] (rooted_initial c)
    rw [hseparate j hlt w.scope (hfounded.scope_lt w hw) (hpath.trans heq)] at hj
    exact Nat.lt_irrefl _ hj

/-- One more file: its scopes are added as a copy, and belong to it. -/
theorem gatherFile_copied {c : Conventions} {ix : SymbolIndex} (hix : ix.Consistent)
    {p : Project} (g : Gathered) (file : SourceFile)
    (hstart : (SymbolIndex.initial c {}).1.Grown p.index) (hp : p.index.Consistent)
    (hgrown : (gatherBody root (p, g) (fileBody [file])).1.index.Grown ix)
    (hclear : Clear p.index.size ix (alone c file) (ix.fileVisits [file])
      ((alone c file).fileVisits [file])) :
    CopyOf c file p.index.size ix
      ∧ (gatherBody root (p, g) (fileBody [file])).1.index.size
        = p.index.size + ((alone c file).size - 1)
      ∧ ∀ id, p.index.size ≤ id → id < (gatherBody root (p, g) (fileBody [file])).1.index.size →
          OwnedBy c ix id file := by
  -- The other walk starts with the global scope only, of which every index holds a copy.
  have hinitial : Copied p.index.size (Project.initial c).index p.index :=
    SymbolIndex.copied_initial hstart hp
  have hroot : root < (Project.initial c).index.size := (rooted_initial c).nonempty
  have hwalk := Walk.inside_start hp.rooted g hp.root_lt
  have hwalk' := Walk.inside_start (rooted_initial c) .empty hroot
  have htree := (Project.initial c).sameTree_collect [file] (rooted_initial c)
  rw [gatherFiles_eq] at htree
  have htrail := trail_through hp.rooted g hp.root_lt (fileBody [file]) hgrown
  have htrail' := trail_through (rooted_initial c) .empty hroot (fileBody [file]) htree.grown
  have hlockstep : Lockstep p.index.size (.through (p, g) root (fileBody [file]))
      (.through (Project.initial c, .empty) root (fileBody [file])) := by
    refine Lockstep.run (consistent_alone c file) (bodyMoves (fileBody [file]))
      ⟨hinitial, by simp [Walk.start, Trail.start, SymbolIndex.moved_root], rfl⟩ hwalk hwalk'
      (by rwa [← Walk.index_through] at hgrown) ?_ ?_
    · have hend := htree.grown
      rwa [← Walk.index_through] at hend
    · rw [← Walk.through, ← Walk.through, htrail, htrail']
      exact hclear
  have hcopied := hlockstep.copied
  have hsame := hlockstep.filings
  rw [Walk.index_through, Walk.index_through] at hcopied
  rw [htrail, htrail'] at hsame
  have hfounded := gatherBody_founded hp.rooted g hp.root_lt (fileBody [file])
  have hreg := gatherBody_registered hp.rooted g hp.root_lt (fileBody [file])
  have hend := (gatherBody_later hp.rooted g hp.root_lt (fileBody [file])).rooted hp.rooted
  have hsize := hcopied.size
  have hembedded : Embedded p.index.size (alone c file) ix :=
    (hcopied.toEmbedded.of_bare htree.conventions htree.byPath htree.bare).grown hgrown hix
  rw [← htree.size] at hsize
  refine ⟨⟨hembedded, ?_⟩, ?_, fun id hid hlt => ⟨?_, ?_⟩⟩
  · rw [SymbolIndex.fileFilings_eq, SymbolIndex.fileFilings_eq]
    exact hsame
  · have hpos := (consistent_alone c file).root_lt
    unfold alone root at *
    omega
  · obtain ⟨v, hfind, -⟩ := hfounded.founder id hid hlt
    refine ⟨v, ?_, by simpa using List.find?_some hfind⟩
    rw [SymbolIndex.fileVisits, (hgrown.bodyRegistered hend.1
      (Nat.lt_of_lt_of_le hp.root_lt hend.2.size_le) hreg).2.2]
    exact List.mem_of_find?_eq_some hfind
  · obtain ⟨j, hj, rfl⟩ := hcopied.exists_copied hlt (.inr hid)
    rw [← htree.size] at hj
    have hne : j ≠ root := by
      rintro rfl
      rw [SymbolIndex.moved_root] at hid
      exact absurd hid (Nat.not_le.mpr hp.root_lt)
    exact ⟨j, Nat.pos_of_ne_zero hne, hj, (hembedded.outputPath hj).symm⟩

/-- Any number of files: those before them are `done`, and own the
scopes that are there. So each new file is clear of them, and what it
adds is a copy of its own. -/
theorem laid_gatherBody {c : Conventions} {ix : SymbolIndex} (hix : ix.Consistent)
    (files : List SourceFile) : ∀ (done : List SourceFile) (p : Project) (g : Gathered),
    (SymbolIndex.initial c {}).1.Grown p.index → p.index.Consistent →
    (gatherBody root (p, g) (fileBody files)).1.index.Grown ix →
    ix.size = (gatherBody root (p, g) (fileBody files)).1.index.size →
    (∀ id, root < id → id < p.index.size → ∃ f ∈ done, OwnedBy c ix id f) →
    (done ++ files).Pairwise (fun f g => DisjointScopes ix f g ∨ SeparatePaths c f g) →
    Laid c ix p.index.size files := by
  induction files with
  | nil => exact fun done p g _ _ _ hsize _ _ => hsize
  | cons file files ih =>
      intro done p g hstart hp hgrown hsize howned hapart
      rw [fileBody_cons, gatherBody_append] at hgrown hsize
      -- The first file is walked on its own, and the others from where it ends.
      obtain ⟨hmid, hfirst⟩ :=
        (gatherBody_later hp.rooted g hp.root_lt (fileBody [file])).consistent hp
      obtain ⟨-, hrest⟩ := (gatherBody_later hmid.rooted
        (gatherBody root (p, g) (fileBody [file])).2 hmid.root_lt (fileBody files)).consistent hmid
      have hbefore : ∀ f ∈ done, DisjointScopes ix f file ∨ SeparatePaths c f file := fun f hf =>
        (List.pairwise_append.mp hapart).2.2 f hf file List.mem_cons_self
      obtain ⟨hcopy, hnext, hnew⟩ := gatherFile_copied hix g file hstart hp
        (hrest.trans hgrown) (clear_of_owned howned hbefore)
      refine ⟨hcopy, ?_⟩
      rw [← hnext]
      refine ih (done ++ [file]) _ _ (hstart.trans hfirst) hmid hgrown hsize ?_ ?_
      · -- The scopes of before have their owners, and the new ones belong to the file.
        intro id hpos hid
        by_cases hold : id < p.index.size
        · obtain ⟨f, hf, howner⟩ := howned id hpos hold
          exact ⟨f, List.mem_append_left _ hf, howner⟩
        · exact ⟨file, List.mem_append_right _ List.mem_cons_self, hnew id (by omega) hid⟩
      · rw [List.append_assoc]
        exact hapart

/-- Collecting files that share no scope lays out copies of them. Before
the first file there is only the global scope. -/
theorem laid_collect (c : Conventions) (files : List SourceFile)
    (hapart : files.Pairwise fun f g =>
      DisjointScopes ((Project.initial c).collect files).index f g ∨ SeparatePaths c f g) :
    Laid c ((Project.initial c).collect files).index 1 files := by
  have htree := (Project.initial c).sameTree_collect files (rooted_initial c)
  rw [gatherFiles_eq] at htree
  refine laid_gatherBody (consistent_collect c files) files [] (Project.initial c) .empty (.refl _)
    (SymbolIndex.consistent_initial c {}) htree.grown htree.size (fun id hpos hid => ?_) hapart
  exact absurd hid (Nat.not_lt.mpr hpos)

namespace Laid

variable {c : Conventions} {ix : SymbolIndex} {n : Nat} {file : SourceFile}
  {files : List SourceFile}

/-- Files that come later file nothing in earlier scopes. The global
scope is excepted. -/
theorem statementsAt_of_lt (h : Laid c ix n files) {id : Nat} (hpos : root < id) (hid : id < n) :
    statementsAt id (ix.fileFilings files) = [] := by
  induction files generalizing n with
  | nil => rfl
  | cons file files ih =>
      rw [fileFilings_cons, statementsAt_append, ih h.2 (Nat.lt_add_right _ hid),
        h.1.statementsAt_eq_nil hpos (.inl hid)]
      rfl

/-- The first file is placed: those after it file nothing in its
scopes. -/
theorem placed_head (h : Laid c ix n (file :: files)) : Placed c (file :: files) file n ix where
  toCopyOf := h.1
  statements := fun j hpos hj => by
    obtain ⟨hle, hlt⟩ := SymbolIndex.moved_bounds n hpos hj
    have hlater := h.2.statementsAt_of_lt (Nat.lt_of_lt_of_le h.1.pos hle) hlt
    rw [fileFilings_cons, statementsAt_append, hlater, h.1.filings,
      statementsAt_movedFilings h.1.pos, List.append_nil]

/-- Every file has its copy, with its own statements in it. -/
theorem placed (h : Laid c ix n files) (hfile : file ∈ files) :
    ∃ m, n ≤ m ∧ Placed c files file m ix := by
  induction files generalizing n with
  | nil => cases hfile
  | cons f files ih =>
      rcases List.mem_cons.mp hfile with rfl | hmem
      · exact ⟨n, Nat.le_refl n, h.placed_head⟩
      · obtain ⟨m, hm, hplaced⟩ := ih h.2 hmem
        exact ⟨m, Nat.le_trans (Nat.le_add_right n _) hm, hplaced.cons h.1 hm⟩

/-- There are no scopes but those of the copies, and the global one. -/
theorem cover (h : Laid c ix n files) {id : Nat} (hid : n ≤ id) (hlt : id < ix.size) :
    ∃ file ∈ files, ∃ m, n ≤ m ∧ Placed c files file m ix
      ∧ ∃ j, root < j ∧ j < (alone c file).size ∧ moved m j = id := by
  induction files generalizing n with
  | nil =>
      rw [h] at hlt
      exact absurd hid (Nat.not_le.mpr hlt)
  | cons f files ih =>
      -- The files lie one behind the other: `id` is in the stretch of the first or past its end.
      by_cases hhead : id < n + ((alone c f).size - 1)
      · exact ⟨f, List.mem_cons_self, n, Nat.le_refl n, h.placed_head,
          SymbolIndex.exists_moved hid hhead⟩
      · obtain ⟨file, hfile, m, hm, hplaced, hcopy⟩ := ih h.2 (Nat.le_of_not_lt hhead)
        exact ⟨file, List.mem_cons_of_mem f hfile, m, Nat.le_trans (Nat.le_add_right n _) hm,
          hplaced.cons h.1 hm, hcopy⟩

/-- The statements of the global scope come from all files, in their
order, each as it would file them on its own. -/
theorem statementsAt_root (h : Laid c ix n files) :
    statementsAt root (ix.fileFilings files)
      = files.flatMap fun file => statementsAt root ((alone c file).fileFilings [file]) := by
  induction files generalizing n with
  | nil => rfl
  | cons file files ih =>
      rw [fileFilings_cons, statementsAt_append, ih h.2, List.flatMap_cons,
        h.1.statementsAt_root]

/-- Files that are laid out one after the other have separate paths. No
two scopes of an index have one path, and those of different copies are
different scopes. -/
theorem separate (h : Laid c ix n files) : files.Pairwise (SeparatePaths c) := by
  induction files generalizing n with
  | nil => exact .nil
  | cons f files ih =>
      refine .cons (fun g hg => ?_) (ih h.2)
      obtain ⟨m, hm, hplaced⟩ := h.2.placed hg
      intro i hi j hj hpath
      -- The copies of the two scopes have one path, so they are one scope, but their numbers
      -- come from different ranges.
      have heq : moved n i = moved m j := by
        refine h.1.outer.eq_of_outputPath (h.1.lt i hi) (hplaced.lt j hj) ?_
        rw [h.1.outputPath hi, hplaced.outputPath hj, hpath]
      have hpos := h.1.pos
      unfold moved root at *
      split at heq
      · assumption
      · split at heq <;> omega

end Laid

end Externals.Project
