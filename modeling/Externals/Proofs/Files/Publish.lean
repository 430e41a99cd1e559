import Externals.Files.Memory
import Externals.Files.Publish
import Externals.Proofs.Files.Volume

/-!
# `Externals.Proofs.Files.Publish`: what publishing leaves in the files

Every generated file is written and then perhaps copied to a mirror, one
file after the other, and all in one volume. So what a step leaves can be
lost to a later one, and a copy can lose what was written just before: if
the two paths lead to one file, the copy finds it empty.

The steps are taken together as a list of touches, each a path with the
text that the step leaves (`Destination.touches`). What a file holds in the
end is the text of the last touch that its path leads to. This is the exact
condition for a generated text to be where it belongs, for any directories,
any paths and any volume.

* `Volume.Admits`: no file is in the way of a directory and no directory
  in the way of a file, neither before nor by the steps themselves.
* `Host.run_publish`: publishing succeeds for all files exactly if the
  volume admits their paths, and then the touches have been made.
* `Destination.publish_texts`: the texts that are left.
-/

set_option autoImplicit false

namespace Externals

namespace Volume

/-! ### Touches one after the other -/

/-- Files were written one after the other, each with a path and a
text. -/
inductive TouchedAll : Volume → List (String × String) → Volume → Prop
  | nil (v : Volume) : TouchedAll v [] v
  | cons {v w x : Volume} {path text : String} {touches : List (String × String)} :
      Touched v w path text → TouchedAll w touches x → TouchedAll v ((path, text) :: touches) x

/-- A volume takes files at all of some paths: at each of them, and none
of the files is in the way of a directory of another. -/
def Admits (v : Volume) (paths : List String) : Prop :=
  ∀ q ∈ paths, v.Takes q ∧ ∀ r ∈ paths, keyAt v.home r ∉ dirsAt v.home q

/-- Every path is asked for, so this can be decided. -/
instance (v : Volume) (paths : List String) : Decidable (v.Admits paths) :=
  inferInstanceAs (Decidable (∀ q ∈ paths, _))

/-- Nothing to write is always admitted. -/
theorem admits_nil (v : Volume) : v.Admits [] := fun _ hmem => absurd hmem List.not_mem_nil

/-- What is admitted for all paths is admitted for the first of them. -/
theorem Admits.left {v : Volume} {ps qs : List String} (h : v.Admits (ps ++ qs)) :
    v.Admits ps := by
  intro q hq
  obtain ⟨htakes, hothers⟩ := h q (List.mem_append_left _ hq)
  exact ⟨htakes, fun r hr => hothers r (List.mem_append_left _ hr)⟩

/-- One path is admitted if the volume takes a file there. -/
theorem admits_singleton {v : Volume} {q : String} : v.Admits [q] ↔ v.Takes q := by
  refine ⟨fun h => (h q List.mem_cons_self).1, fun h r hr => ?_⟩
  rw [List.mem_singleton.mp hr]
  refine ⟨h, fun s hs => ?_⟩
  rw [List.mem_singleton.mp hs]
  exact h.2.2.2

/-- Touches by the keys that their paths lead to. Two paths may lead to
one key. -/
def byKey (home : List String) (touches : List (String × String)) :
    List (List String × String) :=
  touches.map fun t => (keyAt home t.1, t.2)

/-- The keys are those of the paths. -/
theorem map_byKey (home : List String) (touches : List (String × String)) :
    (byKey home touches).map Prod.fst = (touches.map Prod.fst).map (keyAt home) := by
  simp [byKey]

/-- A touch, by its key. -/
theorem mem_byKey {home : List String} {touches : List (String × String)} {q text : String}
    (h : (q, text) ∈ touches) : (keyAt home q, text) ∈ byKey home touches :=
  List.mem_map.mpr ⟨(q, text), h, rfl⟩

namespace Touched

variable {v w : Volume} {path text : String}

/-- After a file was written, one file more is in the way of
directories. -/
theorem holdsFile_eq_false_iff (h : Touched v w path text) {k : List String} :
    w.holdsFile k = false ↔ k ≠ keyAt v.home path ∧ v.holdsFile k = false := by
  rw [holdsFile, h.node]
  by_cases hk : k = keyAt v.home path
  · simp [hk]
  · by_cases hnone : v.node? k = none
    · by_cases hmem : k ∈ dirsAt v.home path <;> simp [hk, hnone, hmem, holdsFile]
    · simp [hk, hnone, holdsFile]

/-- After a file was written, its directories are in the way of files. -/
theorem holdsDir_eq_false_iff (h : Touched v w path text) (hv : v.Takes path)
    {k : List String} :
    w.holdsDir k = false ↔ k ∉ dirsAt v.home path ∧ v.holdsDir k = false := by
  obtain ⟨-, hno, hdir, hnot⟩ := hv
  rw [holdsDir, h.node]
  by_cases hk : k = keyAt v.home path
  · simp [hk, hdir, hnot]
  · by_cases hmem : k ∈ dirsAt v.home path
    · have hmade := made_of_holdsFile_eq_false (hno k hmem)
      simp [hk, hmem, hmade]
    · simp [hk, hmem, holdsDir]

/-- A volume takes a file after another one was written exactly if it
took it before and the two are not in each other's way. -/
theorem takes_iff (h : Touched v w path text) (hv : v.Takes path) (q : String) :
    w.Takes q ↔ v.Takes q ∧ keyAt v.home path ∉ dirsAt v.home q
      ∧ keyAt v.home q ∉ dirsAt v.home path := by
  -- The only file that can newly be in the way is the one written.
  have hfiles : (∀ k ∈ dirsAt v.home q, w.holdsFile k = false)
      ↔ keyAt v.home path ∉ dirsAt v.home q ∧ ∀ k ∈ dirsAt v.home q, v.holdsFile k = false := by
    simp only [h.holdsFile_eq_false_iff, forall_and]
    exact and_congr_left' ⟨fun hne hmem => hne _ hmem rfl, fun hnot k hk heq => hnot (heq ▸ hk)⟩
  rw [Takes, Takes, h.home, hfiles, h.holdsDir_eq_false_iff hv]
  constructor
  · rintro ⟨hname, ⟨hpath, hno⟩, ⟨hq, hdir⟩, hnot⟩
    exact ⟨⟨hname, hno, hdir, hnot⟩, hpath, hq⟩
  · rintro ⟨⟨hname, hno, hdir, hnot⟩, hpath, hq⟩
    exact ⟨hname, ⟨hpath, hno⟩, ⟨hq, hdir⟩, hnot⟩

/-- What is admitted after a first file was written: the rest of what
was admitted together with it. This is the step of the induction over
all files. -/
theorem admits_cons (h : Touched v w path text) (hv : v.Takes path) (qs : List String) :
    v.Admits (path :: qs) ↔ w.Admits qs := by
  constructor
  · intro hadmits q hq
    obtain ⟨htakes, hothers⟩ := hadmits q (List.mem_cons_of_mem _ hq)
    refine ⟨(h.takes_iff hv q).mpr ⟨htakes, hothers path List.mem_cons_self, ?_⟩, ?_⟩
    · exact (hadmits path List.mem_cons_self).2 q (List.mem_cons_of_mem _ hq)
    · rw [h.home]
      exact fun r hr => hothers r (List.mem_cons_of_mem _ hr)
  · intro hadmits
    -- What each of the other files asks of the first one.
    have hqs : ∀ q ∈ qs, v.Takes q ∧ keyAt v.home path ∉ dirsAt v.home q
        ∧ keyAt v.home q ∉ dirsAt v.home path := fun q hq =>
      (h.takes_iff hv q).mp (hadmits q hq).1
    intro q hq
    rcases List.mem_cons.mp hq with rfl | hmem
    · refine ⟨hv, fun r hr => ?_⟩
      rcases List.mem_cons.mp hr with rfl | hmem
      · exact hv.2.2.2
      · exact (hqs r hmem).2.2
    · refine ⟨(hqs q hmem).1, fun r hr => ?_⟩
      rcases List.mem_cons.mp hr with rfl | hmem'
      · exact (hqs q hmem).2.1
      · have hothers := (hadmits q hmem).2 r hmem'
        rwa [h.home] at hothers

/-- The file that was written is found at its path. -/
theorem fileAt (h : Touched v w path text) (hv : v.Takes path) : w.FileAt path text where
  name := hv.1
  leads k hk := by
    rw [h.home] at hk
    rw [← holdsDir_iff, ← Bool.not_eq_false, h.holdsDir_eq_false_iff hv]
    exact fun hnot => hnot.1 hk
  node := by
    rw [h.home, h.node, if_pos rfl]

end Touched

namespace TouchedAll

variable {v w : Volume} {touches : List (String × String)}

/-- One file was written. -/
theorem single {path text : String} (h : Touched v w path text) :
    TouchedAll v [(path, text)] w :=
  .cons h (.nil w)

/-- Files are written one list after the other. -/
theorem append {x : Volume} {more : List (String × String)} (h : TouchedAll v touches w)
    (hmore : TouchedAll w more x) : TouchedAll v (touches ++ more) x := by
  induction h with
  | nil => exact hmore
  | cons hfirst _ ih => exact .cons hfirst (ih hmore)

/-- Writing does not change what relative paths are relative to. -/
theorem home (h : TouchedAll v touches w) : w.home = v.home := by
  induction h with
  | nil => rfl
  | cons hfirst _ ih => exact ih.trans hfirst.home

/-- What is admitted after files were written. -/
theorem admits_append (h : TouchedAll v touches w) (hv : v.Admits (touches.map Prod.fst))
    (qs : List String) : v.Admits (touches.map Prod.fst ++ qs) ↔ w.Admits qs := by
  induction h with
  | nil => rfl
  | @cons v w x path text touches hfirst _ ih =>
      have htakes : v.Takes path := (hv path List.mem_cons_self).1
      rw [List.map_cons, hfirst.admits_cons htakes] at hv
      rw [List.map_cons, List.cons_append, hfirst.admits_cons htakes, ih hv]

/-- A key that no touch leads to: a directory was made there if one of
the paths goes through it and nothing stood there. -/
theorem node_of_not_mem (h : TouchedAll v touches w) {k : List String}
    (hk : k ∉ (byKey v.home touches).map Prod.fst) :
    w.node? k
      = if k ∈ (touches.map Prod.fst).flatMap (dirsAt v.home) ∧ v.node? k = none then
          some .directory
        else v.node? k := by
  induction h with
  | nil => simp
  | @cons v w x path text touches hfirst _ ih =>
      rw [hfirst.home] at ih
      simp only [byKey, List.map_cons, List.mem_cons, not_or] at hk
      rw [ih hk.2, hfirst.node, if_neg hk.1]
      simp only [List.map_cons, List.flatMap_cons, List.mem_append]
      -- The first write may have made `k` as a directory on the way to its file; after that no
      -- later one makes it again.
      by_cases hnone : v.node? k = none
      · by_cases hdir : k ∈ dirsAt v.home path
        · simp only [hnone, hdir, and_true, true_or, if_true, reduceCtorEq, and_false, if_false]
        · simp only [hnone, hdir, and_true, false_or, if_false]
      · simp only [hnone, and_false, if_false]

/-- A key has the text of the last touch that leads to it. -/
theorem node_of_latest (h : TouchedAll v touches w) {k : List String} {text : String}
    (hlatest : Table.latest? k (byKey v.home touches) = some text) :
    w.node? k = some (.file text.toUTF8) := by
  induction h with
  | nil => cases hlatest
  | @cons v w x path first touches hfirst hrest ih =>
      rw [byKey, List.map_cons, Table.latest?, ← byKey, Option.or_eq_some_iff,
        ← hfirst.home] at hlatest
      rcases hlatest with hlater | ⟨hnone, hhere⟩
      · exact ih hlater
      · -- The first touch leads to the key, and no later one does.
        obtain ⟨hk, rfl⟩ : keyAt w.home path = k ∧ first = text := by simpa using hhere
        have hnode : w.node? k = some (.file first.toUTF8) := by
          rw [hfirst.node, if_pos (by rw [← hfirst.home, hk])]
        rw [hrest.node_of_not_mem (Table.latest?_eq_none_iff.mp hnone), hnode]
        simp

/-- In the end each path leads to a file with the text of the last touch
of that file. -/
theorem fileAt (h : TouchedAll v touches w) (hv : v.Admits (touches.map Prod.fst)) {q : String}
    (hq : q ∈ touches.map Prod.fst) :
    ∃ text, Table.latest? (keyAt v.home q) (byKey v.home touches) = some text
      ∧ w.FileAt q text := by
  obtain ⟨htakes, hothers⟩ := hv q hq
  obtain ⟨text, htext⟩ : ∃ text,
      Table.latest? (keyAt v.home q) (byKey v.home touches) = some text := by
    rw [← Option.isSome_iff_exists, Option.isSome_iff_ne_none, ne_eq, Table.latest?_eq_none_iff,
      map_byKey, Decidable.not_not]
    exact List.mem_map_of_mem hq
  refine ⟨text, htext, htakes.1, fun k hk => ?_, ?_⟩
  · -- No touch leads to a directory of the path, so it was there or has been made.
    rw [h.home] at hk
    have hnot : k ∉ (byKey v.home touches).map Prod.fst := by
      rw [map_byKey]
      intro hmem
      obtain ⟨r, hr, rfl⟩ := List.mem_map.mp hmem
      exact hothers r hr hk
    have hmem : k ∈ (touches.map Prod.fst).flatMap (dirsAt v.home) :=
      List.mem_flatMap.mpr ⟨q, hq, hk⟩
    have hmade := made_of_holdsFile_eq_false (htakes.2.1 k hk)
    rw [h.node_of_not_mem hnot]
    simpa only [hmem, true_and] using hmade
  · rw [h.home]
    exact h.node_of_latest htext

end TouchedAll

end Volume

/-! ### One file -/

namespace Destination

/-- The paths that get the text of a generated file: its own, and that
of the copy if there is a mirror. -/
def paths (d : Destination) (u : OutputUnit) : List String :=
  d.target u :: (d.mirrorDir.map fun dir => joinPath dir u.path).toList

/-- What delivering one file does to a volume. The copy finds nothing if
it is made onto the file itself. -/
def touches (d : Destination) (home : List String) (u : OutputUnit) : List (String × String) :=
  (d.target u, u.text)
    :: (d.mirrorDir.map fun dir =>
          (joinPath dir u.path,
            if Volume.keyAt home (joinPath dir u.path) = Volume.keyAt home (d.target u) then ""
            else u.text)).toList

/-- A delivery in which nothing failed, without a formatter. -/
def delivered (d : Destination) (u : OutputUnit) : Delivery where
  target := d.target u
  write := .ok ()
  mirror := d.mirrorDir.map fun _ => .ok ()

/-- The text that publishing leaves under a key: that of the last touch
that leads there. -/
def leaves? (d : Destination) (home : List String) (us : List OutputUnit) (key : List String) :
    Option String :=
  Table.latest? key (Volume.byKey home (us.flatMap (d.touches home)))

/-- A file is touched at its paths. -/
theorem map_touches (d : Destination) (home : List String) (u : OutputUnit) :
    (d.touches home u).map Prod.fst = d.paths u := by
  cases hmirror : d.mirrorDir <;> simp [touches, paths, hmirror]

/-- So are all files. -/
theorem map_flatMap_touches (d : Destination) (home : List String) (us : List OutputUnit) :
    (us.flatMap (d.touches home)).map Prod.fst = us.flatMap d.paths := by
  simp only [List.map_flatMap, map_touches]

/-- If no two paths lead to one file, each text is left where it
belongs. -/
theorem leaves?_of_nodup {d : Destination} {home : List String} {us : List OutputUnit}
    (hnodup : ((us.flatMap d.paths).map (Volume.keyAt home)).Nodup) {u : OutputUnit} (hu : u ∈ us)
    {q : String} (hq : q ∈ d.paths u) :
    d.leaves? home us (Volume.keyAt home q) = some u.text := by
  have hown : ((d.paths u).map (Volume.keyAt home)).Nodup := by
    have hsub : (d.paths u).Sublist (us.flatMap d.paths) :=
      List.sublist_flatten_of_mem (List.mem_map_of_mem hu)
    exact hnodup.sublist (hsub.map _)
  have hmem : (q, u.text) ∈ d.touches home u := by
    cases hmirror : d.mirrorDir with
    | none => simp_all [paths, touches]
    | some dir =>
        -- The copy is made onto another file.
        have hother : Volume.keyAt home (joinPath dir u.path) ≠ Volume.keyAt home (d.target u) := by
          simpa [paths, hmirror, eq_comm] using hown
        simpa [paths, touches, hmirror, hother] using hq
  rw [← d.map_flatMap_touches home, ← Volume.map_byKey] at hnodup
  exact Table.latest?_of_nodup hnodup (Volume.mem_byKey (List.mem_flatMap.mpr ⟨u, hu, hmem⟩))

/-- Files that are copied onto themselves are left empty. -/
theorem leaves?_of_mirror_self {d : Destination} (hmirror : d.mirrorDir = some d.outDir)
    {home : List String} {us : List OutputUnit} {key : List String} {text : String}
    (h : d.leaves? home us key = some text) : text = "" := by
  induction us with
  | nil => cases h
  | cons u us ih =>
      rw [leaves?, List.flatMap_cons, Volume.byKey, List.map_append, Table.latest?_append,
        Option.or_eq_some_iff] at h
      rcases h with hlater | ⟨-, hhere⟩
      · exact ih hlater
      · -- The copy comes after the text and leads to the same key.
        have htouches : d.touches home u = [(d.target u, u.text), (d.target u, "")] := by
          simp [touches, hmirror, target]
        rw [htouches, List.map_cons, List.map_singleton, Table.latest?, Table.latest?,
          Table.latest?, Option.none_or] at hhere
        by_cases hkey : Volume.keyAt home (d.target u) = key
        · simpa [hkey, eq_comm] using hhere
        · simp [hkey] at hhere

end Destination

namespace Host

open Volume

variable {start : Programs} {d : Destination}

/-- What comes after a computation, given what this does to a volume. -/
theorem run_bind_eq {α β : Type} {x : StateM Volume α} {v w : Volume} {a : α}
    (h : x.run v = (a, w)) (f : α → StateM Volume β) : (x >>= f).run v = (f a).run w := by
  rw [StateT.run_bind, h]
  rfl

/-- Writing a file on a volume, with its error. -/
theorem run_writeUnit {v w : Volume} {path text : String} {r : Except FileError Unit}
    (h : v.writeAll path text.toUTF8 = (r, w)) :
    ((memory start).writeUnit path text).run v = (r.mapError (.write path), w) := by
  have hrun : ((memory start).write path text).run v = (r, w) := by
    simp only [memory, StateT.run_modifyGet, h]
    rfl
  rw [writeUnit, run_bind_eq hrun]
  cases r <;> rfl

/-- Mirroring a file on a volume, with its error. -/
theorem run_mirrorUnit {v w : Volume} {source target : String} {r : Except FileError Unit}
    (h : v.copy source target = (r, w)) :
    ((memory start).mirrorUnit source target).run v = (r.mapError (.mirror target), w) := by
  have hrun : ((memory start).copy source target).run v = (r, w) := by
    simp only [memory, StateT.run_modifyGet, h]
    rfl
  rw [mirrorUnit, run_bind_eq hrun]
  cases r <;> rfl

/-- The file could not be written, and nothing else is tried. -/
theorem run_deliver_of_error {u : OutputUnit} {v w : Volume} {e : FileError}
    (hwrite : v.writeAll (d.target u) u.text.toUTF8 = (.error e, w)) :
    ((memory start).deliver d u).run v
      = ({ target := d.target u, write := .error (.write (d.target u) e) }, w) := by
  rw [deliver, run_bind_eq (run_writeUnit hwrite)]
  rfl

/-- The file was written, and there is no mirror. -/
theorem run_deliver_of_no_mirror (hformat : d.formatter = none) (hmirror : d.mirrorDir = none)
    {u : OutputUnit} {v w : Volume}
    (hwrite : v.writeAll (d.target u) u.text.toUTF8 = (.ok (), w)) :
    ((memory start).deliver d u).run v = (d.delivered u, w) := by
  rw [deliver, run_bind_eq (run_writeUnit hwrite), Destination.delivered, hformat, hmirror]
  rfl

/-- The file was written and is copied, whatever comes of the copy. -/
theorem run_deliver_of_mirror (hformat : d.formatter = none) {dir : String}
    (hmirror : d.mirrorDir = some dir) {u : OutputUnit} {v w x : Volume}
    (hwrite : v.writeAll (d.target u) u.text.toUTF8 = (.ok (), w)) {r : Except FileError Unit}
    (hcopy : w.copy (d.target u) (joinPath dir u.path) = (r, x)) :
    ((memory start).deliver d u).run v
      = ({ target := d.target u, write := .ok (),
           mirror := some (r.mapError (.mirror (joinPath dir u.path))) }, x) := by
  have hwritten : ((memory start).writeUnit (d.target u) u.text).run v = (.ok (), w) :=
    run_writeUnit hwrite
  rw [deliver, run_bind_eq hwritten, hformat, hmirror]
  simp only [pure_bind]
  rw [run_bind_eq (run_mirrorUnit hcopy)]
  rfl

/-- A file is delivered exactly if the volume admits its paths, and then
they have been touched. -/
theorem run_deliver (hformat : d.formatter = none) (u : OutputUnit) (v : Volume) :
    (v.Admits (d.paths u) → (((memory start).deliver d u).run v).1 = d.delivered u
        ∧ TouchedAll v (d.touches v.home u) (((memory start).deliver d u).run v).2)
      ∧ (¬ v.Admits (d.paths u) → (((memory start).deliver d u).run v).1 ≠ d.delivered u) := by
  by_cases htakes : v.Takes (d.target u)
  · -- The file is written, and it is there for the copy.
    obtain ⟨w, hwrite, htouched⟩ := writeAll_of_takes htakes u.text
    have hfile := htouched.fileAt htakes
    have hadmits := htouched.admits_cons htakes
    cases hmirror : d.mirrorDir with
    | none =>
        refine ⟨fun _ => ?_, fun hnot => absurd ?_ hnot⟩
        · rw [run_deliver_of_no_mirror hformat hmirror hwrite]
          refine ⟨rfl, ?_⟩
          rw [Destination.touches, hmirror]
          exact .single htouched
        · rw [Destination.paths, hmirror]
          exact (hadmits []).mpr (admits_nil w)
    | some dir =>
        have hpaths : v.Admits (d.paths u) ↔ w.Takes (joinPath dir u.path) := by
          rw [Destination.paths, hmirror]
          exact (hadmits _).trans admits_singleton
        by_cases hmirrors : w.Takes (joinPath dir u.path)
        · obtain ⟨x, hcopy, hcopied⟩ := copy_of_takes hfile hmirrors
          rw [run_deliver_of_mirror hformat hmirror hwrite hcopy]
          refine ⟨fun _ => ⟨?_, ?_⟩, fun hnot => absurd (hpaths.mpr hmirrors) hnot⟩
          · rw [Destination.delivered, hmirror]
            rfl
          · rw [htouched.home] at hcopied
            rw [Destination.touches, hmirror]
            exact .cons htouched (.single hcopied)
        · obtain ⟨e, x, hcopy⟩ := copy_of_not_takes hfile hmirrors
          rw [run_deliver_of_mirror hformat hmirror hwrite hcopy]
          refine ⟨fun hall => absurd (hpaths.mp hall) hmirrors, fun _ hok => ?_⟩
          have hcopied := congrArg Delivery.mirror hok
          rw [Destination.delivered, hmirror] at hcopied
          cases hcopied
  · obtain ⟨e, w, hwrite⟩ := writeAll_of_not_takes htakes u.text.toUTF8
    refine ⟨fun hadmits => absurd (hadmits _ List.mem_cons_self).1 htakes, fun _ hok => ?_⟩
    rw [run_deliver_of_error hwrite] at hok
    cases congrArg Delivery.write hok

/-- The other files are published in the volume that the first one
leaves. -/
theorem run_publish_cons {u : OutputUnit} {us : List OutputUnit} {v w : Volume} {r : Delivery}
    (h : ((memory start).deliver d u).run v = (r, w)) :
    ((memory start).publish d (u :: us)).run v
      = (r :: (((memory start).publish d us).run w).1,
          (((memory start).publish d us).run w).2) := by
  rw [publish, run_bind_eq h, bind_pure_comp, StateT.run_map]
  rfl

/-- All files are delivered exactly if the volume admits their paths,
and then these have been touched in their order. -/
theorem run_publish (hformat : d.formatter = none) (us : List OutputUnit) (v : Volume) :
    (v.Admits (us.flatMap d.paths) → (((memory start).publish d us).run v).1 = us.map d.delivered
        ∧ TouchedAll v (us.flatMap (d.touches v.home)) (((memory start).publish d us).run v).2)
      ∧ (¬ v.Admits (us.flatMap d.paths)
          → (((memory start).publish d us).run v).1 ≠ us.map d.delivered) := by
  induction us generalizing v with
  | nil => exact ⟨fun _ => ⟨rfl, .nil v⟩, fun hnot => absurd (admits_nil v) hnot⟩
  | cons u us ih =>
      -- The rest is published in the volume that the first file leaves. What that volume
      -- admits was admitted at the start together with the first file.
      rcases hfirst : ((memory start).deliver d u).run v with ⟨r, w⟩
      obtain ⟨hdelivered, hfailed⟩ := run_deliver hformat u v
      rw [hfirst] at hdelivered hfailed
      rw [run_publish_cons hfirst, List.flatMap_cons, List.flatMap_cons, List.map_cons]
      by_cases hadmits : v.Admits (d.paths u)
      · obtain ⟨rfl, htouched⟩ := hdelivered hadmits
        have hrest := htouched.admits_append ((d.map_touches v.home u).symm ▸ hadmits)
          (us.flatMap d.paths)
        rw [d.map_touches] at hrest
        rw [hrest]
        refine ⟨fun hall => ?_, fun hnot hok => (ih w).2 hnot (List.cons.inj hok).2⟩
        obtain ⟨hok, hmore⟩ := (ih w).1 hall
        rw [htouched.home] at hmore
        exact ⟨congrArg _ hok, htouched.append hmore⟩
      · refine ⟨fun hall => absurd hall.left hadmits, fun _ hok => ?_⟩
        exact hfailed hadmits (List.cons.inj hok).1

end Host

/-- Publishing on a volume: the deliveries and what it leaves. -/
def Volume.publish (start : Programs) (v : Volume) (d : Destination) (us : List OutputUnit) :
    List Delivery × Volume :=
  ((Host.memory start).publish d us).run v

open Volume in
/-- The texts that publishing without a formatter leaves. No step fails
exactly if the volume admits all paths. Then a path has the text of its
file exactly if the last touch of what it leads to left that text. So it
is if no two paths lead to one file. If the mirror is the output directory
itself, all files are left empty, and still no step has failed. Nothing
else has changed. -/
theorem Destination.publish_texts (start : Programs) (d : Destination)
    (hformat : d.formatter = none) (us : List OutputUnit) (v : Volume) :
    ((v.publish start d us).1 = us.map d.delivered ↔ v.Admits (us.flatMap d.paths))
      ∧ (v.Admits (us.flatMap d.paths) →
          (∀ u ∈ us, ∀ q ∈ d.paths u,
              (v.publish start d us).2.read q = .ok u.text
                ↔ d.leaves? v.home us (keyAt v.home q) = some u.text)
            ∧ (((us.flatMap d.paths).map (keyAt v.home)).Nodup →
                ∀ u ∈ us, ∀ q ∈ d.paths u, (v.publish start d us).2.read q = .ok u.text)
            ∧ (d.mirrorDir = some d.outDir →
                ∀ u ∈ us, (v.publish start d us).2.read (d.target u) = .ok "")
            ∧ ∀ k, k ∉ (us.flatMap d.paths).map (keyAt v.home) →
                k ∉ (us.flatMap d.paths).flatMap (dirsAt v.home) →
                (v.publish start d us).2.node? k = v.node? k) := by
  obtain ⟨hdelivered, hfailed⟩ := Host.run_publish hformat us v
  refine ⟨⟨fun hok => Decidable.not_not.mp fun hnot => hfailed hnot hok,
    fun hadmits => (hdelivered hadmits).1⟩, fun hadmits => ?_⟩
  have htouched : TouchedAll v (us.flatMap (d.touches v.home)) (v.publish start d us).2 :=
    (hdelivered hadmits).2
  -- Every path can be read; the parts differ in which text was left.
  have hreads : ∀ u ∈ us, ∀ q ∈ d.paths u, ∃ text,
      d.leaves? v.home us (keyAt v.home q) = some text
        ∧ (v.publish start d us).2.read q = .ok text := by
    intro u hu q hq
    have hmem : q ∈ us.flatMap d.paths := List.mem_flatMap.mpr ⟨u, hu, hq⟩
    rw [← d.map_flatMap_touches v.home] at hadmits hmem
    obtain ⟨text, hlatest, hfile⟩ := htouched.fileAt hadmits hmem
    exact ⟨text, hlatest, hfile.read⟩
  refine ⟨fun u hu q hq => ?_, fun hnodup u hu q hq => ?_, fun hmirror u hu => ?_,
    fun k hkey hdir => ?_⟩
  · obtain ⟨text, hleaves, hread⟩ := hreads u hu q hq
    rw [hleaves, hread, Except.ok.injEq, Option.some.injEq]
  · obtain ⟨text, hleaves, hread⟩ := hreads u hu q hq
    rw [leaves?_of_nodup hnodup hu hq] at hleaves
    cases hleaves
    exact hread
  · obtain ⟨text, hleaves, hread⟩ := hreads u hu _ List.mem_cons_self
    rw [leaves?_of_mirror_self hmirror hleaves] at hread
    exact hread
  · rw [← d.map_flatMap_touches v.home] at hkey hdir
    rw [htouched.node_of_not_mem (by rwa [map_byKey]), if_neg fun h => hdir h.1]

/-- Surroundings without programs. -/
def noPrograms : Programs := fun _ _ _ => .error .notFound

/-- A file that is mirrored onto itself is lost with no failure reported.
With a mirror of its own it is in both places. -/
theorem Destination.publish_texts_global :
    let u : OutputUnit := ⟨"org/node/global.kt", "package org.node\n"⟩
    let itself : Destination := { outDir := "out", mirrorDir := some "out" }
    let apart : Destination := { outDir := "out", mirrorDir := some "out/mirror" }
    (Volume.fresh.publish noPrograms itself [u]).1 = [itself.delivered u]
      ∧ (Volume.fresh.publish noPrograms itself [u]).2.read "out/org/node/global.kt" = .ok ""
      ∧ (Volume.fresh.publish noPrograms apart [u]).2.read "out/org/node/global.kt" = .ok u.text
      ∧ (Volume.fresh.publish noPrograms apart [u]).2.read "out/mirror/org/node/global.kt"
          = .ok u.text := by
  intro u itself apart
  have hitself : Volume.fresh.Admits ([u].flatMap itself.paths) := by decide
  have hapart : Volume.fresh.Admits ([u].flatMap apart.paths) := by decide
  have hnodup : (([u].flatMap apart.paths).map (Volume.keyAt Volume.fresh.home)).Nodup := by decide
  obtain ⟨hok, hlost⟩ := itself.publish_texts noPrograms rfl [u] Volume.fresh
  obtain ⟨-, hkept⟩ := apart.publish_texts noPrograms rfl [u] Volume.fresh
  have hempty := (hlost hitself).2.2.1 rfl u List.mem_cons_self
  -- The mirror's path is the file's own, so the copy truncates what it is about to read.
  have htarget : itself.target u = "out/org/node/global.kt" := by decide
  have htexts := (hkept hapart).2.1 hnodup u List.mem_cons_self
  rw [htarget] at hempty
  exact ⟨hok.mpr hitself, hempty, htexts _ (by decide), htexts _ (by decide)⟩

end Externals
