import Externals.Files.Volume
import Externals.Proofs.Data.Table

/-!
# `Externals.Proofs.Files.Volume`: what writing and copying do to a volume

A path leads to a key, whatever the volume holds: names go down and `..`
goes up (`keyAt`). On the way it enters directories (`dirsAt`). Writing
makes the directories that are missing and then the file. It fails in two
cases only: a file stands where a directory is needed, or the path does not
lead to a place for a file. `Takes` is this condition, and it is exact:

* `writeAll_of_takes`, `writeAll_of_not_takes` for writing;
* `copy_of_takes`, `copy_of_not_takes` for copying a file.

What a success leaves is said of every key (`Touched`): the file has the
text, the directories are there, and nothing else has changed. Copying
leaves the text of the source, or nothing if the two paths lead to one
file.
-/

set_option autoImplicit false

namespace Externals

namespace Volume

/-! ### Where paths lead -/

/-- One step along a path: a name goes down, `..` goes up. Going up from
the root stays there. -/
def descend (key : List String) (part : String) : List String :=
  if part == ".." then key.dropLast else key ++ [part]

/-- Where parts lead from a key, whether or not there is anything. -/
def reach (key parts : List String) : List String := parts.foldl descend key

/-- The keys that parts enter by name on their way from a key. A step up
enters nothing, because a directory it leads to has been entered
before. -/
def entered (key : List String) : List String → List (List String)
  | [] => []
  | part :: parts =>
      if part == ".." then entered key.dropLast parts
      else (key ++ [part]) :: entered (key ++ [part]) parts

/-- Where a taken-apart path starts: at the root, or in the directory
that relative paths are relative to. -/
def startAt (home : List String) (p : PathName) : List String := if p.absolute then [] else home

/-- The key a path leads to. -/
def keyAt (home : List String) (path : String) : List String :=
  reach (startAt home (.ofString path)) (PathName.ofString path).parts

/-- The directories a path goes through. -/
def dirsAt (home : List String) (path : String) : List (List String) :=
  entered (startAt home (.ofString path)) (PathName.ofString path).parent.parts

/-- A path can lead to a file: it ends in a name, with no slash behind
it. -/
def namesFile (path : String) : Bool :=
  !(PathName.ofString path).slash
    && ((PathName.ofString path).parts.getLast?.map (· != "..")).getD false

/-- The second part of a path enters its keys from where the first part
leads. -/
theorem entered_append (key as bs : List String) :
    entered key (as ++ bs) = entered key as ++ entered (reach key as) bs := by
  induction as generalizing key with
  | nil => rfl
  | cons part as ih =>
      rw [List.cons_append, entered, entered, reach, List.foldl_cons, descend]
      split
      · exact ih _
      · rw [List.cons_append]
        exact congrArg _ (ih _)

/-- A path leads where its second part leads from there. -/
theorem reach_append (key as bs : List String) : reach key (as ++ bs) = reach (reach key as) bs :=
  List.foldl_append

/-- A name at the end is the last part of the key. -/
theorem reach_concat {part : String} (hpart : part ≠ "..") (key parts : List String) :
    reach key (parts ++ [part]) = reach key parts ++ [part] := by
  rw [reach_append]
  show descend _ part = _
  rw [descend, if_neg (by simpa using hpart)]

/-- A path that names a file, taken apart at its end. -/
theorem exists_of_namesFile {path : String} (h : namesFile path = true) :
    ∃ front last, (PathName.ofString path).parts = front ++ [last] ∧ last ≠ ".."
      ∧ (PathName.ofString path).slash = false := by
  simp only [namesFile, Bool.and_eq_true, Bool.not_eq_true'] at h
  obtain ⟨hslash, hlast⟩ := h
  cases hparts : (PathName.ofString path).parts.getLast? with
  | none => simp [hparts] at hlast
  | some last =>
      obtain ⟨front, hfront⟩ := List.getLast?_eq_some_iff.mp hparts
      exact ⟨front, last, hfront, by simpa [hparts] using hlast, hslash⟩

/-! ### What stands under a key -/

/-- A file stands under a key. -/
def holdsFile (v : Volume) (key : List String) : Bool :=
  match v.node? key with
  | some (.file _) => true
  | _ => false

/-- A directory stands under a key. The root is one. -/
def holdsDir (v : Volume) (key : List String) : Bool :=
  match v.node? key with
  | some .directory => true
  | _ => false

/-- The test, as an equation. -/
theorem holdsDir_iff {v : Volume} {key : List String} :
    v.holdsDir key = true ↔ v.node? key = some .directory := by
  unfold holdsDir
  split <;> simp_all

/-- Where no file stands there is a directory as soon as what is missing
is made. -/
theorem made_of_holdsFile_eq_false {v : Volume} {key : List String} (h : v.holdsFile key = false) :
    (if v.node? key = none then some .directory else v.node? key) = some .directory := by
  cases hnode : v.node? key with
  | none => rfl
  | some node =>
      cases node with
      | directory => rfl
      | file content => simp [holdsFile, hnode] at h

/-- Putting something under a key changes this key only. The root cannot
be replaced. -/
theorem node?_put (v : Volume) {key : List String} (hkey : key ≠ []) (node : Node)
    (k : List String) : (v.put key node).node? k = if k = key then some node else v.node? k := by
  by_cases hk : k = []
  · have hne : k ≠ key := fun h => hkey (h.symm.trans hk)
    rw [if_neg hne]
    simp [node?, hk]
  · have hempty : k.isEmpty = false := by simpa using hk
    simp only [node?, put, hempty, Bool.false_eq_true, if_false, Table.get?_insert]
    simp only [eq_comm]

/-! ### Walking -/

/-- A walk through directories goes on from where they lead. -/
theorem walk_append {v : Volume} {key front : List String}
    (h : ∀ k ∈ entered key front, v.node? k = some .directory) (rest : List String) :
    v.walk key (front ++ rest) = v.walk (reach key front) rest := by
  induction front generalizing key with
  | nil => rfl
  | cons part front ih =>
      rw [List.cons_append, walk, reach, List.foldl_cons, descend]
      rw [entered] at h
      -- A step up enters no directory, so only a step down uses the hypothesis.
      split
      · rename_i hup
        rw [if_pos hup] at h
        exact ih h
      · rename_i hdown
        rw [if_neg hdown] at h
        rw [h _ List.mem_cons_self]
        exact ih fun k hk => h k (List.mem_cons_of_mem _ hk)

/-- A walk that is to go on fails at what is no directory, and finds
nothing there unless it is a file. The two errors matter: making
directories goes on after one of them. -/
theorem walk_append_error {v : Volume} {key front : List String}
    (h : ∃ k ∈ entered key front, v.node? k ≠ some .directory) {rest : List String}
    (hrest : rest ≠ []) :
    ∃ e, v.walk key (front ++ rest) = .error e
      ∧ ((∀ k ∈ entered key front, v.holdsFile k = false) → e = .notFound) := by
  induction front generalizing key with
  | nil =>
      obtain ⟨k, hk, -⟩ := h
      cases hk
  | cons part front ih =>
      have hmore : (front ++ rest).isEmpty = false := by simp [hrest]
      rw [List.cons_append, walk]
      rw [entered] at h ⊢
      split
      · rename_i hup
        rw [if_pos hup] at h
        exact ih h
      · rename_i hdown
        rw [if_neg hdown] at h
        -- The walk fails at the first directory that is not one: it may be this step's or a later
        -- one, and a file met on the way is the only cause of `notDirectory`.
        cases hnode : v.node? (key ++ [part]) with
        | none => exact ⟨.notFound, by simp [hmore], fun _ => rfl⟩
        | some node =>
            cases node with
            | file content =>
                refine ⟨.notDirectory, by simp [hmore], fun hno => ?_⟩
                have := hno _ List.mem_cons_self
                simp [holdsFile, hnode] at this
            | directory =>
                obtain ⟨k, hk, hne⟩ := h
                rcases List.mem_cons.mp hk with rfl | hmem
                · exact absurd hnode hne
                · obtain ⟨e, he, hnot⟩ := ih ⟨k, hmem, hne⟩
                  exact ⟨e, he, fun hno => hnot fun k hk => hno k (List.mem_cons_of_mem _ hk)⟩

/-! ### Making directories -/

/-- A volume after directories were made: those of a list that were
missing are there, and nothing else has changed. -/
structure Opened (v w : Volume) (dirs : List (List String)) : Prop where
  home : w.home = v.home
  node : ∀ k, w.node? k = if k ∈ dirs ∧ v.node? k = none then some .directory else v.node? k

namespace Opened

variable {v w x : Volume} {ds es : List (List String)}

/-- Where all directories are there, nothing was made. -/
theorem refl (h : ∀ k ∈ ds, v.node? k = some .directory) : Opened v v ds where
  home := rfl
  node k := by
    split
    · rename_i hk
      exact h k hk.1
    · rfl

/-- One directory more. -/
theorem put (h : ∀ k ∈ ds, v.node? k = some .directory) {key : List String} (hkey : key ≠ [])
    (hnone : v.node? key = none) : Opened v (v.put key .directory) (ds ++ [key]) where
  home := rfl
  node k := by
    rw [node?_put v hkey]
    by_cases hk : k = key
    · simp [hk, hnone]
    · by_cases hmem : k ∈ ds
      · simp [hk, h k hmem]
      · simp [hk, hmem]

/-- Making directories twice opens all of them. -/
theorem trans (hw : Opened v w ds) (hx : Opened w x es) (hsub : ∀ k ∈ ds, k ∈ es) :
    Opened v x es where
  home := hx.home.trans hw.home
  node k := by
    rw [hx.node, hw.node]
    by_cases hnone : v.node? k = none
    · by_cases hmem : k ∈ ds
      · simp [hnone, hmem, hsub k hmem]
      · simp [hnone, hmem]
    · simp [hnone]

/-- No file is in the way of the directories, so all of them are there. -/
theorem directory (h : Opened v w ds) (hno : ∀ k ∈ ds, v.holdsFile k = false) :
    ∀ k ∈ ds, w.node? k = some .directory := by
  intro k hk
  simpa [h.node, hk] using made_of_holdsFile_eq_false (hno k hk)

/-- Files and directories stay what they are. -/
theorem node_of_some (h : Opened v w ds) {k : List String} {node : Node}
    (hk : v.node? k = some node) : w.node? k = some node := by
  rw [h.node, hk]
  simp

/-- No file comes or goes. -/
theorem holdsFile (h : Opened v w ds) (k : List String) : w.holdsFile k = v.holdsFile k := by
  rw [Volume.holdsFile, Volume.holdsFile, h.node]
  by_cases hnone : v.node? k = none
  · by_cases hk : k ∈ ds <;> simp [hnone, hk]
  · simp [hnone]

/-- The directories of a volume afterwards: those it had, and those that
were made. -/
theorem holdsDir_eq_false_iff (h : Opened v w ds) (hno : ∀ k ∈ ds, v.holdsFile k = false)
    {k : List String} : w.holdsDir k = false ↔ v.holdsDir k = false ∧ k ∉ ds := by
  by_cases hk : k ∈ ds
  · have hdir := holdsDir_iff.mpr (h.directory hno k hk)
    simp [hdir, hk]
  · have hnode : w.node? k = v.node? k := by
      rw [h.node]
      simp [hk]
    simp [holdsDir, hnode, hk]

end Opened

/-- Without a slash at its end, a path is located by walking along its
parts. -/
theorem locate_eq_walk (v : Volume) {p : PathName} (hslash : p.slash = false) :
    v.locate p = v.walk (startAt v.home p) p.parts := by
  rw [locate]
  split
  · rename_i key content hfile
    rw [hslash]
    exact hfile.symm
  · rfl

/-- A directory cannot be made where its path leads nowhere. -/
theorem ensureDir_of_error {v : Volume} {p : PathName} {e : FileError}
    (h : v.locate p = .error e) : v.ensureDir p = .error e := by
  simp [ensureDir, makeDir, leadsToDir, h]

/-- What making one directory does when those before it are there: it
fails at a file, and else the directory is there. -/
theorem ensureDir_of_front {v : Volume} {p : PathName} (hslash : p.slash = false)
    {front : List String} {part : String} (hparts : p.parts = front ++ [part])
    (hfront : ∀ k ∈ entered (startAt v.home p) front, v.node? k = some .directory) :
    ((∀ k ∈ entered (startAt v.home p) p.parts, v.holdsFile k = false)
        ∧ ∃ w, v.ensureDir p = .ok w ∧ Opened v w (entered (startAt v.home p) p.parts))
      ∨ (∃ k ∈ entered (startAt v.home p) p.parts, v.holdsFile k = true)
        ∧ v.ensureDir p = .error .occupied := by
  have hlocate : v.locate p = v.walk (reach (startAt v.home p) front) [part] := by
    rw [locate_eq_walk v hslash, hparts, walk_append hfront]
  -- Only the keys entered before the last step and the key it starts from matter from here on.
  rw [hparts, entered_append]
  revert hfront hlocate
  generalize entered (startAt v.home p) front = ds
  generalize reach (startAt v.home p) front = key
  intro hfront hlocate
  have hno : ∀ k ∈ ds, v.holdsFile k = false := fun k hk => by simp [holdsFile, hfront k hk]
  by_cases hpart : part = ".."
  · -- A step up enters nothing.
    have hnone : entered key [part] = [] := by simp [entered, hpart]
    have hok : v.ensureDir p = .ok v := by
      simp [ensureDir, makeDir, leadsToDir, hlocate, walk, hpart]
    rw [hnone, List.append_nil]
    exact .inl ⟨hno, v, hok, Opened.refl hfront⟩
  · have hone : entered key [part] = [key ++ [part]] := by simp [entered, hpart]
    rw [hone]
    cases hnode : v.node? (key ++ [part]) with
    | none =>
        have hok : v.ensureDir p = .ok (v.put (key ++ [part]) .directory) := by
          simp [ensureDir, makeDir, hlocate, walk, hpart, hnode]
        refine .inl ⟨fun k hk => ?_, _, hok, Opened.put hfront (by simp) hnode⟩
        rcases List.mem_append.mp hk with hin | hin
        · exact hno k hin
        · simp [holdsFile, List.mem_singleton.mp hin, hnode]
    | some node =>
        cases node with
        | directory =>
            have hok : v.ensureDir p = .ok v := by
              simp [ensureDir, makeDir, leadsToDir, hlocate, walk, hpart, hnode]
            have hall : ∀ k ∈ ds ++ [key ++ [part]], v.node? k = some .directory := by
              intro k hk
              rcases List.mem_append.mp hk with hin | hin
              · exact hfront k hin
              · rw [List.mem_singleton.mp hin, hnode]
            exact .inl ⟨fun k hk => by simp [holdsFile, hall k hk], v, hok, Opened.refl hall⟩
        | file content =>
            refine .inr ⟨⟨key ++ [part], by simp, by simp [holdsFile, hnode]⟩, ?_⟩
            simp [ensureDir, makeDir, leadsToDir, hlocate, walk, hpart, hnode]

/-- The path of the first parts of a path. -/
def firstParts (p : PathName) (n : Nat) : PathName := { p with parts := p.parts.take n }

/-- The directory can be made at once, so those before it are there. -/
theorem makeDirsTo_of_ok {v w : Volume} {p : PathName} {n : Nat}
    (h : v.ensureDir (firstParts p (n + 1)) = .ok w) : v.makeDirsTo p (n + 1) = .ok w := by
  simp only [firstParts] at h
  simp [makeDirsTo, h]

/-- Any failure but a missing directory is final. -/
theorem makeDirsTo_of_error {v : Volume} {p : PathName} {n : Nat} {e : FileError}
    (h : v.ensureDir (firstParts p (n + 1)) = .error e) (he : e ≠ .notFound) :
    v.makeDirsTo p (n + 1) = .error e := by
  simp only [firstParts] at h
  cases e <;> simp_all [makeDirsTo]

/-- If something is missing on the way, the directories before the last
one are made first, and then the last one is tried again. -/
theorem makeDirsTo_of_notFound {v : Volume} {p : PathName} {n : Nat}
    (h : v.ensureDir (firstParts p (n + 1)) = .error .notFound) :
    (∀ w, v.makeDirsTo p n = .ok w →
        v.makeDirsTo p (n + 1) = w.ensureDir (firstParts p (n + 1)))
      ∧ ∀ e, v.makeDirsTo p n = .error e → v.makeDirsTo p (n + 1) = .error e := by
  simp only [firstParts] at h ⊢
  constructor
  · intro w hw
    simp [makeDirsTo, h, hw]
  · intro e he
    simp [makeDirsTo, h, he]

/-- What making directories does: it fails at a file on the way, and
else all directories of the way are there. The induction is on the
number of parts, as the loop tries the longest path first and goes
back. -/
theorem makeDirsTo_cases (v : Volume) {p : PathName} (hslash : p.slash = false) (n : Nat)
    (hn : n ≤ p.parts.length) :
    ((∀ k ∈ entered (startAt v.home p) (p.parts.take n), v.holdsFile k = false)
        ∧ ∃ w, v.makeDirsTo p n = .ok w
          ∧ Opened v w (entered (startAt v.home p) (p.parts.take n)))
      ∨ (∃ k ∈ entered (startAt v.home p) (p.parts.take n), v.holdsFile k = true)
        ∧ ∃ e, v.makeDirsTo p n = .error e := by
  induction n with
  | zero => exact .inl ⟨nofun, v, rfl, Opened.refl nofun⟩
  | succ n ih =>
      have htake : (firstParts p (n + 1)).parts = p.parts.take n ++ [p.parts[n]] :=
        (List.take_append_getElem hn).symm
      have hsub : ∀ k ∈ entered (startAt v.home p) (p.parts.take n),
          k ∈ entered (startAt v.home p) (p.parts.take (n + 1)) := fun k hk => by
        rw [← List.take_append_getElem hn, entered_append]
        exact List.mem_append_left _ hk
      by_cases hall : ∀ k ∈ entered (startAt v.home p) (p.parts.take n),
          v.node? k = some .directory
      · -- All but the last are there, so it is made or refused at once.
        rcases ensureDir_of_front (p := firstParts p (n + 1)) hslash htake hall with
          ⟨hno, w, hok, hopened⟩ | ⟨hfile, herror⟩
        · exact .inl ⟨hno, w, makeDirsTo_of_ok hok, hopened⟩
        · exact .inr ⟨hfile, .occupied, makeDirsTo_of_error herror nofun⟩
      · simp only [Classical.not_forall] at hall
        obtain ⟨k, hk, hne⟩ := hall
        obtain ⟨e, hwalk, hnotFound⟩ :=
          walk_append_error ⟨k, hk, hne⟩ (List.cons_ne_nil p.parts[n] [])
        have hensure : v.ensureDir (firstParts p (n + 1)) = .error e := by
          refine ensureDir_of_error ?_
          rw [locate_eq_walk v (p := firstParts p (n + 1)) hslash, htake]
          exact hwalk
        by_cases he : e = .notFound
        · subst he
          obtain ⟨hgo, hstop⟩ := makeDirsTo_of_notFound hensure
          rcases ih (by omega) with ⟨hno, w, hok, hopened⟩ | ⟨⟨k, hk, hfile⟩, e, herror⟩
          · -- Those before it are made first, and then it is tried again.
            have hstart : startAt w.home (firstParts p (n + 1)) = startAt v.home p := by
              rw [hopened.home]
              rfl
            have hlast := ensureDir_of_front (v := w) (p := firstParts p (n + 1)) hslash htake
              (hstart ▸ hopened.directory hno)
            rw [hstart] at hlast
            rcases hlast with ⟨hno', x, hok', hopened'⟩ | ⟨⟨k, hk, hfile⟩, herror⟩
            · refine .inl ⟨fun k hk => ?_, x, (hgo w hok).trans hok', hopened.trans hopened' hsub⟩
              rw [← hopened.holdsFile]
              exact hno' k hk
            · refine .inr ⟨⟨k, hk, ?_⟩, .occupied, (hgo w hok).trans herror⟩
              rw [← hopened.holdsFile]
              exact hfile
          · exact .inr ⟨⟨k, hsub k hk, hfile⟩, e, hstop e herror⟩
        · refine .inr ⟨?_, e, makeDirsTo_of_error hensure he⟩
          have hfile := mt hnotFound he
          simp only [Classical.not_forall, Bool.not_eq_false] at hfile
          obtain ⟨k, hk, hfile⟩ := hfile
          exact ⟨k, hsub k hk, hfile⟩

/-- The directories of a path are made, or a file is in the way. -/
theorem makeDirs_parent_cases (v : Volume) (path : String) :
    ((∀ k ∈ dirsAt v.home path, v.holdsFile k = false)
        ∧ ∃ w, v.makeDirs (PathName.ofString path).parent = .ok w
          ∧ Opened v w (dirsAt v.home path))
      ∨ (∃ k ∈ dirsAt v.home path, v.holdsFile k = true)
        ∧ ∃ e, v.makeDirs (PathName.ofString path).parent = .error e := by
  have hcases := v.makeDirsTo_cases (p := (PathName.ofString path).parent) rfl _ (Nat.le_refl _)
  rw [List.take_length] at hcases
  exact hcases

/-! ### Finding files -/

/-- All directories of a path are there. -/
def Leads (v : Volume) (path : String) : Prop :=
  ∀ k ∈ dirsAt v.home path, v.node? k = some .directory

/-- The empty path names no file. -/
theorem isEmpty_of_namesFile {path : String} (h : namesFile path = true) :
    path.isEmpty = false := by
  rw [Bool.eq_false_iff]
  intro hempty
  rw [String.isEmpty_iff.mp hempty] at h
  exact absurd h (by decide)

/-- A path that names a file is looked up at its end. -/
theorem find_of_leads {v : Volume} {path : String} (hname : namesFile path = true)
    (hleads : v.Leads path) :
    ∃ front last, last ≠ ".." ∧ keyAt v.home path = front ++ [last]
      ∧ v.find path = v.walk front [last] := by
  obtain ⟨front, last, hparts, hlast, hslash⟩ := exists_of_namesFile hname
  have hfront : (PathName.ofString path).parent.parts = front := by
    rw [PathName.parent, hparts, List.dropLast_concat]
  -- Up to the last part the walk stays in directories, so only the last step is left to
  -- take.
  refine ⟨reach (startAt v.home (.ofString path)) front, last, hlast, ?_, ?_⟩
  · rw [keyAt, hparts, reach_concat hlast]
  · rw [find, isEmpty_of_namesFile hname, if_neg Bool.false_ne_true, locate_eq_walk v hslash,
      hparts]
    refine walk_append ?_ _
    rw [← hfront]
    exact hleads

/-- Such a path does not lead to the root. -/
theorem keyAt_ne_nil {home : List String} {path : String} (h : namesFile path = true) :
    keyAt home path ≠ [] := by
  obtain ⟨front, last, hparts, hlast, -⟩ := exists_of_namesFile h
  rw [keyAt, hparts, reach_concat hlast]
  simp

/-- A path leads to a file with a text. -/
structure FileAt (v : Volume) (path : String) (text : String) : Prop where
  name : namesFile path = true
  leads : v.Leads path
  node : v.node? (keyAt v.home path) = some (.file text.toUTF8)

/-- Looking the path up finds the file. -/
theorem FileAt.find {v : Volume} {path text : String} (h : v.FileAt path text) :
    v.find path = .ok (.file (keyAt v.home path) text.toUTF8) := by
  obtain ⟨front, last, hlast, hkey, hfind⟩ := find_of_leads h.name h.leads
  have hnode := h.node
  rw [hkey] at hnode ⊢
  simp [hfind, walk, hlast, hnode]

/-- Reading gives its bytes. -/
theorem FileAt.readBytes {v : Volume} {path text : String} (h : v.FileAt path text) :
    v.readBytes path = .ok text.toUTF8 := by
  rw [Volume.readBytes, h.find]

/-- Reading gives back the text, because the bytes of a text are decoded
to it. -/
theorem FileAt.read {v : Volume} {path text : String} (h : v.FileAt path text) :
    v.read path = .ok text := by
  have htext : String.fromUTF8? text.toUTF8 = some text := dif_pos text.isValidUTF8
  rw [Volume.read, h.readBytes]
  simp only [htext]

/-- Writing to a path whose directories are there, where no directory
stands: the file has the bytes. -/
theorem writeBytes_of_leads {v : Volume} {path : String} (hname : namesFile path = true)
    (hleads : v.Leads path) (hdir : v.holdsDir (keyAt v.home path) = false)
    (content : ByteArray) :
    v.writeBytes path content = .ok (v.put (keyAt v.home path) (.file content)) := by
  obtain ⟨front, last, hlast, hkey, hfind⟩ := find_of_leads hname hleads
  obtain ⟨-, -, -, -, hslash⟩ := exists_of_namesFile hname
  rw [hkey] at hdir ⊢
  -- The place is vacant or a file, and both can be written.
  cases hnode : v.node? (front ++ [last]) with
  | none => simp [writeBytes, hfind, walk, hlast, hnode, hslash]
  | some node =>
      cases node with
      | file old => simp [writeBytes, hfind, walk, hlast, hnode]
      | directory => simp [holdsDir, hnode] at hdir

/-- A path with a slash at its end does not lead to a file. -/
theorem locate_ne_file {v : Volume} {p : PathName} (hslash : p.slash = true)
    (key : List String) (content : ByteArray) : v.locate p ≠ .ok (.file key content) := by
  rw [locate]
  split
  · simp [hslash]
  · rename_i hnot
    exact hnot key content

/-- A path that names no file but has no slash at its end leads to a
directory: it has no parts, or ends with a step up. -/
theorem find_of_step_up {v : Volume} {path : String} (hname : namesFile path = false)
    (hslash : (PathName.ofString path).slash = false) (hempty : path.isEmpty = false)
    (hleads : v.Leads path) : ∃ key, v.find path = .ok (.directory key) := by
  rw [find, hempty, if_neg Bool.false_ne_true, locate_eq_walk v hslash]
  -- The path ends in a step up: its last part is `..` or it has no parts at all.
  cases hlast : (PathName.ofString path).parts.getLast? with
  | none =>
      rw [List.getLast?_eq_none_iff.mp hlast]
      exact ⟨_, rfl⟩
  | some last =>
      obtain ⟨front, hparts⟩ := List.getLast?_eq_some_iff.mp hlast
      obtain rfl : last = ".." := by simpa [namesFile, hslash, hlast] using hname
      have hfront : ∀ k ∈ entered (startAt v.home (.ofString path)) front,
          v.node? k = some .directory := fun k hk => hleads k (by
        rw [dirsAt, PathName.parent, hparts, List.dropLast_concat]
        exact hk)
      rw [hparts, walk_append hfront]
      exact ⟨_, rfl⟩

/-- There is no writing to a directory or to a path that names no file.
The cases are those of the end of a path: a name, nothing, a step up, a
slash. -/
theorem writeBytes_error {v : Volume} {path : String} (hleads : v.Leads path)
    (h : namesFile path = true → v.holdsDir (keyAt v.home path) = true) (content : ByteArray) :
    ∃ e, v.writeBytes path content = .error e := by
  -- Four ways not to name a file: a directory stands there, the path is empty, it ends in a
  -- step up, or it ends in a slash.
  cases hname : namesFile path with
  | true =>
      obtain ⟨front, last, hlast, hkey, hfind⟩ := find_of_leads hname hleads
      have hnode := holdsDir_iff.mp (h hname)
      rw [hkey] at hnode
      exact ⟨.isDirectory, by simp [writeBytes, hfind, walk, hlast, hnode]⟩
  | false =>
      cases hempty : path.isEmpty with
      | true => exact ⟨.notFound, by simp [writeBytes, find, hempty]⟩
      | false =>
          cases hslash : (PathName.ofString path).slash with
          | false =>
              obtain ⟨key, hfind⟩ := find_of_step_up hname hslash hempty hleads
              exact ⟨.isDirectory, by simp [writeBytes, hfind]⟩
          | true =>
              have hfind : v.find path = v.locate (.ofString path) := by simp [find, hempty]
              -- With a trailing slash the place is never a file, and a vacant place is refused.
              cases hplace : v.locate (.ofString path) with
              | error e => exact ⟨e, by simp [writeBytes, hfind, hplace]⟩
              | ok place =>
                  cases place with
                  | directory key => exact ⟨.isDirectory, by simp [writeBytes, hfind, hplace]⟩
                  | file key old => exact absurd hplace (locate_ne_file hslash key old)
                  | vacant key =>
                      exact ⟨.isDirectory, by simp [writeBytes, hfind, hplace, hslash]⟩

/-! ### Writing and copying -/

/-- A volume takes a file at a path: the path names a file, no file is
in the way of its directories, and no directory is or comes to be where
the file is to stand. -/
def Takes (v : Volume) (path : String) : Prop :=
  namesFile path = true ∧ (∀ k ∈ dirsAt v.home path, v.holdsFile k = false)
    ∧ v.holdsDir (keyAt v.home path) = false ∧ keyAt v.home path ∉ dirsAt v.home path

/-- Both conditions are about what a key leads to, so this can be
decided. -/
instance (v : Volume) (path : String) : Decidable (v.Takes path) :=
  inferInstanceAs (Decidable (_ ∧ _))

/-- A volume after a file was written: the file has the text, its
directories are there, and nothing else has changed. -/
structure Touched (v w : Volume) (path text : String) : Prop where
  home : w.home = v.home
  node : ∀ k, w.node? k
    = if k = keyAt v.home path then some (.file text.toUTF8)
      else if k ∈ dirsAt v.home path ∧ v.node? k = none then some .directory
      else v.node? k

/-- The volume in which the file itself is written, after its
directories were made. It is ready for the file. -/
theorem Takes.opened {v w : Volume} {path : String} (h : v.Takes path)
    (hopened : Opened v w (dirsAt v.home path)) :
    w.Leads path ∧ w.holdsDir (keyAt w.home path) = false := by
  refine ⟨?_, ?_⟩
  · rw [Leads, hopened.home]
    exact hopened.directory h.2.1
  · rw [hopened.home, hopened.holdsDir_eq_false_iff h.2.1]
    exact h.2.2

/-- A file that is put at its place after its directories were made. -/
theorem Opened.touched {v w : Volume} {path : String} (hopened : Opened v w (dirsAt v.home path))
    (hname : namesFile path = true) (text : String) :
    Touched v (w.put (keyAt w.home path) (.file text.toUTF8)) path text where
  home := hopened.home
  node k := by
    rw [node?_put w (keyAt_ne_nil hname), hopened.home, hopened.node]

/-- If a volume does not take a file though no file is in the way, then
a directory stands where the file is to be, perhaps one that was made on
the way. -/
theorem Opened.holdsDir_of_not_takes {v w : Volume} {path : String}
    (hopened : Opened v w (dirsAt v.home path))
    (hno : ∀ k ∈ dirsAt v.home path, v.holdsFile k = false) (h : ¬ v.Takes path) :
    namesFile path = true → w.holdsDir (keyAt w.home path) = true := by
  intro hname
  rw [hopened.home, ← Bool.not_eq_false, hopened.holdsDir_eq_false_iff hno]
  exact fun hdir => h ⟨hname, hno, hdir⟩

/-- A volume that takes a file has it after writing. -/
theorem writeAll_of_takes {v : Volume} {path : String} (h : v.Takes path) (text : String) :
    ∃ w, v.writeAll path text.toUTF8 = (.ok (), w) ∧ Touched v w path text := by
  rcases v.makeDirs_parent_cases path with ⟨-, w, hok, hopened⟩ | ⟨⟨k, hk, hfile⟩, -⟩
  · obtain ⟨hleads, hdir⟩ := h.opened hopened
    refine ⟨_, ?_, hopened.touched h.1 text⟩
    simp [writeAll, hok, writeBytes_of_leads h.1 hleads hdir]
  · exact absurd (h.2.1 k hk) (by simp [hfile])

/-- In a volume that does not take a file, writing fails. -/
theorem writeAll_of_not_takes {v : Volume} {path : String} (h : ¬ v.Takes path)
    (content : ByteArray) : ∃ e w, v.writeAll path content = (.error e, w) := by
  rcases v.makeDirs_parent_cases path with ⟨hno, w, hok, hopened⟩ | ⟨-, e, herror⟩
  · have hleads : w.Leads path := by
      rw [Leads, hopened.home]
      exact hopened.directory hno
    obtain ⟨e, he⟩ := writeBytes_error hleads (hopened.holdsDir_of_not_takes hno h) content
    exact ⟨e, w, by simp [writeAll, hok, he]⟩
  · exact ⟨e, v, by simp [writeAll, herror]⟩

/-- A file that is put where no directory stands leaves all ways open. -/
theorem Leads.put {v : Volume} {path : String} (hleads : v.Leads path) {key : List String}
    (hkey : key ≠ []) (hdir : v.holdsDir key = false) (content : ByteArray) :
    (v.put key (.file content)).Leads path := by
  intro k hk
  have hnode := hleads k hk
  rw [node?_put v hkey, if_neg, hnode]
  rintro rfl
  simp [holdsDir, hnode] at hdir

/-- A file is copied over another: the source is read after the target
was emptied. If both are one file, it is read as empty. -/
theorem copyOver_of_leads {v : Volume} {source target text : String}
    (hsource : v.FileAt source text) (hname : namesFile target = true) (hleads : v.Leads target)
    (hdir : v.holdsDir (keyAt v.home target) = false) :
    v.copyOver source target
      = .ok ((v.put (keyAt v.home target) (.file .empty)).put (keyAt v.home target)
          (.file (if keyAt v.home target = keyAt v.home source then "" else text).toUTF8)) := by
  have hkey : keyAt v.home target ≠ [] := keyAt_ne_nil hname
  -- The target exists and is empty before the source is read.
  let emptied := v.put (keyAt v.home target) (.file .empty)
  have hempty : v.writeBytes target .empty = .ok emptied :=
    writeBytes_of_leads hname hleads hdir .empty
  have hread : emptied.FileAt source
      (if keyAt v.home target = keyAt v.home source then "" else text) := by
    refine ⟨hsource.name, hsource.leads.put hkey hdir .empty, ?_⟩
    show emptied.node? (keyAt v.home source) = _
    rw [node?_put v hkey]
    by_cases hsame : keyAt v.home target = keyAt v.home source
    · rw [if_pos hsame.symm, if_pos hsame]
      rfl
    · rw [if_neg (Ne.symm hsame), if_neg hsame, hsource.node]
  have hdir' : emptied.holdsDir (keyAt v.home target) = false := by
    simp [emptied, holdsDir, node?_put v hkey]
  have hwrite := writeBytes_of_leads (v := emptied) hname (hleads.put hkey hdir .empty) hdir'
  simp only [copyOver, hsource.find, bind, Except.bind, hempty, hread.readBytes, hwrite]
  rfl

/-- A file is still found after directories were made. -/
theorem FileAt.opened {v w : Volume} {path text : String} (h : v.FileAt path text)
    {dirs : List (List String)} (hopened : Opened v w dirs) : w.FileAt path text where
  name := h.name
  leads := by
    rw [Leads, hopened.home]
    exact fun k hk => hopened.node_of_some (h.leads k hk)
  node := by
    rw [hopened.home]
    exact hopened.node_of_some h.node

/-- Copying makes the directories of the target and then copies over
what is there. -/
theorem copy_of_copyOver {v w x : Volume} {source target : String}
    (hok : v.makeDirs (PathName.ofString target).parent = .ok w)
    (hcopy : w.copyOver source target = .ok x) : v.copy source target = (.ok (), x) := by
  simp only [copy, hok, hcopy]

/-- In a volume that takes the target, a copy leaves the text of the
source, or nothing if the two paths lead to one file. -/
theorem copy_of_takes {v : Volume} {source target text : String} (hsource : v.FileAt source text)
    (h : v.Takes target) :
    ∃ w, v.copy source target = (.ok (), w)
      ∧ Touched v w target
          (if keyAt v.home target = keyAt v.home source then "" else text) := by
  rcases v.makeDirs_parent_cases target with ⟨-, w, hok, hopened⟩ | ⟨⟨k, hk, hfile⟩, -⟩
  · obtain ⟨hleads, hdir⟩ := h.opened hopened
    have hcopy := copyOver_of_leads (hsource.opened hopened) h.1 hleads hdir
    rw [hopened.home] at hcopy
    refine ⟨_, copy_of_copyOver hok hcopy, hopened.home, fun k => ?_⟩
    rw [node?_put _ (keyAt_ne_nil h.1), node?_put w (keyAt_ne_nil h.1), hopened.node]
    by_cases hk : k = keyAt v.home target <;> simp [hk]
  · exact absurd (h.2.1 k hk) (by simp [hfile])

/-- In a volume that does not take the target, copying fails. -/
theorem copy_of_not_takes {v : Volume} {source target text : String}
    (hsource : v.FileAt source text) (h : ¬ v.Takes target) :
    ∃ e w, v.copy source target = (.error e, w) := by
  -- Either the directories on the way cannot be made, or they are made and the write then
  -- fails.
  rcases v.makeDirs_parent_cases target with ⟨hno, w, hok, hopened⟩ | ⟨-, e, herror⟩
  · have hleads : w.Leads target := by
      rw [Leads, hopened.home]
      exact hopened.directory hno
    obtain ⟨e, he⟩ := writeBytes_error hleads (hopened.holdsDir_of_not_takes hno h) .empty
    have hcopy : w.copyOver source target = .error e := by
      simp only [copyOver, (hsource.opened hopened).find, bind, Except.bind, he]
    exact ⟨e, w, by simp [copy, hok, hcopy]⟩
  · exact ⟨e, v, by simp [copy, herror]⟩

end Volume

end Externals
