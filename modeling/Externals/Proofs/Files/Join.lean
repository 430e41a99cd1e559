import Externals.Files.Basic

/-!
# `Externals.Proofs.Files.Join`: paths below a directory

A path is read as the list of its parts. Joining a relative path to a
directory appends its parts to those of the directory. So the joined
path lies below the directory if no part of the relative path goes up
(`liesBelow_joinPath`). A path that is absolute is not joined at all.

The lemmas on `splitOn` say how cutting a text at a character goes
along with appending.
-/

set_option autoImplicit false

namespace Externals

/-! ### Pieces -/

namespace Text

/-- A text has at least one piece, perhaps an empty one. -/
theorem splitOn_ne_nil (sep : Char) (cs : List Char) : splitOn sep cs ≠ [] := by
  cases cs with
  | nil => exact List.cons_ne_nil _ _
  | cons c cs =>
      rw [splitOn]
      split
      · exact List.cons_ne_nil _ _
      · split <;> exact List.cons_ne_nil _ _

/-- A character that is no separator belongs to the first piece. -/
theorem splitOn_cons_of_ne {sep c : Char} (h : c ≠ sep) {cs s : List Char} {ss : List (List Char)}
    (hs : splitOn sep cs = s :: ss) : splitOn sep (c :: cs) = (c :: s) :: ss := by
  rw [splitOn, if_neg (by simpa using h), hs]

/-- A separator ends a piece: what is before it and what is behind it
are cut on their own. -/
theorem splitOn_append_cons (sep : Char) (cs rest : List Char) :
    splitOn sep (cs ++ sep :: rest) = splitOn sep cs ++ splitOn sep rest := by
  induction cs with
  | nil => simp [splitOn]
  | cons c cs ih =>
      by_cases hc : c = sep
      · simp only [List.cons_append, splitOn, hc, beq_self_eq_true, if_true, ih]
      · obtain ⟨s, ss, hs⟩ := List.exists_cons_of_ne_nil (splitOn_ne_nil sep cs)
        rw [hs, List.cons_append] at ih
        rw [List.cons_append, splitOn_cons_of_ne hc ih, splitOn_cons_of_ne hc hs, List.cons_append]

/-- The characters of a piece stand in the text in their order. -/
theorem sublist_of_mem_splitOn {sep : Char} {cs piece : List Char} (h : piece ∈ splitOn sep cs) :
    piece.Sublist cs := by
  induction cs generalizing piece with
  | nil =>
      rw [splitOn, List.mem_singleton] at h
      subst h
      exact List.Sublist.refl _
  | cons c cs ih =>
      -- At a separator a new piece begins; at any other character the first piece grows by it.
      by_cases hc : c = sep
      · simp only [splitOn, hc, beq_self_eq_true, if_true, List.mem_cons] at h
        rcases h with rfl | hmem
        · exact List.nil_sublist _
        · exact (ih hmem).cons c
      · obtain ⟨s, ss, hs⟩ := List.exists_cons_of_ne_nil (splitOn_ne_nil sep cs)
        rw [splitOn_cons_of_ne hc hs, List.mem_cons] at h
        rw [hs] at ih
        rcases h with rfl | hmem
        · exact (ih (.head _)).cons_cons c
        · exact (ih (.tail _ hmem)).cons c

/-- A text without separators is one piece. -/
theorem splitOn_of_not_mem {sep : Char} {cs : List Char} (h : sep ∉ cs) :
    splitOn sep cs = [cs] := by
  induction cs with
  | nil => rfl
  | cons c cs ih =>
      rw [List.mem_cons, not_or] at h
      exact splitOn_cons_of_ne (Ne.symm h.1) (ih h.2)

/-- An end without separators is the end of a piece. -/
theorem exists_mem_splitOn_append {sep : Char} {rest : List Char} (h : sep ∉ rest)
    (cs : List Char) : ∃ s, s ++ rest ∈ splitOn sep (cs ++ rest) := by
  induction cs with
  | nil => exact ⟨[], by rw [List.nil_append, splitOn_of_not_mem h]; exact .head _⟩
  | cons c cs ih =>
      obtain ⟨s, hs⟩ := ih
      by_cases hc : c = sep
      · refine ⟨s, ?_⟩
        simp only [List.cons_append, splitOn, hc, beq_self_eq_true, if_true]
        exact .tail _ hs
      · obtain ⟨first, others, hsplit⟩ :=
          List.exists_cons_of_ne_nil (splitOn_ne_nil sep (cs ++ rest))
        rw [List.cons_append, splitOn_cons_of_ne hc hsplit]
        rw [hsplit, List.mem_cons] at hs
        -- The piece is the one that takes the character, or a later one.
        rcases hs with rfl | hmem
        · exact ⟨c :: s, .head _⟩
        · exact ⟨s, .tail _ hmem⟩

end Text

/-! ### Parts -/

namespace PathName

/-- The parts of a path that stand for something: neither empty ones nor
single dots. A double dot is kept, since it leads elsewhere. -/
def partsOf (cs : List Char) : List String :=
  ((Text.splitOn '/' cs).map String.ofList).filter fun piece => !(piece == "" || piece == ".")

/-- These are the parts of a path. -/
theorem parts_ofString (path : String) : (ofString path).parts = partsOf path.toList := rfl

/-- A slash separates parts. -/
theorem partsOf_append_cons (cs rest : List Char) :
    partsOf (cs ++ '/' :: rest) = partsOf cs ++ partsOf rest := by
  rw [partsOf, Text.splitOn_append_cons, List.map_append, List.filter_append]
  rfl

/-- A path that is reached from a directory without going up, and that
is not the directory itself. -/
def LiesBelow (directory path : PathName) : Prop :=
  path.absolute = directory.absolute
    ∧ ∃ more, more ≠ [] ∧ ".." ∉ more ∧ path.parts = directory.parts ++ more

/-- Joining appends the parts of a relative path, and keeps whether the
directory is absolute. -/
theorem ofString_joinPath (directory : String) {path : String}
    (hpath : path.toList.head? ≠ some '/') :
    (ofString (joinPath directory path)).absolute = (ofString directory).absolute
      ∧ (ofString (joinPath directory path)).parts
          = (ofString directory).parts ++ (ofString path).parts := by
  rw [joinPath, if_neg (by simpa using hpath)]
  by_cases hempty : directory = ""
  · subst hempty
    have hhead : (path.toList.head? == some '/') = false := by simpa using hpath
    simp [ofString, hhead, Text.splitOn]
  · -- The first character is that of the directory in both cases left.
    have hhead : ∀ rest : String,
        (ofString (directory ++ rest)).absolute = (ofString directory).absolute := by
      intro rest
      have hne : directory.toList ≠ [] := by simpa using hempty
      obtain ⟨c, cs, hcs⟩ := List.exists_cons_of_ne_nil hne
      simp [ofString, hcs]
    have hnot : directory.isEmpty = false := by simpa using hempty
    simp only [hnot, Bool.false_or, parts_ofString]
    split
    · rename_i hslash
      refine ⟨hhead path, ?_⟩
      obtain ⟨front, hfront⟩ := List.getLast?_eq_some_iff.mp (beq_iff_eq.mp hslash)
      -- The slash of the directory is the one between the two.
      have hone : partsOf (front ++ ['/']) = partsOf front := by
        rw [partsOf_append_cons]
        exact List.append_nil _
      rw [String.toList_append, hfront, List.append_assoc, List.singleton_append,
        partsOf_append_cons, hone]
    · rw [String.append_assoc]
      refine ⟨hhead _, ?_⟩
      rw [String.toList_append, String.toList_append, ← partsOf_append_cons]
      rfl

/-- A relative path that does not go up leads below every directory. -/
theorem liesBelow_joinPath (directory : String) {path : String}
    (hpath : path.toList.head? ≠ some '/') (hne : (ofString path).parts ≠ [])
    (hup : ".." ∉ (ofString path).parts) :
    LiesBelow (ofString directory) (ofString (joinPath directory path)) := by
  obtain ⟨habsolute, hparts⟩ := ofString_joinPath directory hpath
  exact ⟨habsolute, _, hne, hup, hparts⟩

end PathName

end Externals
