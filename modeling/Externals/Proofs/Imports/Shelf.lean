import Externals.Imports.Headers
import Externals.Proofs.Data.Table

/-!
# `Externals.Proofs.Imports.Shelf`: the header of a file as one table

The header of a file is a root of the arena whose children collect the
imports, one child for each label. Seen from the file, the numbers in
the arena do not matter: its header is a table from labels to tables
of import lines, a *shelf*.

`Headers.Tidy` says which arenas can be seen that way: every child
hangs below one root, roots have no lines of their own, and siblings
have different labels. Filing lines below one root keeps the arena
tidy, changes the shelf of that root by `Shelf.file`, and leaves all
other shelves alone.

* `Headers.Tidy.addRoot`, `Headers.Tidy.file`: the two ways an arena
  grows.
* `Headers.Tidy.lookup_eq`, `Headers.Tidy.merged_eq`: what a file reads
  out of its header.
-/

set_option autoImplicit false

namespace Externals

/-! ### Lines -/

namespace ImportLine

/-- The text of a line: a name with its package in front, and the other
name it is given, if there is one. -/
def written (line : ImportLine) : String :=
  "import " ++ (line.package ++ "." ++ line.name
    ++ line.rename.elim "" fun rename => " as " ++ rename)

/-- A line is rendered so. The renderer has one text for each of the two
forms, here they are one with an optional end. -/
theorem render_eq_written (line : ImportLine) : line.render = line.written := by
  unfold render written
  cases line.rename with
  | none => simp only [Option.elim_none, String.append_empty, String.append_assoc]
  | some rename => simp only [Option.elim_some, String.append_assoc]

end ImportLine

/-! ### Shelves -/

/-- Import lines under the names they make visible. -/
def keyed (lines : List ImportLine) : List (String × ImportLine) :=
  lines.map fun line => (line.key, line)

/-- The lines of two lists come one after the other. -/
theorem keyed_append (lines more : List ImportLine) :
    keyed (lines ++ more) = keyed lines ++ keyed more :=
  List.map_append

/-- The keys are those of the lines. -/
theorem map_fst_keyed (lines : List ImportLine) :
    (keyed lines).map Prod.fst = lines.map ImportLine.key :=
  List.map_map

/-- What is found under a name is a line that makes it visible, and one
of the lines there were. -/
theorem of_latest?_keyed {lines : List ImportLine} {key : String} {line : ImportLine}
    (h : Table.latest? key (keyed lines) = some line) : line.key = key ∧ line ∈ lines := by
  have hmem := Table.mem_of_latest? h
  rw [keyed, List.mem_map] at hmem
  obtain ⟨request, hrequest, hpair⟩ := hmem
  rw [Prod.mk.injEq] at hpair
  rw [← hpair.1, ← hpair.2]
  exact ⟨rfl, hrequest⟩

/-- The import lines of a file by label, in the order of the labels'
first use. -/
abbrev Shelf := Table String (Table String ImportLine)

namespace Shelf

/-- File lines under a label. The label is opened if it is new, and
otherwise the lines are put over those it has. -/
def file (T : Shelf) (label : String) (lines : List ImportLine) : Shelf :=
  T.upsert label fun t => (t.getD .empty).insertAll (keyed lines)

/-- The first line of a name, in the order of the labels. Fusion asks in
this way. -/
def lookup (T : Shelf) (key : String) : Option ImportLine :=
  T.entries.findSome? fun e => e.2.get? key

/-- One line for each name, the last one winning. The import section is
made of these. -/
def merged (T : Shelf) : Table String ImportLine :=
  T.entries.foldl (fun t e => t.insertAll e.2.entries) .empty

/-- Filing replaces one table, or adds one at the end. -/
theorem entries_file (T : Shelf) (label : String) (lines : List ImportLine) :
    (T.file label lines).entries
      = Table.put label (((T.get? label).getD .empty).insertAll (keyed lines)) T.entries :=
  rfl

/-- The table of the label afterwards. -/
theorem get?_file_self (T : Shelf) (label : String) (lines : List ImportLine) :
    (T.file label lines).get? label
      = some (((T.get? label).getD .empty).insertAll (keyed lines)) :=
  T.get?_insert_self _ _

/-- The tables of all other labels stay. -/
theorem get?_file_of_ne (T : Shelf) {label label' : String} (h : label ≠ label')
    (lines : List ImportLine) : (T.file label lines).get? label' = T.get? label' :=
  T.get?_insert_of_ne h _

/-- A label keeps its place, and a new one comes last. -/
theorem keys_file (T : Shelf) (label : String) (lines : List ImportLine) :
    (T.file label lines).keys = if label ∈ T.keys then T.keys else T.keys ++ [label] :=
  T.keys_insert _ _

/-- Lines that are filed already can be filed again without a change. -/
theorem file_eq_self {T : Shelf} {label : String} {t : Table String ImportLine}
    (h : T.get? label = some t) {lines : List ImportLine} (ht : t.insertAll (keyed lines) = t) :
    T.file label lines = T := by
  rw [file, Table.upsert, h, Option.getD_some, ht]
  exact Table.insert_of_get? h

/-- Filing opens a new label by itself, so opening it before makes no
difference. The arena opens it first. -/
theorem file_insert_empty {T : Shelf} {label : String} (h : T.get? label = none)
    (lines : List ImportLine) :
    Shelf.file (T.insert label .empty) label lines = T.file label lines := by
  have hnew := Table.get?_eq_none_iff.mp h
  have hopened : (T.insert label .empty).entries = T.entries ++ [(label, .empty)] :=
    Table.put_of_not_mem hnew
  refine Table.ext_entries ?_
  rw [entries_file, entries_file, T.get?_insert_self, h, hopened, Table.put_append_of_not_mem hnew,
    Table.put_of_not_mem hnew]
  simp [Table.put]

end Shelf

/-! ### The arena, header by header -/

namespace Headers

/-- The children of a header as noted in the arena. -/
def children (h : Headers) (id : Nat) : List Nat := (h.headers[id]?.map Header.children).getD []

/-- What the children of a header hold, by label. For a tidy arena this
is the shelf of the header. -/
def leaves (h : Headers) (id : Nat) : List (String × Table String ImportLine) :=
  (h.children id).map fun c => ((h.label? c).getD "", h.importsOf c)

/-- File lines below a header, in the child of a label. -/
def file (h : Headers) (parent : Nat) (label : String) (lines : List ImportLine) : Headers :=
  (h.child parent label).1.addImports (h.child parent label).2 lines

/-- Recording a line changes the lines of one header. -/
theorem getElem?_addImport (h : Headers) (id : Nat) (line : ImportLine) (i : Nat) :
    (h.addImport id line).headers[i]?
      = if id = i then
          h.headers[i]?.map fun p => { p with imports := p.imports.insert line.key line }
        else h.headers[i]? := by
  rw [addImport, List.getElem?_modify]
  split <;> simp

/-- Recording lines changes the lines of one header and nothing else. -/
theorem getElem?_addImports (h : Headers) (id : Nat) (lines : List ImportLine) (i : Nat) :
    (h.addImports id lines).headers[i]?
      = if id = i then
          h.headers[i]?.map fun p => { p with imports := p.imports.insertAll (keyed lines) }
        else h.headers[i]? := by
  -- One line at a time; the header is only ever mapped, so two maps compose.
  induction lines generalizing h with
  | nil =>
      show h.headers[i]? = _
      split
      · exact Option.map_id'.symm
      · rfl
  | cons line lines ih =>
      show ((h.addImport id line).addImports id lines).headers[i]? = _
      rw [ih, getElem?_addImport]
      split
      · rw [Option.map_map]
        rfl
      · rfl

/-- It makes no header. -/
theorem size_addImports (h : Headers) (id : Nat) (lines : List ImportLine) :
    (h.addImports id lines).size = h.size := by
  induction lines generalizing h with
  | nil => rfl
  | cons line lines ih =>
      show ((h.addImport id line).addImports id lines).size = _
      rw [ih, size, addImport, List.length_modify, size]

/-- It changes no label. -/
theorem label?_addImports (h : Headers) (id : Nat) (lines : List ImportLine) (i : Nat) :
    (h.addImports id lines).label? i = h.label? i := by
  rw [label?, label?, getElem?_addImports]
  split
  · rw [Option.map_map]
    rfl
  · rfl

/-- It changes no children. -/
theorem children_addImports (h : Headers) (id : Nat) (lines : List ImportLine) (i : Nat) :
    (h.addImports id lines).children i = h.children i := by
  rw [children, children, getElem?_addImports]
  split
  · rw [Option.map_map]
    rfl
  · rfl

/-- The header has the lines afterwards. -/
theorem importsOf_addImports_self (h : Headers) {id : Nat} (hid : id < h.size)
    (lines : List ImportLine) :
    (h.addImports id lines).importsOf id = (h.importsOf id).insertAll (keyed lines) := by
  rw [importsOf, importsOf, getElem?_addImports, if_pos rfl, List.getElem?_eq_getElem hid]
  rfl

/-- The other headers have the lines they had. -/
theorem importsOf_addImports_of_ne (h : Headers) {id i : Nat} (hne : id ≠ i)
    (lines : List ImportLine) : (h.addImports id lines).importsOf i = h.importsOf i := by
  rw [importsOf, importsOf, getElem?_addImports, if_neg hne]

/-- Recording lines in a header changes one table of one shelf: that of
the header, wherever it is a child. -/
theorem leaves_addImports (h : Headers) {c : Nat} (hc : c < h.size) (lines : List ImportLine)
    (id : Nat) :
    (h.addImports c lines).leaves id
      = (h.children id).map fun c' => ((h.label? c').getD "",
          if c' = c then (h.importsOf c').insertAll (keyed lines) else h.importsOf c') := by
  rw [leaves, children_addImports]
  refine List.map_congr_left fun c' hc' => ?_
  rw [label?_addImports]
  split
  · rename_i heq
    rw [heq, importsOf_addImports_self h hc]
  · rename_i hne
    rw [importsOf_addImports_of_ne h (fun heq => hne heq.symm)]

/-- A new root is the last header, and empty. -/
theorem getElem?_addRoot (h : Headers) (label : String) (i : Nat) :
    (h.addRoot label).1.headers[i]?
      = if i = h.size then some ⟨label, .empty, []⟩ else h.headers[i]? :=
  getElem?_concat h.headers _ i

/-- There is one header more. -/
theorem size_addRoot (h : Headers) (label : String) : (h.addRoot label).1.size = h.size + 1 := by
  simp [size, addRoot]

/-- The new root has no children, and the others keep theirs. -/
theorem children_addRoot (h : Headers) (label : String) (i : Nat) :
    (h.addRoot label).1.children i = h.children i := by
  rw [children, children, getElem?_addRoot]
  split
  · rename_i heq
    rw [List.getElem?_eq_none (by simp [heq, size])]
    rfl
  · rfl

/-- The new root has no lines, and the others keep theirs. -/
theorem importsOf_addRoot (h : Headers) (label : String) (i : Nat) :
    (h.addRoot label).1.importsOf i = h.importsOf i := by
  rw [importsOf, importsOf, getElem?_addRoot]
  split
  · rename_i heq
    rw [List.getElem?_eq_none (by simp [heq, size])]
    rfl
  · rfl

/-- The new root has its label, and the others keep theirs. -/
theorem label?_addRoot (h : Headers) (label : String) (i : Nat) :
    (h.addRoot label).1.label? i = if i = h.size then some label else h.label? i := by
  rw [label?, label?, getElem?_addRoot]
  split <;> rfl

/-- The shelf of a header that does not exist yet is empty. -/
theorem leaves_size (h : Headers) : h.leaves h.size = [] := by
  rw [leaves, children, List.getElem?_eq_none (by simp [size])]
  rfl

/-- So are its lines. -/
theorem importsOf_size (h : Headers) : h.importsOf h.size = .empty := by
  rw [importsOf, List.getElem?_eq_none (by simp [size])]
  rfl

/-- A new child: a new header, noted below its parent. -/
def addChild (h : Headers) (parent : Nat) (label : String) : Headers :=
  ⟨(h.addRoot label).1.headers.modify parent fun p => { p with children := p.children ++ [h.size] }⟩

/-- A child is found by its label, or it is made. -/
theorem child_eq (h : Headers) (parent : Nat) (label : String) :
    h.child parent label
      = match (h.childrenOf parent).find? fun c => h.label? c == some label with
        | some c => (h, c)
        | none => (h.addChild parent label, h.size) := rfl

/-- A new child is a new root that is noted in one other header. -/
theorem getElem?_addChild (h : Headers) (parent : Nat) (label : String) (i : Nat) :
    (h.addChild parent label).headers[i]?
      = if parent = i then
          (h.addRoot label).1.headers[i]?.map fun p => { p with children := p.children ++ [h.size] }
        else (h.addRoot label).1.headers[i]? := by
  rw [addChild, List.getElem?_modify]
  split <;> simp

/-- There is one header more. -/
theorem size_addChild (h : Headers) (parent : Nat) (label : String) :
    (h.addChild parent label).size = h.size + 1 := by
  rw [size, addChild, List.length_modify]
  exact h.size_addRoot label

/-- The new child has no lines, and the others keep theirs. -/
theorem importsOf_addChild (h : Headers) (parent : Nat) (label : String) (i : Nat) :
    (h.addChild parent label).importsOf i = h.importsOf i := by
  rw [← importsOf_addRoot h label, importsOf, importsOf, getElem?_addChild]
  split
  · rw [Option.map_map]
    rfl
  · rfl

/-- The new child has its label, and the others keep theirs. -/
theorem label?_addChild (h : Headers) (parent : Nat) (label : String) (i : Nat) :
    (h.addChild parent label).label? i = if i = h.size then some label else h.label? i := by
  rw [← label?_addRoot, label?, label?, getElem?_addChild]
  split
  · rw [Option.map_map]
    rfl
  · rfl

/-- The parent has one child more, at the end. -/
theorem children_addChild (h : Headers) {parent : Nat} (hparent : parent < h.size)
    (label : String) (i : Nat) :
    (h.addChild parent label).children i
      = if parent = i then h.children i ++ [h.size] else h.children i := by
  rw [← children_addRoot h label, children, children, getElem?_addChild]
  split
  · rename_i heq
    subst heq
    rw [List.getElem?_eq_getElem (show parent < (h.addRoot label).1.headers.length from by
      have := h.size_addRoot label
      rw [size] at this
      omega)]
    rfl
  · rfl

/-- A child that is noted afterwards was noted before, or it is the new
one below its parent. -/
theorem mem_children_addChild {h : Headers} {parent : Nat} (hparent : parent < h.size)
    {label : String} {id c : Nat} (hc : c ∈ (h.addChild parent label).children id) :
    c ∈ h.children id ∨ c = h.size ∧ id = parent := by
  rw [h.children_addChild hparent] at hc
  split at hc
  · rename_i heq
    rcases List.mem_append.mp hc with hmem | hlast
    · exact .inl hmem
    · exact .inr ⟨List.mem_singleton.mp hlast, heq.symm⟩
  · exact .inl hc

/-- A header that had one parent still does: the number of the new child
is not noted anywhere else. -/
theorem one_parent_addChild {h : Headers} {parent : Nat} (hparent : parent < h.size)
    (hlt : ∀ id, ∀ c ∈ h.children id, c < h.size)
    (hone : ∀ id id', ∀ c ∈ h.children id, c ∈ h.children id' → id = id') {label : String}
    (id id' c : Nat) (hc : c ∈ (h.addChild parent label).children id)
    (hc' : c ∈ (h.addChild parent label).children id') : id = id' := by
  have hnew : ∀ i, h.size ∉ h.children i := fun i hmem => Nat.lt_irrefl _ (hlt i _ hmem)
  rcases mem_children_addChild hparent hc with hin | ⟨rfl, rfl⟩
  · rcases mem_children_addChild hparent hc' with hin' | ⟨rfl, rfl⟩
    · exact hone id id' c hin hin'
    · exact absurd hin (hnew id)
  · rcases mem_children_addChild hparent hc' with hin' | ⟨-, rfl⟩
    · exact absurd hin' (hnew id')
    · rfl

/-! ### Walks -/

/-- Where children have numbers between their parent's and the size, all
noted children are true children. The definition of the walk leaves out
all others, so that it ends on every arena. -/
theorem childrenOf_eq_children {h : Headers} {id : Nat}
    (hlt : ∀ c ∈ h.children id, id < c ∧ c < h.size) : h.childrenOf id = h.children id := by
  rw [childrenOf, ← children, List.filter_eq_self]
  intro c hc
  obtain ⟨hparent, hsize⟩ := hlt c hc
  simp [hparent, hsize]

/-- A header comes first, then the walks of its children. -/
theorem subtree_eq_cons (h : Headers) (id : Nat) :
    h.subtree id = id :: (h.childrenOf id).flatMap h.subtree := by
  rw [subtree, List.flatMap_subtype (g := h.subtree) (fun _ _ => rfl), List.unattach_attach]

/-! ### Import sections -/

/-- The lines of a section, where each line was filed under its key. -/
theorem mem_flatten_iff_get?_merged {h : Headers} {id : Nat}
    (hkey : ∀ key line, (h.merged id).get? key = some line → line.key = key) {line : ImportLine} :
    line ∈ h.flatten id ↔ (h.merged id).get? line.key = some line := by
  rw [flatten, List.mem_mergeSort, Table.mem_values_iff]
  constructor
  · rintro ⟨key, hline⟩
    rw [hkey key line hline]
    exact hline
  · exact fun hline => ⟨line.key, hline⟩

/-- No two lines of a section make the same name visible. -/
theorem nodup_map_key_flatten_of_merged {h : Headers} {id : Nat}
    (hkey : ∀ key line, (h.merged id).get? key = some line → line.key = key) :
    ((h.flatten id).map ImportLine.key).Nodup := by
  have hkeys : (h.merged id).values.map ImportLine.key = (h.merged id).keys := by
    rw [Table.values, Table.keys, List.map_map]
    exact List.map_congr_left fun e he => hkey e.1 e.2 (Table.get?_of_mem_entries he)
  refine ((List.mergeSort_perm _ _).map ImportLine.key).nodup_iff.mpr ?_
  rw [hkeys]
  exact (h.merged id).nodup_keys

/-- Sections are in the order of their text. The order of strings is
total, so sorting puts them so. -/
theorem pairwise_flatten (h : Headers) (id : Nat) :
    (h.flatten id).Pairwise fun a b => ¬ b.render < a.render := by
  -- The sort asks for a total order; lines are compared by what they print.
  have htrans : ∀ a b c : ImportLine, (!decide (b.render < a.render)) = true
      → (!decide (c.render < b.render)) = true → (!decide (c.render < a.render)) = true := by
    intro a b c hab hbc
    simp only [Bool.not_eq_true', decide_eq_false_iff_not, String.not_lt] at hab hbc ⊢
    exact String.le_trans hab hbc
  have htotal : ∀ a b : ImportLine,
      ((!decide (b.render < a.render)) || !decide (a.render < b.render)) = true := by
    intro a b
    simp only [Bool.or_eq_true, Bool.not_eq_true', decide_eq_false_iff_not, String.not_lt]
    exact String.le_total _ _
  refine (List.pairwise_mergeSort htrans htotal (h.merged id).values).imp fun hle => ?_
  simpa using hle

/-- So are the texts of its lines. -/
theorem pairwise_written (h : Headers) (id : Nat) :
    ((h.flatten id).map ImportLine.written).Pairwise fun a b => ¬ b < a := by
  rw [List.pairwise_map]
  refine (h.pairwise_flatten id).imp fun {a b} hle => ?_
  rwa [← a.render_eq_written, ← b.render_eq_written]

/-- A section is written one line below the other, in the order of its
lines. -/
theorem render_eq_written (h : Headers) (id : Nat) :
    h.render id = "\n".intercalate ((h.flatten id).map ImportLine.written) := by
  rw [render]
  exact congrArg _ (List.map_congr_left fun line _ => line.render_eq_written)

/-- A section is empty exactly if it has no lines. No line is the empty
text. -/
theorem isEmpty_render (h : Headers) (id : Nat) :
    (h.render id).isEmpty = (h.flatten id).isEmpty := by
  rw [render_eq_written]
  cases h.flatten id with
  | nil => rfl
  | cons line lines =>
      -- The first line begins with a word of its own.
      rw [List.map_cons, ImportLine.written, String.intercalate_cons_append]
      simp

/-! ### Tidy arenas -/

/-- Every child hangs below one of the roots, and below one only. Roots
have no lines of their own, and siblings have different labels. -/
structure Tidy (h : Headers) (roots : List Nat) : Prop where
  nodup_roots : roots.Nodup
  root_lt : ∀ r ∈ roots, r < h.size
  own_empty : ∀ r ∈ roots, h.importsOf r = .empty
  child_mem : ∀ id, ∀ c ∈ h.children id, id ∈ roots ∧ id < c ∧ c < h.size ∧ c ∉ roots
  one_parent : ∀ id id', ∀ c ∈ h.children id, c ∈ h.children id' → id = id'
  nodup_labels : ∀ id, ((h.leaves id).map Prod.fst).Nodup

/-- The empty arena is tidy. -/
theorem tidy_empty : Tidy {} [] where
  nodup_roots := List.Pairwise.nil
  root_lt := nofun
  own_empty := nofun
  child_mem := nofun
  one_parent := nofun
  nodup_labels := fun _ => List.Pairwise.nil

namespace Tidy

variable {h : Headers} {roots : List Nat}

/-- The arena lists only true children. -/
theorem childrenOf_eq (ht : h.Tidy roots) (id : Nat) : h.childrenOf id = h.children id :=
  childrenOf_eq_children fun c hc => ⟨(ht.child_mem id c hc).2.1, (ht.child_mem id c hc).2.2.1⟩

/-- Children have no children: only roots do. -/
theorem children_of_child (ht : h.Tidy roots) {id c : Nat} (hc : c ∈ h.children id) :
    h.children c = [] := by
  rw [List.eq_nil_iff_forall_not_mem]
  intro d hd
  exact (ht.child_mem id c hc).2.2.2 (ht.child_mem c d hd).1

/-- A tidy arena is two levels deep, so the walk from a header is the
header and its children. -/
theorem subtree_eq (ht : h.Tidy roots) (id : Nat) : h.subtree id = id :: h.children id := by
  have hleaf : ∀ c ∈ h.children id, h.subtree c = [c] := by
    intro c hc
    rw [subtree]
    simp [ht.childrenOf_eq, ht.children_of_child hc]
  rw [subtree_eq_cons, ht.childrenOf_eq, List.flatMap_def, List.map_congr_left hleaf,
    ← List.flatMap_def, List.flatMap_singleton']

/-- A look-up reads the shelf of a root. -/
theorem lookup_eq (ht : h.Tidy roots) {r : Nat} (hr : r ∈ roots) {T : Shelf}
    (hT : h.leaves r = T.entries) (key : String) : h.lookup r key = T.lookup key := by
  rw [lookup, ht.subtree_eq, List.findSome?_cons, ht.own_empty r hr, Table.get?_empty, Shelf.lookup,
    ← hT, leaves, List.findSome?_map]
  rfl

/-- Merging reads the shelf of a root. -/
theorem merged_eq (ht : h.Tidy roots) {r : Nat} (hr : r ∈ roots) {T : Shelf}
    (hT : h.leaves r = T.entries) : h.merged r = T.merged := by
  rw [merged, ht.subtree_eq, List.foldl_cons, ht.own_empty r hr, Shelf.merged, ← hT, leaves,
    List.foldl_map]
  rfl

/-! ### Growth -/

/-- A new root leaves all shelves alone. -/
theorem leaves_addRoot (ht : h.Tidy roots) (label : String) (id : Nat) :
    (h.addRoot label).1.leaves id = h.leaves id := by
  rw [leaves, leaves, children_addRoot]
  refine List.map_congr_left fun c hc => ?_
  rw [label?_addRoot, if_neg (Nat.ne_of_lt (ht.child_mem id c hc).2.2.1), importsOf_addRoot]

/-- A new root keeps the arena tidy. -/
theorem addRoot (ht : h.Tidy roots) (label : String) :
    (h.addRoot label).1.Tidy (roots ++ [h.size]) where
  -- The new root's number is the old size, which no root and no child has yet.
  nodup_roots := List.nodup_append.mpr ⟨ht.nodup_roots, by simp, by
    rintro a ha b hb rfl
    rw [List.mem_singleton.mp hb] at ha
    exact Nat.lt_irrefl _ (ht.root_lt _ ha)⟩
  root_lt := fun r hr => by
    rw [size_addRoot]
    rcases List.mem_append.mp hr with hold | hlast
    · exact Nat.lt_succ_of_lt (ht.root_lt r hold)
    · rw [List.mem_singleton.mp hlast]
      exact Nat.lt_succ_self _
  own_empty := fun r hr => by
    rw [importsOf_addRoot]
    rcases List.mem_append.mp hr with hold | hlast
    · exact ht.own_empty r hold
    · rw [List.mem_singleton.mp hlast, importsOf_size]
  child_mem := fun id c hc => by
    rw [children_addRoot] at hc
    obtain ⟨hroot, hlt, hsize, hnot⟩ := ht.child_mem id c hc
    refine ⟨List.mem_append_left _ hroot, hlt, ?_, ?_⟩
    · rw [size_addRoot]
      exact Nat.lt_succ_of_lt hsize
    · rw [List.mem_append, List.mem_singleton]
      rintro (hmem | rfl)
      · exact hnot hmem
      · exact Nat.lt_irrefl _ hsize
  one_parent := fun id id' c hc hc' => by
    rw [children_addRoot] at hc hc'
    exact ht.one_parent id id' c hc hc'
  nodup_labels := fun id => by
    rw [ht.leaves_addRoot]
    exact ht.nodup_labels id

/-- A new child adds an empty table to the shelf of its parent. -/
theorem leaves_addChild (ht : h.Tidy roots) {r : Nat} (hr : r ∈ roots) (label : String)
    (id : Nat) :
    (h.addChild r label).leaves id
      = if r = id then h.leaves id ++ [(label, .empty)] else h.leaves id := by
  -- The new number is above all others, so the children there were keep their labels.
  have hold : (h.children id).map
        (fun c => (((h.addChild r label).label? c).getD "", (h.addChild r label).importsOf c))
      = h.leaves id := by
    refine List.map_congr_left fun c hc => ?_
    rw [label?_addChild, if_neg (Nat.ne_of_lt (ht.child_mem id c hc).2.2.1), importsOf_addChild]
  rw [leaves, h.children_addChild (ht.root_lt r hr)]
  split
  · rw [List.map_append, hold, List.map_singleton, label?_addChild, if_pos rfl,
      importsOf_addChild, importsOf_size]
    rfl
  · exact hold

/-- A new child of a root keeps the arena tidy if its label is new. -/
theorem addChild (ht : h.Tidy roots) {r : Nat} (hr : r ∈ roots) {label : String}
    (hlabel : label ∉ (h.leaves r).map Prod.fst) : (h.addChild r label).Tidy roots where
  nodup_roots := ht.nodup_roots
  root_lt := fun r' hr' => by
    rw [size_addChild]
    exact Nat.lt_succ_of_lt (ht.root_lt r' hr')
  own_empty := fun r' hr' => by
    rw [importsOf_addChild]
    exact ht.own_empty r' hr'
  -- A child is an old one or the one just added, whose number is the old size.
  child_mem := fun id c hc => by
    rw [size_addChild]
    rcases mem_children_addChild (ht.root_lt _ hr) hc with hin | ⟨rfl, rfl⟩
    · obtain ⟨hroot, hid, hsize, hnot⟩ := ht.child_mem id c hin
      exact ⟨hroot, hid, Nat.lt_succ_of_lt hsize, hnot⟩
    · exact ⟨hr, ht.root_lt _ hr, Nat.lt_succ_self _,
        fun hmem => Nat.lt_irrefl _ (ht.root_lt _ hmem)⟩
  one_parent := one_parent_addChild (ht.root_lt r hr)
    (fun id c hc => (ht.child_mem id c hc).2.2.1) ht.one_parent
  -- Only the parent's leaves grow, by a label that none of them has.
  nodup_labels := fun id => by
    rw [ht.leaves_addChild hr]
    split
    · rename_i heq
      subst heq
      rw [List.map_append]
      exact List.nodup_append.mpr ⟨ht.nodup_labels r, by simp, by
        rintro a ha b hb rfl
        rw [List.mem_singleton.mp hb] at ha
        exact hlabel ha⟩
    · exact ht.nodup_labels id

/-- Recording lines in a child of a root keeps the arena tidy. -/
theorem addImports (ht : h.Tidy roots) {r c : Nat} (hc : c ∈ h.children r)
    (lines : List ImportLine) : (h.addImports c lines).Tidy roots where
  nodup_roots := ht.nodup_roots
  root_lt := fun r' hr' => by
    rw [size_addImports]
    exact ht.root_lt r' hr'
  -- The lines go to a child, and no child is a root.
  own_empty := fun r' hr' => by
    rw [importsOf_addImports_of_ne h (by rintro rfl; exact (ht.child_mem r _ hc).2.2.2 hr')]
    exact ht.own_empty r' hr'
  child_mem := fun id c' hc' => by
    rw [children_addImports] at hc'
    rw [size_addImports]
    exact ht.child_mem id c' hc'
  one_parent := fun id id' c' hc' hc'' => by
    rw [children_addImports] at hc' hc''
    exact ht.one_parent id id' c' hc' hc''
  -- The lines of a leaf change, its label does not.
  nodup_labels := fun id => by
    have hlabels := ht.nodup_labels id
    rw [leaves, List.map_map] at hlabels
    rw [leaves_addImports h (ht.child_mem r c hc).2.2.1, List.map_map]
    exact hlabels

/-- Recording lines in a child files them under its label. -/
theorem leaves_addImports_child (ht : h.Tidy roots) {r c : Nat} (hc : c ∈ h.children r) {T : Shelf}
    (hT : h.leaves r = T.entries) {label : String} (hlabel : h.label? c = some label)
    (lines : List ImportLine) :
    (h.addImports c lines).leaves r = (T.file label lines).entries
      ∧ ∀ r', r' ≠ r → (h.addImports c lines).leaves r' = h.leaves r' := by
  have hleaves := leaves_addImports h (ht.child_mem r c hc).2.2.1 lines
  constructor
  · have hget : T.get? label = some (h.importsOf c) := by
      refine Table.get?_of_mem_entries ?_
      rw [← hT]
      refine List.mem_map.mpr ⟨c, hc, ?_⟩
      rw [hlabel]
      rfl
    -- The shelf is the list of children with their labels, which differ, so one of its tables
    -- changes.
    have hput := Table.put_map (fun c' => ((h.label? c').getD "", h.importsOf c')) hc
      (ht.nodup_labels r) ((h.importsOf c).insertAll (keyed lines))
    rw [hleaves, Shelf.entries_file, hget, ← hT, Option.getD_some, leaves]
    simp only [hlabel, Option.getD_some] at hput
    rw [hput]
    refine List.map_congr_left fun c' _ => ?_
    split
    · rename_i heq
      rw [heq, hlabel, Option.getD_some]
    · rfl
  · intro r' hne
    rw [hleaves]
    refine List.map_congr_left fun c' hc' => ?_
    rw [if_neg]
    rintro rfl
    exact hne (ht.one_parent r' r c' hc' hc)

/-- A label that no child has is not on the shelf. -/
theorem not_mem_leaves (ht : h.Tidy roots) {r : Nat} {label : String}
    (hfind : (h.children r).find? (fun c => h.label? c == some label) = none) :
    label ∉ (h.leaves r).map Prod.fst := by
  rw [leaves, List.map_map, List.mem_map]
  rintro ⟨c, hc, hlabel⟩
  rw [List.find?_eq_none] at hfind
  refine hfind c hc ?_
  have hlt := (ht.child_mem r c hc).2.2.1
  simp only [Function.comp_apply, label?, List.getElem?_eq_getElem hlt, Option.map_some,
    Option.getD_some] at hlabel
  simp [label?, List.getElem?_eq_getElem hlt, hlabel]

/-- Filing lines below a root keeps the arena tidy, files them on the
shelf of that root, and leaves the other shelves alone. -/
theorem file (ht : h.Tidy roots) {r : Nat} (hr : r ∈ roots) {T : Shelf}
    (hT : h.leaves r = T.entries) (label : String) (lines : List ImportLine) :
    (h.file r label lines).Tidy roots
      ∧ (h.file r label lines).leaves r = (T.file label lines).entries
      ∧ ∀ r', r' ≠ r → (h.file r label lines).leaves r' = h.leaves r' := by
  rw [Headers.file, child_eq, ht.childrenOf_eq]
  cases hfind : (h.children r).find? fun c => h.label? c == some label with
  | some c =>
      have hc := List.mem_of_find?_eq_some hfind
      have hlabel : h.label? c = some label := by simpa using List.find?_some hfind
      exact ⟨ht.addImports hc lines, ht.leaves_addImports_child hc hT hlabel lines⟩
  | none =>
      have hnew := ht.not_mem_leaves hfind
      have htidy := ht.addChild hr hnew
      have hmem : h.size ∈ (h.addChild r label).children r := by
        rw [children_addChild h (ht.root_lt r hr), if_pos rfl]
        exact List.mem_append_right _ (.head _)
      -- The new child is an empty table at the end of the shelf, which filing would open too.
      have hopened : (h.addChild r label).leaves r = (T.insert label .empty).entries := by
        rw [ht.leaves_addChild hr, if_pos rfl, hT]
        rw [hT] at hnew
        exact (Table.put_of_not_mem hnew).symm
      have hget : T.get? label = none := by
        rw [Table.get?_eq_none_iff, Table.keys, ← hT]
        exact hnew
      obtain ⟨hfiled, hothers⟩ := htidy.leaves_addImports_child hmem hopened
        (by rw [label?_addChild, if_pos rfl]) lines
      refine ⟨htidy.addImports hmem lines, ?_, fun r' hne => ?_⟩
      · rw [hfiled, Shelf.file_insert_empty hget]
      · rw [hothers r' hne, ht.leaves_addChild hr, if_neg (fun heq => hne heq.symm)]

end Tidy

end Headers

end Externals
