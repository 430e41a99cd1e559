import Externals.Proofs.Project.Fusion

/-!
# `Externals.Proofs.Project.Refusion`: fusing a scope a second time

The first fusion of a scope starts from a shelf with the imports of its
declarations only, and leaves a label for every class it spliced into.
A second fusion starts from that final shelf. At each turn it sees the
line that the first one saw, if there was one, and otherwise whatever
the first fusion recorded later on (`Abreast.lookup`).

So the second fusion finds what the first one found exactly if every
base without a record stands for the same interface once the final
shelf is consulted for it (`StableOn`). In that case it files the lines
that are there and ends with the shelf it started from.

* `Abreast.splice`: a task at which both fusions find the same.
* `refuse_pair`: the tasks of one class. The induction carries the
  relation `Abreast` between the shelves of both fusions.
* `refuse_shelf`: all classes of a scope.
-/

set_option autoImplicit false

namespace Externals

/-! ### Shelves with one label at work -/

/-- The part of a shelf that one label takes: one entry, or nothing as
long as the label was not used. -/
def leafOf (label : String) :
    Option (Table String ImportLine) → List (String × Table String ImportLine)
  | none => []
  | some t => [(label, t)]

/-- It tells what is under the label. -/
theorem leafOf_injective {label : String} {l l' : Option (Table String ImportLine)}
    (h : leafOf label l = leafOf label l') : l = l' := by
  cases l <;> cases l' <;> simp_all [leafOf]

namespace Shelf

/-- The first line of a name in a list of labelled tables. -/
def firstLine (es : List (String × Table String ImportLine)) (key : String) : Option ImportLine :=
  es.findSome? fun e => e.2.get? key

/-- What comes in front is asked first. -/
theorem firstLine_append (es fs : List (String × Table String ImportLine)) (key : String) :
    firstLine (es ++ fs) key = (firstLine es key).or (firstLine fs key) :=
  List.findSome?_append

/-- The line of a name under one label. -/
theorem firstLine_leafOf (label : String) (l : Option (Table String ImportLine)) (key : String) :
    firstLine (leafOf label l) key = l.bind fun t => t.get? key := by
  cases l with
  | none => rfl
  | some t =>
      rw [leafOf, firstLine, List.findSome?_cons, Option.bind_some]
      cases t.get? key <;> rfl

/-- A shelf is looked up from its first label on. -/
theorem lookup_eq (T : Shelf) (key : String) : T.lookup key = firstLine T.entries key := rfl

section

variable {T : Shelf} {label : String} {X R : List (String × Table String ImportLine)}
  {l : Option (Table String ImportLine)}

/-- What is under the label at work, wherever it stands. If it is not
there, nothing may stand behind it, as a new label comes last. -/
theorem get?_leafOf (hT : T.entries = X ++ leafOf label l ++ R) (hX : label ∉ X.map Prod.fst)
    (hR : l = none → R = []) : T.get? label = l := by
  -- The leaf is missing only while nothing stands behind it.
  cases l with
  | none =>
      rw [hR rfl, leafOf, List.append_nil, List.append_nil] at hT
      rw [Table.get?_eq_none_iff, Table.keys, hT]
      exact hX
  | some t =>
      refine Table.get?_of_mem_entries ?_
      rw [hT]
      simp [leafOf]

/-- Filing under the label at work changes only its part. The rest
stands behind it once the label is there. -/
theorem entries_file_leafOf (hT : T.entries = X ++ leafOf label l ++ R)
    (hX : label ∉ X.map Prod.fst) (hR : l = none → R = []) (lines : List ImportLine) :
    (T.file label lines).entries
      = X ++ leafOf label (some ((l.getD .empty).insertAll (keyed lines))) ++ R := by
  rw [entries_file, get?_leafOf hT hX hR, hT, List.append_assoc, List.append_assoc,
    Table.put_append_of_not_mem hX]
  cases l with
  | none =>
      rw [hR rfl]
      rfl
  | some t => simp [leafOf, Table.put]

/-- The same for the last label, which may be new. -/
theorem entries_file_last (hT : T.entries = X ++ leafOf label l) (hX : label ∉ X.map Prod.fst)
    (lines : List ImportLine) :
    (T.file label lines).entries
      = X ++ leafOf label (some ((l.getD .empty).insertAll (keyed lines))) := by
  have hfile := entries_file_leafOf (R := []) (by rw [hT, List.append_nil]) hX (fun _ => rfl) lines
  rwa [List.append_nil] at hfile

end

end Shelf

namespace SymbolIndex

variable (ix : SymbolIndex)

/-- A base without a record stands for the same interface when the final
shelf is consulted. Nothing is asked of a base with a record: the second
fusion sees that record again. -/
def StableOn (Tend : Shelf) (rs : List (Option ImportLine × FusionTask)) : Prop :=
  ∀ r ∈ rs, r.1 = none → ix.baseAt r.2 (Tend.lookup r.2.base) = ix.baseAt r.2 none

/-- A task that finds nothing leaves the shelf alone. -/
theorem spliceShelf_of_none {T : Shelf} {t : FusionTask}
    (h : ix.baseAt t (T.lookup t.base) = none) : ix.spliceShelf T t = T := by
  rw [spliceShelf, h]

/-- A task that finds an interface files the imports of its members. -/
theorem spliceShelf_of_some {T : Shelf} {t : FusionTask} {b : Nat × InterfaceDecl}
    (h : ix.baseAt t (T.lookup t.base) = some b) :
    ix.spliceShelf T t = T.file (fuseLabel t.name) (ix.spliceDraft t b).imports := by
  rw [spliceShelf, h]

/-- A label keeps its names during fusion. What they are bound to may
change, but none is dropped. -/
theorem get?_splicedShelf_mono {T : Shelf} {label : String} {t : Table String ImportLine}
    (h : T.get? label = some t) (ts : List FusionTask) :
    ∃ e, (ix.splicedShelf T ts).get? label = some e ∧ ∀ k ∈ t.keys, k ∈ e.keys := by
  induction ts generalizing T t with
  | nil => exact ⟨t, h, fun _ => id⟩
  | cons task ts ih =>
      -- One task either leaves the label alone or inserts into it.
      have hstep : ∃ t', (ix.spliceShelf T task).get? label = some t'
          ∧ ∀ k ∈ t.keys, k ∈ t'.keys := by
        cases hb : ix.baseAt task (T.lookup task.base) with
        | none =>
            rw [ix.spliceShelf_of_none hb]
            exact ⟨t, h, fun _ => id⟩
        | some b =>
            rw [ix.spliceShelf_of_some hb]
            by_cases hl : fuseLabel task.name = label
            · rw [hl, T.get?_file_self, h]
              exact ⟨_, rfl, fun k hk => Table.mem_keys_insertAll.mpr (.inl hk)⟩
            · rw [T.get?_file_of_ne hl]
              exact ⟨t, h, fun _ => id⟩
      obtain ⟨t', ht', hkeys⟩ := hstep
      obtain ⟨e, he, hmore⟩ := ih ht'
      exact ⟨e, he, fun k hk => hmore k (hkeys k hk)⟩

/-- Fusion leaves the labels of declarations alone, since it uses
others. -/
theorem get?_splicedShelf_label (key : DeclKey) (ts : List FusionTask)
    (T : Shelf) : (ix.splicedShelf T ts).get? key.label = T.get? key.label := by
  induction ts generalizing T with
  | nil => rfl
  | cons t ts ih =>
      refine (ih (ix.spliceShelf T t)).trans ?_
      -- A task files under a class's fusion label, which is no label of a declaration.
      cases hb : ix.baseAt t (T.lookup t.base) with
      | none => rw [ix.spliceShelf_of_none hb]
      | some b =>
          rw [ix.spliceShelf_of_some hb,
            T.get?_file_of_ne (Ne.symm (key.label_ne_fuseLabel t.name))]

/-- Tasks of one class touch only its label, which is the last one while
they are performed. -/
theorem entries_splicedShelf_pair {name : String} {ts : List FusionTask}
    (hts : ∀ t ∈ ts, t.name = name) {X : List (String × Table String ImportLine)}
    (hX : fuseLabel name ∉ X.map Prod.fst) {T : Shelf} {l : Option (Table String ImportLine)}
    (hT : T.entries = X ++ leafOf (fuseLabel name) l) :
    ∃ l', (ix.splicedShelf T ts).entries = X ++ leafOf (fuseLabel name) l' := by
  induction ts generalizing T l with
  | nil => exact ⟨l, hT⟩
  | cons t ts ih =>
      have htail := fun t' ht' => hts t' (List.mem_cons_of_mem _ ht')
      -- A task without a base files nothing; one with a base files at the class's own leaf,
      -- which stays the last.
      cases hb : ix.baseAt t (T.lookup t.base) with
      | none =>
          show ∃ l', (ix.splicedShelf (ix.spliceShelf T t) ts).entries = _
          rw [ix.spliceShelf_of_none hb]
          exact ih htail hT
      | some b =>
          show ∃ l', (ix.splicedShelf (ix.spliceShelf T t) ts).entries = _
          rw [ix.spliceShelf_of_some hb, hts t (.head _)]
          exact ih htail (Shelf.entries_file_last hT hX _)

/-- The labels of other classes stay new, as classes of different names
have different labels. -/
theorem fuseLabel_not_mem_keys {S T : Shelf} {name other : String}
    {l : Option (Table String ImportLine)}
    (hS : S.entries = T.entries ++ leafOf (fuseLabel name) l) (hne : other ≠ name)
    (hfresh : fuseLabel other ∉ T.keys) : fuseLabel other ∉ S.keys := by
  intro hmem
  rw [Table.keys, hS, List.map_append, List.mem_append] at hmem
  -- Another class's label is not among the old ones, and it is not the one just filed.
  rcases hmem with hold | hnew
  · exact hfresh hold
  · cases l with
    | none => cases hnew
    | some t =>
        rw [leafOf, List.map_singleton, List.mem_singleton] at hnew
        exact hne (fuseLabel_injective hnew)

/-- Tasks of classes whose labels are new only add labels. So the shelf
before them is a front part of the final one. -/
theorem entries_splicedShelf_pairs (scope : Nat) {pairs : List (String × List String)}
    (hnames : (pairs.map Prod.fst).Nodup) {T : Shelf}
    (hfresh : ∀ name ∈ pairs.map Prod.fst, fuseLabel name ∉ T.keys) :
    ∃ R, (ix.splicedShelf T (tasksFor scope pairs)).entries = T.entries ++ R := by
  induction pairs generalizing T with
  | nil => exact ⟨[], (List.append_nil _).symm⟩
  | cons pair pairs ih =>
      rw [List.map_cons, List.nodup_cons] at hnames
      rw [tasksFor, List.flatMap_cons, splicedShelf_append, ← tasksFor]
      have hus := name_of_mem_tasks scope pair.1 pair.2
      -- The first class files one leaf at the end, the others file theirs behind it.
      obtain ⟨l, hl⟩ := ix.entries_splicedShelf_pair hus (hfresh pair.1 (.head _)) (T := T)
        (l := none) (List.append_nil _).symm
      obtain ⟨R, hR⟩ := ih hnames.2 fun name hname =>
        fuseLabel_not_mem_keys hl (fun heq => hnames.1 (heq ▸ hname)) (hfresh name (.tail _ hname))
      exact ⟨leafOf (fuseLabel pair.1) l ++ R, by rw [hR, hl, List.append_assoc]⟩

/-! ### One class -/

/-- The label of a class in a second fusion: all names of the final
label, with the value of the first fusion where it has one already. The
second fusion starts with the final values and overwrites them in the
order of the first. -/
structure Over (first final second : Option (Table String ImportLine)) : Prop where
  absent : final = none → first = none ∧ second = none
  present : ∀ e, final = some e → ∃ u, second = some u ∧ u.keys = e.keys
    ∧ ∀ k, u.get? k = (first.bind fun t => t.get? k).or (e.get? k)

/-- What the second fusion sees under the label. -/
theorem Over.get? {first final second : Option (Table String ImportLine)}
    (h : Over first final second) (k : String) :
    (second.bind fun t => t.get? k)
      = (first.bind fun t => t.get? k).or (final.bind fun t => t.get? k) := by
  cases final with
  | none =>
      obtain ⟨hfirst, hsecond⟩ := h.absent rfl
      rw [hfirst, hsecond]
      rfl
  | some e =>
      obtain ⟨u, hu, -, hget⟩ := h.present e rfl
      rw [hu, Option.bind_some, hget, Option.bind_some]

/-- At the end of the first fusion nothing is left to add: the label has
the final names with the final values, in the final order. -/
theorem Over.eq_final {final second : Option (Table String ImportLine)}
    (h : Over final final second) : second = final := by
  cases final with
  | none => exact (h.absent rfl).2
  | some e =>
      obtain ⟨u, hu, hkeys, hget⟩ := h.present e rfl
      rw [hu]
      refine congrArg some (Table.ext_get? hkeys fun k => ?_)
      rw [hget, Option.bind_some, Option.or_self]

/-- Both fusions file the same lines. The names are there already in the
second one, so only values change. -/
theorem Over.file {first second : Option (Table String ImportLine)} {e : Table String ImportLine}
    (h : Over first (some e) second) {lines : List ImportLine}
    (hkeys : ∀ k ∈ ((first.getD .empty).insertAll (keyed lines)).keys, k ∈ e.keys) :
    Over (some ((first.getD .empty).insertAll (keyed lines))) (some e)
      (some ((second.getD .empty).insertAll (keyed lines))) := by
  obtain ⟨u, hu, hukeys, hget⟩ := h.present e rfl
  refine ⟨nofun, fun e' he' => ?_⟩
  cases he'
  -- The second run inserts lines whose keys the leaf has, so the keys keep their order and
  -- only the values can change.
  refine ⟨_, rfl, ?_, fun k => ?_⟩
  · rw [hu, Option.getD_some, ← hukeys]
    refine Table.keys_insertAll_of_subset fun k hk => ?_
    rw [hukeys]
    exact hkeys k (Table.mem_keys_insertAll.mpr (.inr hk))
  · rw [hu, Option.getD_some, Table.get?_insertAll, hget, Option.bind_some, Table.get?_insertAll,
      Option.or_assoc]
    cases first <;> rfl

/-- Where the two fusions of one class stand between two of its tasks.
Both shelves begin with `X` and the label of the class. On the second
one the labels `R` that came later follow. -/
structure Abreast (label : String) (X R : List (String × Table String ImportLine))
    (final l₁ l₂ : Option (Table String ImportLine)) (T₁ T₂ : Shelf) : Prop where
  first : T₁.entries = X ++ leafOf label l₁
  second : T₂.entries = X ++ leafOf label l₂ ++ R
  labels : Over l₁ final l₂

namespace Abreast

section

variable {label : String} {X R : List (String × Table String ImportLine)}
  {final l₁ l₂ : Option (Table String ImportLine)} {T₁ T₂ Tend : Shelf}

/-- The second fusion sees the line of the first one, or else the final
line. In front of the label and under it the two agree where the first
has a line, and what is behind came later. -/
theorem lookup (h : Abreast label X R final l₁ l₂ T₁ T₂)
    (hE : Tend.entries = X ++ leafOf label final ++ R) (key : String) :
    T₂.lookup key = (T₁.lookup key).or (Tend.lookup key) := by
  simp only [Shelf.lookup_eq, h.first, h.second, hE, Shelf.firstLine_append,
    Shelf.firstLine_leafOf, h.labels.get? key]
  cases Shelf.firstLine X key with
  | some line => rfl
  | none => simp [Option.or_assoc]

/-- Once the first fusion is through, the second one has the final
shelf. -/
theorem eq_final (h : Abreast label X R final l₁ l₂ T₁ T₂)
    (hE : Tend.entries = X ++ leafOf label final ++ R)
    (hdone : T₁.entries = X ++ leafOf label final) : T₂ = Tend := by
  have hleaf : leafOf label l₁ = leafOf label final :=
    List.append_cancel_left (h.first.symm.trans hdone)
  have hl : l₁ = final := leafOf_injective hleaf
  have hover := h.labels
  rw [hl] at hover
  refine Table.ext_entries ?_
  rw [h.second, hE, hover.eq_final]

end

/-- A task at which both fusions find the same keeps them abreast: they
file the same lines, or none. -/
theorem splice {ix : SymbolIndex} {name : String} {X R : List (String × Table String ImportLine)}
    {final l₁ l₂ : Option (Table String ImportLine)} {T₁ T₂ : Shelf}
    (h : Abreast (fuseLabel name) X R final l₁ l₂ T₁ T₂) (hX : fuseLabel name ∉ X.map Prod.fst)
    {t : FusionTask} (hname : t.name = name) {ts : List FusionTask}
    (hrun : (ix.splicedShelf (ix.spliceShelf T₁ t) ts).entries
      = X ++ leafOf (fuseLabel name) final)
    (hsame : ix.baseAt t (T₂.lookup t.base) = ix.baseAt t (T₁.lookup t.base)) :
    ∃ l₁' l₂', Abreast (fuseLabel name) X R final l₁' l₂' (ix.spliceShelf T₁ t)
      (ix.spliceShelf T₂ t) := by
  cases hb : ix.baseAt t (T₁.lookup t.base) with
  | none =>
      rw [ix.spliceShelf_of_none hb, ix.spliceShelf_of_none (hsame.trans hb)]
      exact ⟨l₁, l₂, h⟩
  | some b =>
      rw [ix.spliceShelf_of_some hb, hname] at hrun ⊢
      rw [ix.spliceShelf_of_some (hsame.trans hb), hname]
      have hfirst := Shelf.entries_file_last h.first hX (ix.spliceDraft t b).imports
      -- The label exists from now on, and keeps the names filed here to the end.
      obtain ⟨e, he, hkeys⟩ := ix.get?_splicedShelf_mono
        (Shelf.get?_leafOf (by rw [hfirst, List.append_nil]) hX fun _ => rfl) ts
      rw [Shelf.get?_leafOf (by rw [hrun, List.append_nil]) hX fun _ => rfl] at he
      subst he
      refine ⟨_, _, hfirst, Shelf.entries_file_leafOf h.second hX (fun hnone => ?_) _,
        h.labels.file hkeys⟩
      obtain ⟨u, hu, -⟩ := h.labels.present e rfl
      rw [hu] at hnone
      cases hnone

end Abreast

/-- A turn of the second fusion finds what the first one found exactly
if it did so with a record, or the final shelf changes nothing. -/
theorem baseAt_or_eq_iff (t : FusionTask) (record final : Option ImportLine) :
    ix.baseAt t (record.or final) = ix.baseAt t record
      ↔ (record = none → ix.baseAt t final = ix.baseAt t none) := by
  cases record with
  | some line => simp
  | none => simp

/-- The tasks of one class, a second time. The final shelf has the label
of the class behind `X` and further labels `R` behind that. As long as
both fusions find the same they stay abreast, so the first difference is
at a base without a record. -/
theorem refuse_pair {name : String} {X R : List (String × Table String ImportLine)}
    (hX : fuseLabel name ∉ X.map Prod.fst) {Tend : Shelf}
    {final : Option (Table String ImportLine)}
    (hE : Tend.entries = X ++ leafOf (fuseLabel name) final ++ R) {ts : List FusionTask}
    (hts : ∀ t ∈ ts, t.name = name) {l₁ l₂ : Option (Table String ImportLine)} {T₁ T₂ : Shelf}
    (h : Abreast (fuseLabel name) X R final l₁ l₂ T₁ T₂)
    (hrun : (ix.splicedShelf T₁ ts).entries = X ++ leafOf (fuseLabel name) final) :
    ((ix.shelfRecords T₂ ts).map ix.finding = (ix.shelfRecords T₁ ts).map ix.finding
        ↔ ix.StableOn Tend (ix.shelfRecords T₁ ts))
      ∧ ((ix.shelfRecords T₂ ts).map ix.finding = (ix.shelfRecords T₁ ts).map ix.finding →
          ix.splicedShelf T₂ ts = Tend) := by
  induction ts generalizing T₁ T₂ l₁ l₂ with
  | nil => exact ⟨⟨fun _ => nofun, fun _ => rfl⟩, fun _ => h.eq_final hE hrun⟩
  | cons t ts ih =>
      replace hrun : (ix.splicedShelf (ix.spliceShelf T₁ t) ts).entries
          = X ++ leafOf (fuseLabel name) final := hrun
      -- The fusions stay abreast only as long as they find the same, so the tail is
      -- compared after the head.
      have htail : ix.baseAt t (T₂.lookup t.base) = ix.baseAt t (T₁.lookup t.base) →
          ((ix.shelfRecords (ix.spliceShelf T₂ t) ts).map ix.finding
              = (ix.shelfRecords (ix.spliceShelf T₁ t) ts).map ix.finding
            ↔ ix.StableOn Tend (ix.shelfRecords (ix.spliceShelf T₁ t) ts))
          ∧ ((ix.shelfRecords (ix.spliceShelf T₂ t) ts).map ix.finding
              = (ix.shelfRecords (ix.spliceShelf T₁ t) ts).map ix.finding →
            ix.splicedShelf (ix.spliceShelf T₂ t) ts = Tend) := by
        intro hsame
        obtain ⟨l₁', l₂', hnext⟩ := h.splice hX (hts t (.head _)) hrun hsame
        exact ih (fun t' ht' => hts t' (.tail _ ht')) hnext hrun
      have hhead : ix.baseAt t (T₂.lookup t.base) = ix.baseAt t (T₁.lookup t.base)
          ↔ (T₁.lookup t.base = none →
              ix.baseAt t (Tend.lookup t.base) = ix.baseAt t none) := by
        rw [h.lookup hE]
        exact ix.baseAt_or_eq_iff t _ _
      have hfound : ix.finding (T₂.lookup t.base, t) = ix.finding (T₁.lookup t.base, t)
          ↔ ix.baseAt t (T₂.lookup t.base) = ix.baseAt t (T₁.lookup t.base) := by
        simp [finding]
      rw [shelfRecords, shelfRecords, List.map_cons, List.map_cons, List.cons.injEq, hfound]
      refine ⟨⟨?_, ?_⟩, ?_⟩
      · rintro ⟨hfirst, hrest⟩ r hr
        rcases List.mem_cons.mp hr with rfl | hmem
        · exact hhead.mp hfirst
        · exact (htail hfirst).1.mp hrest r hmem
      · intro hstable
        have hfirst := hhead.mpr (hstable _ (.head _))
        exact ⟨hfirst, (htail hfirst).1.mpr fun r hr => hstable r (.tail _ hr)⟩
      · rintro ⟨hfirst, hrest⟩
        exact (htail hfirst).2 hrest

/-! ### One scope -/

/-- Stability is asked of each record by itself. -/
theorem stableOn_append {Tend : Shelf} {rs ss : List (Option ImportLine × FusionTask)} :
    ix.StableOn Tend (rs ++ ss) ↔ ix.StableOn Tend rs ∧ ix.StableOn Tend ss := by
  simp only [StableOn, List.mem_append, or_imp, forall_and]

/-- All classes of a scope, a second time: the same interfaces are found
exactly if the first fusion is stable, and the shelf stays as it is. The
classes are taken one by one, each with the labels of the later ones
behind its own. -/
theorem refuse_shelf (scope : Nat) {pairs : List (String × List String)}
    (hnames : (pairs.map Prod.fst).Nodup) {T : Shelf}
    (hfresh : ∀ name ∈ pairs.map Prod.fst, fuseLabel name ∉ T.keys) :
    let ts := tasksFor scope pairs
    let Tend := ix.splicedShelf T ts
    ((ix.shelfRecords Tend ts).map ix.finding = (ix.shelfRecords T ts).map ix.finding
        ↔ ix.StableOn Tend (ix.shelfRecords T ts))
      ∧ ((ix.shelfRecords Tend ts).map ix.finding = (ix.shelfRecords T ts).map ix.finding →
          ix.splicedShelf Tend ts = Tend) := by
  induction pairs generalizing T with
  | nil => exact ⟨⟨fun _ => nofun, fun _ => rfl⟩, fun _ => rfl⟩
  | cons pair pairs ih =>
      rw [List.map_cons, List.nodup_cons] at hnames
      have htasks : tasksFor scope (pair :: pairs)
          = (pair.2.map fun base => ⟨scope, pair.1, base⟩) ++ tasksFor scope pairs :=
        List.flatMap_cons
      have hus := name_of_mem_tasks scope pair.1 pair.2
      generalize (pair.2.map fun base => FusionTask.mk scope pair.1 base) = us at htasks hus
      -- The shelf between the first class and the others.
      obtain ⟨l, hl⟩ := ix.entries_splicedShelf_pair hus (hfresh pair.1 (.head _)) (T := T)
        (l := none) (List.append_nil _).symm
      have hfresh' : ∀ name ∈ pairs.map Prod.fst, fuseLabel name ∉ (ix.splicedShelf T us).keys :=
        fun name hname => fuseLabel_not_mem_keys hl (fun heq => hnames.1 (heq ▸ hname))
          (hfresh name (.tail _ hname))
      obtain ⟨R, hR⟩ := ix.entries_splicedShelf_pairs scope hnames.2 hfresh'
      obtain ⟨hrestIff, hrestEnd⟩ := ih hnames.2 hfresh'
      have hover : Over none l l :=
        ⟨fun hnone => ⟨rfl, hnone⟩, fun e he => ⟨e, he, rfl, fun k => rfl⟩⟩
      rw [hl] at hR
      obtain ⟨hheadIff, hheadEnd⟩ := ix.refuse_pair (hfresh pair.1 (.head _)) hR hus
        ⟨(List.append_nil _).symm, hR, hover⟩ hl
      simp only [htasks, splicedShelf_append, shelfRecords_append, List.map_append,
        stableOn_append]
      have hlength : ((ix.shelfRecords (ix.splicedShelf (ix.splicedShelf T us)
            (tasksFor scope pairs)) us).map ix.finding).length
          = ((ix.shelfRecords T us).map ix.finding).length := by
        rw [List.length_map, List.length_map, length_shelfRecords, length_shelfRecords]
      refine ⟨⟨fun h => ?_, fun h => ?_⟩, fun h => ?_⟩
      · obtain ⟨hhead, hrest⟩ := List.append_inj h hlength
        rw [hheadEnd hhead] at hrest
        exact ⟨hheadIff.mp hhead, hrestIff.mp hrest⟩
      · have hhead := hheadIff.mpr h.1
        rw [hhead, hheadEnd hhead, hrestIff.mpr h.2]
      · obtain ⟨hhead, hrest⟩ := List.append_inj h hlength
        rw [hheadEnd hhead] at hrest ⊢
        exact hrestEnd hrest

end SymbolIndex

end Externals
