import Externals.Proofs.Project.FreshRun

/-!
# `Externals.Proofs.Project.ImportSection`: the imports of a file

Every draft asks for imports: those of the declarations of a scope, and
those of the members that fusion splices into its classes. Taken
together in the order they are asked for, these are the *requests* of
the scope (`Project.requestsOf`).

A request is kept under the name it makes visible, in a child of the
file's header, and the children are merged into one section. Both steps
let the last line of a name win. Children are made in the order their
labels are first used, and a label is not used again once a later one
exists, so both steps together let the last request win
(`Fresh.get?_merged_finalShelf`).

* `import_section`: which lines the section of a file has.
-/

set_option autoImplicit false

namespace Externals

/-! ### Merged shelves -/

namespace Shelf

/-- The last line of a name among labelled tables. It looks through the
labels from the end, and each table has a name at most once. -/
def lastLine (es : List (String × Table String ImportLine)) (key : String) : Option ImportLine :=
  es.reverse.findSome? fun e => e.2.get? key

/-- What comes behind is asked first. -/
theorem lastLine_append (es fs : List (String × Table String ImportLine)) (key : String) :
    lastLine (es ++ fs) key = (lastLine fs key).or (lastLine es key) := by
  rw [lastLine, List.reverse_append, List.findSome?_append]
  rfl

/-- The line of a name under one label. -/
theorem lastLine_leafOf (label : String) (l : Option (Table String ImportLine)) (key : String) :
    lastLine (leafOf label l) key = l.bind fun t => t.get? key := by
  cases l with
  | none => rfl
  | some t => simp [lastLine, leafOf]

/-- Merging keeps the last line of each name. It inserts one table after
the other, and a later insertion replaces an earlier one. -/
theorem get?_merged (T : Shelf) (key : String) : T.merged.get? key = lastLine T.entries key := by
  rw [merged, Table.get?_foldl_insertAll (Prod.snd : String × _ → _), Table.get?_empty,
    Option.or_none, lastLine]

/-- Lines filed under a new label, or under the last one, come after all
others. Under an earlier label this would be wrong: a later label could
still hold the name. -/
theorem lastLine_file {T : Shelf} {label : String} {X : List (String × Table String ImportLine)}
    {l : Option (Table String ImportLine)} (hT : T.entries = X ++ leafOf label l)
    (hX : label ∉ X.map Prod.fst) (lines : List ImportLine) (key : String) :
    lastLine (T.file label lines).entries key
      = (Table.latest? key (keyed lines)).or (lastLine T.entries key) := by
  rw [entries_file_last hT hX, hT, lastLine_append, lastLine_append, lastLine_leafOf,
    lastLine_leafOf, Option.bind_some, Table.get?_insertAll, Option.or_assoc]
  cases l with
  | none => rfl
  | some t => rfl

end Shelf

/-! ### Requests -/

namespace SymbolIndex

/-- The imports asked for by the declarations of a scope, one
declaration after the other. -/
def emissionRequests (ix : SymbolIndex) (scope : Nat) : List ImportLine :=
  (ix.declarationsOf scope).entries.flatMap fun e => (ix.draftOf scope e).imports

/-- The imports asked for by what was found for the classes of a scope.
They are asked for at the turn of each task. -/
def fusionRequests (ix : SymbolIndex) (fs : List Finding) : List ImportLine :=
  fs.flatMap fun f => ix.splicedImports f.1 f.2

variable (ix : SymbolIndex)

/-- Findings ask one after the other. -/
theorem fusionRequests_append (fs gs : List Finding) :
    ix.fusionRequests (fs ++ gs) = ix.fusionRequests fs ++ ix.fusionRequests gs :=
  List.flatMap_append

/-- Emission files the requests of each declaration behind those of the
declarations before it. Each has a label of its own, which is new. -/
theorem lastLine_fileDrafts (scope : Nat) {es : List (DeclKey × Declaration)}
    (hnodup : (es.map Prod.fst).Nodup) {T : Shelf} (hT : ∀ e ∈ es, e.1.label ∉ T.keys)
    (key : String) :
    Shelf.lastLine (ix.fileDrafts scope T es).entries key
      = (Table.latest? key (keyed (es.flatMap fun e => (ix.draftOf scope e).imports))).or
          (Shelf.lastLine T.entries key) := by
  induction es generalizing T with
  | nil => rfl
  | cons e es ih =>
      rw [List.map_cons, List.nodup_cons] at hnodup
      -- The labels of a scope are distinct, so each draft is filed as a new last leaf and its
      -- lines come after all the earlier ones.
      have hfile := Shelf.lastLine_file (l := none) (List.append_nil T.entries).symm
        (hT e (.head _)) (ix.draftOf scope e).imports key
      have hrest : ∀ e' ∈ es,
          e'.1.label ∉ (T.file e.1.label (ix.draftOf scope e).imports).keys := by
        intro e' he' hmem
        rw [Shelf.keys_file, if_neg (hT e (.head _)), List.mem_append, List.mem_singleton] at hmem
        rcases hmem with hold | hsame
        · exact hT e' (.tail _ he') hold
        · exact hnodup.1 (DeclKey.label_injective hsame ▸ List.mem_map_of_mem he')
      rw [fileDrafts_cons, ih hnodup.2 hrest, hfile, List.flatMap_cons, keyed_append,
        Table.latest?_append, Option.or_assoc]

/-- The tasks of one class file their requests under one label, behind
all others. The label is made by the first of them that finds an
interface, and is the last one until the class is done. -/
theorem lastLine_splicedShelf_pair {name : String} {ts : List FusionTask}
    (hts : ∀ t ∈ ts, t.name = name) {X : List (String × Table String ImportLine)}
    (hX : fuseLabel name ∉ X.map Prod.fst) {T : Shelf} {l : Option (Table String ImportLine)}
    (hT : T.entries = X ++ leafOf (fuseLabel name) l) (key : String) :
    Shelf.lastLine (ix.splicedShelf T ts).entries key
      = (Table.latest? key
            (keyed (ix.fusionRequests ((ix.shelfRecords T ts).map ix.finding)))).or
          (Shelf.lastLine T.entries key) := by
  induction ts generalizing T l with
  | nil => rfl
  | cons t ts ih =>
      have htail := fun t' ht' => hts t' (List.mem_cons_of_mem _ ht')
      have hcons : ix.fusionRequests ((ix.shelfRecords T (t :: ts)).map ix.finding)
          = ix.splicedImports t (ix.baseAt t (T.lookup t.base))
            ++ ix.fusionRequests
                ((ix.shelfRecords (ix.spliceShelf T t) ts).map ix.finding) := rfl
      have hstep : ix.splicedShelf T (t :: ts) = ix.splicedShelf (ix.spliceShelf T t) ts := rfl
      rw [hcons, hstep, keyed_append, Table.latest?_append]
      -- A base that stands for nothing asks for nothing and leaves the shelf alone.
      cases hb : ix.baseAt t (T.lookup t.base) with
      | none =>
          rw [ix.spliceShelf_of_none hb, ih htail hT]
          simp [splicedImports, keyed, Table.latest?]
      | some b =>
          rw [ix.spliceShelf_of_some hb, hts t (.head _)]
          rw [ih htail (Shelf.entries_file_last hT hX _), Shelf.lastLine_file hT hX,
            Option.or_assoc]
          rfl

/-- All classes of a scope, one behind the other. No two of them have
one label. -/
theorem lastLine_splicedShelf {scope : Nat} {pairs : List (String × List String)}
    (hnames : (pairs.map Prod.fst).Nodup) {T : Shelf}
    (hfresh : ∀ name ∈ pairs.map Prod.fst, fuseLabel name ∉ T.keys) (key : String) :
    Shelf.lastLine (ix.splicedShelf T (tasksFor scope pairs)).entries key
      = (Table.latest? key
            (keyed (ix.fusionRequests
              ((ix.shelfRecords T (tasksFor scope pairs)).map ix.finding)))).or
          (Shelf.lastLine T.entries key) := by
  induction pairs generalizing T with
  | nil => rfl
  | cons pair pairs ih =>
      rw [List.map_cons, List.nodup_cons] at hnames
      -- One class at a time: its tasks share one leaf, and the leaf of the next class is behind
      -- it.
      rw [tasksFor, List.flatMap_cons, splicedShelf_append, shelfRecords_append, List.map_append,
        fusionRequests_append, keyed_append, Table.latest?_append, ← tasksFor]
      have hus := name_of_mem_tasks scope pair.1 pair.2
      have hT : T.entries = T.entries ++ leafOf (fuseLabel pair.1) none :=
        (List.append_nil _).symm
      obtain ⟨l, hl⟩ := ix.entries_splicedShelf_pair hus (hfresh pair.1 (.head _)) hT
      rw [ih hnames.2 fun name hname => fuseLabel_not_mem_keys hl
          (fun heq => hnames.1 (heq ▸ hname)) (hfresh name (.tail _ hname)),
        ix.lastLine_splicedShelf_pair hus (hfresh pair.1 (.head _)) hT, Option.or_assoc]

end SymbolIndex

namespace Project

/-- The imports asked for the file of a scope, in order: those of the
declarations, and then those of the members that are spliced in. -/
def requestsOf (p : Project) (id : Nat) : List ImportLine :=
  p.index.emissionRequests id
    ++ p.index.fusionRequests ((p.findings p.fusionTasks).filter fun f => f.1.scope = id)

/-- At the end of a run the last request of each name is kept. This is
where both steps, filing and merging, are put together. -/
theorem Fresh.get?_merged_finalShelf {p : Project} (h : p.Fresh) (id : Nat) (key : String) :
    (p.finalShelf id).merged.get? key = Table.latest? key (keyed (p.requestsOf id)) := by
  have hemitted := p.index.lastLine_fileDrafts id (p.index.declarationsOf id).nodup_keys
    (T := .empty) (fun _ _ => List.not_mem_nil) key
  rw [← SymbolIndex.emissionRequests, ← SymbolIndex.emittedShelf] at hemitted
  rw [Shelf.get?_merged, finalShelf, p.index.lastLine_splicedShelf (h.drafted.nodup_names id)
    fun name _ => p.fuseLabel_not_mem_emittedShelf id name]
  rw [hemitted, requestsOf, keyed_append, Table.latest?_append, h.shelved.filter_findings]
  simp [Shelf.lastLine, Table.empty]

end Project

/-! ### The section -/

/-- A line is the last one of its name exactly if no later line rebinds
the name. A later request of the same line is allowed: it binds the name
to what it was bound to. -/
theorem latest?_keyed_iff {lines : List ImportLine} {line : ImportLine} :
    Table.latest? line.key (keyed lines) = some line
      ↔ ∃ before after, lines = before ++ line :: after
          ∧ ∀ later ∈ after, later.key = line.key → later = line := by
  induction lines with
  | nil => simp [keyed, Table.latest?]
  | cons first lines ih =>
      have hcons : Table.latest? line.key (keyed (first :: lines))
          = (Table.latest? line.key (keyed lines)).or
              (if first.key = line.key then some first else none) := rfl
      rw [hcons, Option.or_eq_some_iff, ih]
      constructor
      · rintro (⟨before, after, rfl, hlater⟩ | ⟨hnone, hfirst⟩)
        · exact ⟨first :: before, after, rfl, hlater⟩
        · split at hfirst
          · cases hfirst
            refine ⟨[], lines, rfl, fun later hmem hkey => ?_⟩
            rw [Table.latest?_eq_none_iff] at hnone
            refine absurd ?_ hnone
            rw [map_fst_keyed, ← hkey]
            exact List.mem_map_of_mem hmem
          · cases hfirst
      · rintro ⟨before, after, heq, hlater⟩
        cases before with
        | cons other before =>
            rw [List.cons_append, List.cons.injEq] at heq
            exact .inl ⟨before, after, heq.2, hlater⟩
        | nil =>
            rw [List.nil_append, List.cons.injEq] at heq
            obtain ⟨rfl, rfl⟩ := heq
            -- If the name comes up again, it is with the same line.
            cases hlatest : Table.latest? first.key (keyed lines) with
            | none => exact .inr ⟨rfl, if_pos rfl⟩
            | some other =>
                obtain ⟨hkey, hmem⟩ := of_latest?_keyed hlatest
                rw [← ih, hlatest, hlater other hmem hkey]
                exact .inl rfl

namespace Project

namespace Fresh

variable {p : Project} (h : p.Fresh) {id : Nat} {s : Scope}
  (hs : p.resolveFusions.index.scopes[id]? = some s)

include h hs

/-- The lines of the file of a scope, from its requests. -/
theorem get?_merged (key : String) :
    (p.resolveFusions.headers.merged s.header).get? key
      = Table.latest? key (keyed (p.requestsOf id)) := by
  rw [h.resolved.2.2.merged hs, h.get?_merged_finalShelf]

/-- Every line is kept under the name it makes visible, and was asked
for. -/
theorem key_of_get?_merged {key : String} {line : ImportLine}
    (hline : (p.resolveFusions.headers.merged s.header).get? key = some line) :
    line.key = key ∧ line ∈ p.requestsOf id := by
  rw [h.get?_merged hs] at hline
  exact of_latest?_keyed hline

/-- A line is in the section iff it is the last request of its name. -/
theorem mem_flatten_iff {line : ImportLine} :
    line ∈ p.resolveFusions.headers.flatten s.header
      ↔ Table.latest? line.key (keyed (p.requestsOf id)) = some line := by
  rw [Headers.mem_flatten_iff_get?_merged fun _ _ hline => (h.key_of_get?_merged hs hline).1,
    h.get?_merged hs]

/-- No two lines of a section make the same name visible, as each name
is a key of one table. -/
theorem nodup_map_key_flatten :
    ((p.resolveFusions.headers.flatten s.header).map ImportLine.key).Nodup :=
  Headers.nodup_map_key_flatten_of_merged fun _ _ hline => (h.key_of_get?_merged hs hline).1

end Fresh

/-- The import section of a file. Its lines are the requests that no
later request rebinds, one line for each name. All requests are there
exactly if no two of them bind one name differently. The text of the
section has each of these lines written out, one below the other and in
the order of their text. -/
theorem import_section (c : Conventions) (files : List SourceFile) {id : Nat} {s : Scope}
    (hs : ((Project.initial c).transform files).1.index.scopes[id]? = some s) :
    let requests := ((Project.initial c).collect files).emitAll.requestsOf id
    let headers := ((Project.initial c).transform files).1.headers
    let lines := headers.flatten s.header
    (∀ line, line ∈ lines ↔ ∃ before after, requests = before ++ line :: after
        ∧ ∀ later ∈ after, later.key = line.key → later = line)
      ∧ (lines.map ImportLine.key).Nodup
      ∧ ((∀ line ∈ requests, line ∈ lines)
          ↔ ∀ line ∈ requests, ∀ other ∈ requests, line.key = other.key → line = other)
      ∧ headers.render s.header = "\n".intercalate (lines.map ImportLine.written)
      ∧ (lines.map ImportLine.written).Pairwise (fun a b => ¬ b < a) := by
  intro requests headers lines
  have hfresh := (fresh_emitAll c files).1
  rw [transform_fst] at hs
  have hlines : lines = ((Project.initial c).collect files).emitAll.resolveFusions.headers.flatten
      s.header := by
    show ((Project.initial c).transform files).1.headers.flatten s.header = _
    rw [transform_fst]
  have hmem : ∀ line, line ∈ lines ↔ ∃ before after, requests = before ++ line :: after
      ∧ ∀ later ∈ after, later.key = line.key → later = line :=
    fun line => by rw [hlines, hfresh.mem_flatten_iff hs, latest?_keyed_iff]
  have hnodup : (lines.map ImportLine.key).Nodup := by
    rw [hlines]
    exact hfresh.nodup_map_key_flatten hs
  refine ⟨hmem, hnodup, ⟨fun hall line hline other hother hkey => ?_, fun hone line hline => ?_⟩,
    headers.render_eq_written s.header, headers.pairwise_written s.header⟩
  · -- Both lines are the last request of their name.
    rw [hlines] at hall
    have hlast := (hfresh.mem_flatten_iff hs).mp (hall line hline)
    rw [hkey, (hfresh.mem_flatten_iff hs).mp (hall other hother), Option.some.injEq] at hlast
    exact hlast.symm
  · obtain ⟨before, after, hsplit⟩ := List.append_of_mem hline
    refine (hmem line).mpr ⟨before, after, hsplit, fun later hlater hkey => ?_⟩
    exact hone later (by rw [hsplit]; simp [hlater]) line hline hkey

/-- A module with two functions, one that takes a declared `Promise` and
one that returns a built-in one. -/
def twoPromises : List SourceFile :=
  [⟨"m.d.ts",
    [.global [.classDecl ⟨some "Promise", none, [], []⟩],
     ⟨"m", .ambient,
      [.function ⟨some "f",
        [{ name := "p", type := .resolved (.reference "Promise" "Promise" []) }],
        .resolved (.plain "void" .void), false⟩,
       .function ⟨some "g", [], .resolved (.plain "string" .string), true⟩]⟩]⟩]

/-- The two requests of the module bind one name to different classes. -/
theorem requestsOf_twoPromises :
    ((Project.initial {}).collect twoPromises).emitAll.requestsOf 1
      = [⟨"org.node", "Promise", none⟩, ⟨"kotlin.js", "Promise", none⟩] := by
  decide +kernel

/-- The scope of the module is there after the run. -/
theorem exists_scope_twoPromises :
    ∃ s, ((Project.initial {}).transform twoPromises).1.index.scopes[1]? = some s :=
  SymbolIndex.exists_scope (by decide +kernel)

/-- The section has the line of the last request, and no other. -/
theorem import_section_twoPromises :
    ∃ s, ((Project.initial {}).transform twoPromises).1.index.scopes[1]? = some s
      ∧ ⟨"kotlin.js", "Promise", none⟩
          ∈ ((Project.initial {}).transform twoPromises).1.headers.flatten s.header
      ∧ ((Project.initial {}).transform twoPromises).1.headers.render s.header
          = "import kotlin.js.Promise" := by
  obtain ⟨s, hs⟩ := exists_scope_twoPromises
  obtain ⟨hmem, -, -, htext, -⟩ := import_section {} twoPromises hs
  refine ⟨s, hs, (hmem _).mpr ?_, htext.trans ?_⟩
  · exact ⟨[⟨"org.node", "Promise", none⟩], [], requestsOf_twoPromises, nofun⟩
  · have hheader : (((Project.initial {}).transform twoPromises).1.index.scopes[1]?).map
        Scope.header = some 1 := by decide +kernel
    rw [hs, Option.map_some, Option.some.injEq] at hheader
    rw [hheader]
    decide +kernel

/-- The import of the declared `Promise` is asked for and lost. -/
theorem import_lost_twoPromises :
    ∃ s, ((Project.initial {}).transform twoPromises).1.index.scopes[1]? = some s
      ∧ ∃ line ∈ ((Project.initial {}).collect twoPromises).emitAll.requestsOf 1,
          line ∉ ((Project.initial {}).transform twoPromises).1.headers.flatten s.header := by
  obtain ⟨s, hs⟩ := exists_scope_twoPromises
  refine ⟨s, hs, ⟨"org.node", "Promise", none⟩, by rw [requestsOf_twoPromises]; exact .head _, ?_⟩
  rw [transform_fst] at hs ⊢
  rw [(fresh_emitAll {} twoPromises).1.mem_flatten_iff hs, requestsOf_twoPromises]
  decide

end Project

end Externals
