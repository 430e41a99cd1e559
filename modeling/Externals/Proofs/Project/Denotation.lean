import Externals.Proofs.Mapping.Visibility
import Externals.Proofs.Project.FusedClass
import Externals.Proofs.Project.ImportSection

/-!
# `Externals.Proofs.Project.Denotation`: the interface an entry denotes

An entry of an extends clause denotes the interface its name is located
at (`SymbolIndex.denoted`). The mapping locates the name when it emits
the interface. Fusion does not: it looks for an import recorded under
the name in the file, follows it to the first scope of its package that
has such an interface, and falls back to the chain of the scope.

`SymbolIndex.ReachedBy` says when that detour arrives. With a record,
the record must name the interface and its package, and no scope with a
smaller number may share both. Without one, the name must be declared
on the chain where it is located.

The record is the import that the entry itself asked for, unless another
request of the file binds the same name.

* `SymbolIndex.baseAt_eq_denoted_iff`, `SymbolIndex.baseAt_eq_none_iff`:
  what a base stands for, given its record.
* `Fresh.recordOf_eq_importFor`: the record of an entry.
* `fused_bases`: the members of a fused class, and for each entry of the
  extends clause when it is the denoted interface that is spliced.
-/

set_option autoImplicit false

namespace Externals

/-- The first number below a bound that has an answer. Fusion looks
through scopes by their numbers, so this is what it finds. -/
theorem findSome?_filter_range {β : Type} (P : Nat → Bool) (f : Nat → Option β) (n : Nat) (b : β) :
    ((List.range n).filter P).findSome? f = some b
      ↔ ∃ i < n, P i ∧ f i = some b ∧ ∀ j < i, P j → f j = none := by
  induction n with
  | zero => simp
  | succ n ih =>
      have hlast : ([n].filter P).findSome? f = if P n then f n else none := by
        cases hn : P n
        · simp [hn]
        · simp [hn]
      -- The last number decides only if all before it have no answer.
      rw [List.range_succ, List.filter_append, List.findSome?_append, Option.or_eq_some_iff, ih,
        hlast, List.findSome?_eq_none_iff]
      simp only [List.mem_filter, List.mem_range, and_imp]
      constructor
      · rintro (⟨i, hi, hP, hf, hbefore⟩ | ⟨hnone, hn⟩)
        · exact ⟨i, by omega, hP, hf, hbefore⟩
        · split at hn
          · rename_i hP
            exact ⟨n, by omega, hP, hn, hnone⟩
          · cases hn
      · rintro ⟨i, hi, hP, hf, hbefore⟩
        by_cases heq : i = n
        · subst heq
          exact .inr ⟨hbefore, by rw [if_pos hP, hf]⟩
        · exact .inl ⟨i, by omega, hP, hf, hbefore⟩

namespace SymbolIndex

variable (ix : SymbolIndex)

/-! ### Denoted and reached interfaces -/

/-- The interface of a name in a scope, if the scope declares one. -/
def interfaceAt (id : Nat) (name : String) : Option InterfaceDecl :=
  ix.scopes[id]?.bind fun s => s.interface? name

/-- The interface the base of a task denotes, with its scope: the one at
the location of the name, unless it is fused itself. This is what the
program means; what fusion finds is `baseAt`. -/
def denoted (t : FusionTask) : Option (Nat × InterfaceDecl) :=
  (ix.locate t.scope t.base).bind fun l =>
    if l.scope = t.scope ∧ l.name = t.name then none
    else (ix.interfaceAt l.scope l.name).map (l.scope, ·)

/-- Fusion arrives at a location, given the record of a base. A record
leads to the first scope of its package that has the interface, so no
earlier one may have it. Without a record the chain of the scope is
searched, and a renaming import is not followed. -/
def ReachedBy (t : FusionTask) (l : Location) : Option ImportLine → Prop
  | some line => line.name = l.name ∧ line.package = ix.packageOf l.scope
      ∧ ∀ i < l.scope, ix.packageOf i = line.package → ix.interfaceAt i l.name = none
  | none => l.name = t.base ∧ ix.declaringScope t.scope t.base = some l.scope

/-- Fusion arrives at no interface, given the record of a base: no scope
of the package has one, or the declaration on the chain is the class
itself or no interface. -/
def LeadsNowhere (t : FusionTask) : Option ImportLine → Prop
  | some line => ∀ i < ix.size, ix.packageOf i = line.package → ix.interfaceAt i line.name = none
  | none => ∀ i, ix.declaringScope t.scope t.base = some i →
      (i = t.scope ∧ t.base = t.name) ∨ ix.interfaceAt i t.base = none

/-- An interface is filed under its own name. -/
theorem name_of_interfaceAt {ix : SymbolIndex} (hkeyed : ix.WellKeyed) {id : Nat} {name : String}
    {decl : InterfaceDecl} (h : ix.interfaceAt id name = some decl) : decl.name = some name := by
  rw [interfaceAt, interface?_eq, interfaceIn] at h
  split at h
  · rename_i found hget
    cases h
    exact (hkeyed id _ _ hget).2
  · cases h

/-- A scope that has an interface is one of the index. -/
theorem lt_of_interfaceAt {ix : SymbolIndex} {id : Nat} {name : String} {decl : InterfaceDecl}
    (h : ix.interfaceAt id name = some decl) : id < ix.size := by
  rw [interfaceAt] at h
  obtain ⟨s, hs, -⟩ := Option.bind_eq_some_iff.mp h
  rw [← getElem?_isSome_iff, hs]
  rfl

/-! ### What a base stands for -/

/-- With a record: the first scope of the package that has the
interface. The scope of the task plays no part. -/
theorem baseAt_record_eq_some_iff {t : FusionTask} {line : ImportLine} {owner : Nat}
    {decl : InterfaceDecl} :
    ix.baseAt t (some line) = some (owner, decl)
      ↔ ix.interfaceAt owner line.name = some decl ∧ ix.packageOf owner = line.package
          ∧ ∀ i < owner, ix.packageOf i = line.package → ix.interfaceAt i line.name = none := by
  have hfirst := findSome?_filter_range (fun id => ix.packageOf id == line.package)
    (fun id => (ix.interfaceAt id line.name).map (id, ·)) ix.size (owner, decl)
  simp only [beq_iff_eq, Option.map_eq_some_iff, Option.map_eq_none_iff, Prod.mk.injEq] at hfirst
  refine hfirst.trans ⟨?_, ?_⟩
  · rintro ⟨i, -, hpackage, ⟨found, hfound, rfl, rfl⟩, hbefore⟩
    exact ⟨hfound, hpackage, hbefore⟩
  · rintro ⟨hfound, hpackage, hbefore⟩
    exact ⟨owner, lt_of_interfaceAt hfound, hpackage, ⟨decl, hfound, rfl, rfl⟩, hbefore⟩

/-- With a record, nothing is found if no scope of the package has the
interface. -/
theorem baseAt_record_eq_none_iff {t : FusionTask} {line : ImportLine} :
    ix.baseAt t (some line) = none
      ↔ ∀ i < ix.size, ix.packageOf i = line.package → ix.interfaceAt i line.name = none := by
  rw [baseAt, List.findSome?_eq_none_iff]
  simp only [scopesIn, ids, List.mem_filter, List.mem_range, beq_iff_eq, Option.map_eq_none_iff,
    and_imp]
  exact Iff.rfl

/-- Without a record, in terms of the interfaces of scopes. -/
theorem baseAt_none (t : FusionTask) :
    ix.baseAt t none = (ix.declaringScope t.scope t.base).bind fun owner =>
      if owner = t.scope ∧ t.base = t.name then none
      else (ix.interfaceAt owner t.base).map (owner, ·) := by
  rw [baseAt]
  cases ix.declaringScope t.scope t.base with
  | none => rfl
  | some owner =>
      simp only [Bool.and_eq_true, beq_iff_eq]
      rfl

/-- Without a record: the nearest declaration of the name, if it is an
interface and not the one that is fused. -/
theorem baseAt_none_eq_some_iff {t : FusionTask} {owner : Nat} {decl : InterfaceDecl} :
    ix.baseAt t none = some (owner, decl)
      ↔ ix.declaringScope t.scope t.base = some owner ∧ ¬ (owner = t.scope ∧ t.base = t.name)
          ∧ ix.interfaceAt owner t.base = some decl := by
  rw [baseAt_none]
  cases hscope : ix.declaringScope t.scope t.base with
  | none => simp
  | some i =>
      rw [Option.bind_some, Option.some.injEq]
      -- An interface is never its own base: the scope found may be the class's own, but not
      -- under the class's own name.
      by_cases hself : i = t.scope ∧ t.base = t.name
      · rw [if_pos hself]
        constructor
        · exact fun h => nomatch h
        · rintro ⟨rfl, hne, -⟩
          exact absurd hself hne
      · rw [if_neg hself, Option.map_eq_some_iff]
        constructor
        · rintro ⟨found, hfound, heq⟩
          cases heq
          exact ⟨rfl, hself, hfound⟩
        · rintro ⟨rfl, -, hfound⟩
          exact ⟨decl, hfound, rfl⟩

/-- Without a record, nothing is found if the nearest declaration is
none of these. -/
theorem baseAt_none_eq_none_iff {t : FusionTask} :
    ix.baseAt t none = none
      ↔ ∀ i, ix.declaringScope t.scope t.base = some i →
          (i = t.scope ∧ t.base = t.name) ∨ ix.interfaceAt i t.base = none := by
  rw [baseAt_none]
  cases hscope : ix.declaringScope t.scope t.base with
  | none => simp
  | some i =>
      simp only [Option.bind_some, Option.some.injEq, forall_eq']
      -- Nothing is found if no scope declares the name, if it is the class's own, or if it is
      -- declared but no interface.
      by_cases hself : i = t.scope ∧ t.base = t.name
      · simp [hself]
      · rw [if_neg hself, Option.map_eq_none_iff]
        simp [hself]

/-- A base that denotes an interface stands for it exactly if fusion
arrives at its location. The interface has the name of its location, so
a record has to name it like that too. -/
theorem baseAt_eq_denoted_iff {ix : SymbolIndex} (hkeyed : ix.WellKeyed) {t : FusionTask}
    {l : Location} (hl : ix.locate t.scope t.base = some l) {b : Nat × InterfaceDecl}
    (hb : ix.denoted t = some b) (record : Option ImportLine) :
    ix.baseAt t record = some b ↔ ix.ReachedBy t l record := by
  rw [denoted, hl, Option.bind_some] at hb
  split at hb
  · cases hb
  · rename_i hself
    obtain ⟨decl, hdecl, rfl⟩ := Option.map_eq_some_iff.mp hb
    -- The declaration carries its name, so it stands under one name only.
    have hname : ∀ {name : String}, ix.interfaceAt l.scope name = some decl → name = l.name := by
      intro name hfound
      have hfirst := name_of_interfaceAt hkeyed hfound
      rw [name_of_interfaceAt hkeyed hdecl, Option.some.injEq] at hfirst
      exact hfirst.symm
    cases record with
    | some line =>
        rw [baseAt_record_eq_some_iff, ReachedBy]
        constructor
        · rintro ⟨hfound, hpackage, hbefore⟩
          rw [hname hfound] at hbefore
          exact ⟨hname hfound, hpackage.symm, hbefore⟩
        · rintro ⟨hline, hpackage, hbefore⟩
          rw [hline]
          exact ⟨hdecl, hpackage.symm, hbefore⟩
    | none =>
        rw [baseAt_none_eq_some_iff, ReachedBy]
        constructor
        · rintro ⟨hscope, -, hfound⟩
          exact ⟨(hname hfound).symm, hscope⟩
        · rintro ⟨hbase, hscope⟩
          rw [← hbase] at hscope ⊢
          exact ⟨hscope, hself, hdecl⟩

/-- A base stands for nothing exactly if its record leads nowhere. -/
theorem baseAt_eq_none_iff (t : FusionTask) (record : Option ImportLine) :
    ix.baseAt t record = none ↔ ix.LeadsNowhere t record := by
  cases record with
  | some line => exact ix.baseAt_record_eq_none_iff
  | none => exact ix.baseAt_none_eq_none_iff

end SymbolIndex

/-! ### Where records come from -/

namespace Shelf

/-- Every line of a shelf is one of the given requests, and kept under
the name it makes visible. So a record that is looked up on the shelf
was asked for by someone. -/
def HeldBy (T : Shelf) (requests : List ImportLine) : Prop :=
  ∀ label t, T.get? label = some t → ∀ key line, t.get? key = some line →
    line.key = key ∧ line ∈ requests

/-- Filing requests keeps this. -/
theorem HeldBy.file {T : Shelf} {requests : List ImportLine} (h : T.HeldBy requests)
    (label : String) {lines : List ImportLine} (hlines : ∀ line ∈ lines, line ∈ requests) :
    (T.file label lines).HeldBy requests := by
  intro label' t ht key line hline
  -- Only the table of the label changes: a line in it is filed now or was there.
  by_cases hlabel : label = label'
  · subst hlabel
    rw [get?_file_self, Option.some.injEq] at ht
    rw [← ht, Table.get?_insertAll, Option.or_eq_some_iff] at hline
    rcases hline with hnew | ⟨-, hold⟩
    · obtain ⟨hkey, hmem⟩ := of_latest?_keyed hnew
      exact ⟨hkey, hlines line hmem⟩
    · cases hget : T.get? label with
      | none =>
          rw [hget, Option.getD_none, Table.get?_empty] at hold
          cases hold
      | some t =>
          rw [hget, Option.getD_some] at hold
          exact h label t hget key line hold
  · rw [T.get?_file_of_ne hlabel] at ht
    exact h label' t ht key line hline

/-- What is found under a name is a request that makes the name
visible. -/
theorem HeldBy.lookup {T : Shelf} {requests : List ImportLine} (h : T.HeldBy requests)
    {key : String} {line : ImportLine} (hline : T.lookup key = some line) :
    line.key = key ∧ line ∈ requests := by
  obtain ⟨e, he, hget⟩ := List.exists_of_findSome?_eq_some hline
  exact h e.1 e.2 (Table.get?_of_mem_entries he) key line hget

/-- A name that some label holds is found, perhaps under another label. -/
theorem lookup_ne_none {T : Shelf} {label : String} {t : Table String ImportLine}
    (h : T.get? label = some t) {key : String} (hkey : key ∈ t.keys) : T.lookup key ≠ none := by
  intro hnone
  rw [lookup, List.findSome?_eq_none_iff] at hnone
  have hentry := hnone (label, t) (Table.mem_entries_of_get? h)
  exact absurd hkey (Table.get?_eq_none_iff.mp hentry)

end Shelf

namespace SymbolIndex

variable (ix : SymbolIndex)

/-- A shelf after an emission holds what the drafts asked for. -/
theorem heldBy_fileDrafts (scope : Nat) {requests : List ImportLine}
    {es : List (DeclKey × Declaration)}
    (hes : ∀ e ∈ es, ∀ line ∈ (ix.draftOf scope e).imports, line ∈ requests) {T : Shelf}
    (h : T.HeldBy requests) : (ix.fileDrafts scope T es).HeldBy requests := by
  induction es generalizing T with
  | nil => exact h
  | cons e es ih =>
      rw [fileDrafts_cons]
      exact ih (fun e' he' => hes e' (.tail _ he')) (h.file _ (hes e (.head _)))

/-- A shelf after some splices holds what they asked for in addition. -/
theorem heldBy_splicedShelf {requests : List ImportLine} {ts : List FusionTask} {T : Shelf}
    (hts : ∀ line ∈ ix.fusionRequests ((ix.shelfRecords T ts).map ix.finding), line ∈ requests)
    (h : T.HeldBy requests) : (ix.splicedShelf T ts).HeldBy requests := by
  induction ts generalizing T with
  | nil => exact h
  | cons t ts ih =>
      have hcons : ix.fusionRequests ((ix.shelfRecords T (t :: ts)).map ix.finding)
          = ix.splicedImports t (ix.baseAt t (T.lookup t.base))
            ++ ix.fusionRequests
                ((ix.shelfRecords (ix.spliceShelf T t) ts).map ix.finding) := rfl
      rw [hcons] at hts
      -- The requests of this task are in front of those of the later ones, so both halves are
      -- held.
      refine ih (fun line hline => hts line (List.mem_append_right _ hline)) ?_
      cases hb : ix.baseAt t (T.lookup t.base) with
      | none => rwa [ix.spliceShelf_of_none hb]
      | some b =>
          rw [ix.spliceShelf_of_some hb]
          refine h.file _ fun line hline => hts line (List.mem_append_left _ ?_)
          rw [hb]
          exact hline

/-- The record of a task is looked up on the shelf that the tasks before
it leave. So an earlier splice can change what a later base stands for. -/
theorem exists_of_mem_shelfRecords {T : Shelf} {ts : List FusionTask}
    {r : Option ImportLine × FusionTask} (h : r ∈ ix.shelfRecords T ts) :
    ∃ us vs, ts = us ++ r.2 :: vs ∧ r.1 = (ix.splicedShelf T us).lookup r.2.base := by
  induction ts generalizing T with
  | nil => cases h
  | cons t ts ih =>
      rcases List.mem_cons.mp h with rfl | hmem
      · exact ⟨[], ts, rfl, rfl⟩
      · obtain ⟨us, vs, rfl, hrecord⟩ := ih hmem
        exact ⟨t :: us, vs, rfl, hrecord⟩

end SymbolIndex

namespace Project

/-- What an interface extends is among its imports: the draft maps every
type of the extends clause. -/
theorem imports_draftOf_interface {ix : SymbolIndex} {id : Nat} {name : String}
    {decl : InterfaceDecl} (hname : decl.name = some name) {type : TypeRef}
    (htype : type ∈ decl.bases) {line : ImportLine}
    (hline : line ∈ ((Viewpoint.within ix id).map { self := some name } type).imports) :
    line ∈ (ix.draftOf id (⟨.interfaceType, name⟩, .interfaceType decl)).imports := by
  simp only [SymbolIndex.draftOf, Viewpoint.draftDeclaration, Viewpoint.draftInterface, hname,
    Draft.imports_bind, Draft.imports_each, List.mem_append, List.mem_flatMap]
  exact .inl (.inl ⟨type, htype, hline⟩)

namespace Fresh

variable {p : Project} (h : p.Fresh)

include h

/-- The shelf at any turn of a scope holds requests of the file only:
those of the drafts and those of the splices so far. -/
theorem heldBy_turn {id : Nat} {us vs : List FusionTask}
    (htasks : tasksFor id (p.fusedInterfaces id) = us ++ vs) :
    (p.index.splicedShelf (p.index.emittedShelf id .empty) us).HeldBy (p.requestsOf id) := by
  -- The shelf at this turn holds what emission filed and what the earlier tasks spliced; the
  -- requests list both.
  refine p.index.heldBy_splicedShelf (fun line hline => ?_) ?_
  · rw [requestsOf, h.shelved.filter_findings, htasks, SymbolIndex.shelfRecords_append,
      List.map_append, SymbolIndex.fusionRequests_append]
    exact List.mem_append_right _ (List.mem_append_left _ hline)
  · refine p.index.heldBy_fileDrafts id (fun e he line hline => ?_) ?_
    · refine List.mem_append_left _ ?_
      rw [SymbolIndex.emissionRequests, List.mem_flatMap]
      exact ⟨e, he, hline⟩
    · intro label t ht
      rw [Table.get?_empty] at ht
      cases ht

/-- The record of a turn is one of those met on the shelf of its scope.
The tasks of other scopes do not touch that shelf. -/
theorem recordOf_mem_shelfRecords {turn : Project × FusionTask}
    (hturn : turn ∈ p.turns p.fusionTasks) :
    (turn.1.recordOf turn.2, turn.2) ∈ p.index.shelfRecords
      (p.index.emittedShelf turn.2.scope .empty)
      (tasksFor turn.2.scope (p.fusedInterfaces turn.2.scope)) := by
  rw [← h.shelved.filter_records, List.mem_filter]
  exact ⟨List.mem_map_of_mem (f := fun turn => (turn.1.recordOf turn.2, turn.2)) hturn,
    decide_eq_true rfl⟩

/-- The record of an entry is the import that the entry asked for, if no
other request of the file binds its name. -/
theorem recordOf_eq_importFor {turn : Project × FusionTask}
    (hturn : turn ∈ p.turns p.fusionTasks) {decl : InterfaceDecl}
    (hinterface : (p.index.scopes[turn.2.scope]?.bind fun s => s.interface? turn.2.name)
      = some decl)
    {type : TypeRef} (htype : type ∈ decl.bases) (hsymbol : type.describe.symbol = some turn.2.base)
    {l : Location} (hl : p.index.locate turn.2.scope turn.2.base = some l)
    (hrequests : ∀ line ∈ p.requestsOf turn.2.scope, line.key = turn.2.base →
      (Viewpoint.within p.index turn.2.scope).importFor? turn.2.base l = some line) :
    turn.1.recordOf turn.2
      = (Viewpoint.within p.index turn.2.scope).importFor? turn.2.base l := by
  obtain ⟨us, vs, htasks, hlookup⟩ :=
    p.index.exists_of_mem_shelfRecords (h.recordOf_mem_shelfRecords hturn)
  dsimp only at htasks hlookup
  have hheld := h.heldBy_turn htasks
  rw [hlookup]
  cases hfound : (p.index.splicedShelf (p.index.emittedShelf turn.2.scope .empty) us).lookup
      turn.2.base with
  | some line =>
      -- Whatever is found was asked for under this name, so it is what the entry asked for.
      obtain ⟨hkey, hmem⟩ := hheld.lookup hfound
      exact (hrequests line hmem hkey).symm
  | none =>
      -- The entry's own import would have been found.
      cases himport : (Viewpoint.within p.index turn.2.scope).importFor? turn.2.base l with
      | none => rfl
      | some line =>
          refine absurd hfound ?_
          obtain ⟨hget, hname⟩ := h.drafted.get?_interface hinterface
          have hline : line ∈ (p.index.draftOf turn.2.scope
              (⟨.interfaceType, turn.2.name⟩, .interfaceType decl)).imports := by
            refine imports_draftOf_interface hname htype ?_
            rw [(Viewpoint.map_of_locate hsymbol (Viewpoint.locate_within hl) _).2, himport]
            exact .head _
          have hlabel := p.index.get?_emittedShelf turn.2.scope _ (Table.mem_entries_of_get? hget)
          rw [← p.index.get?_splicedShelf_label _ us] at hlabel
          refine Shelf.lookup_ne_none hlabel (Table.mem_keys_insertAll.mpr (.inr ?_))
          rw [← Viewpoint.key_of_importFor? himport, map_fst_keyed]
          exact List.mem_map_of_mem hline

/-- One entry of the extends clause of a fused interface: its turn, what
is found there, and where the record comes from. The name of the entry
is located, so its base is the name itself. -/
theorem classTurns_entry {scope : Nat} {name : String} {classDecl : ClassDecl}
    {decl : InterfaceDecl}
    (hclass : (p.index.scopes[scope]?.bind fun s => s.class? name) = some classDecl)
    (hinterface : (p.index.scopes[scope]?.bind fun s => s.interface? name) = some decl) {i : Nat}
    {type : TypeRef} {base : String} {l : Location} (htype : decl.bases[i]? = some type)
    (hsymbol : type.describe.symbol = some base) (hl : p.index.locate scope base = some l) :
    let t : FusionTask := ⟨scope, name, base⟩
    ∃ q : Project, (p.classTurns scope name)[i]? = some (q, t)
      ∧ (∀ b, p.index.denoted t = some b →
          (q.found t = some b ↔ p.index.ReachedBy t l (q.recordOf t)))
      ∧ (p.index.denoted t = none →
          (q.found t = none ↔ p.index.LeadsNowhere t (q.recordOf t)))
      ∧ ((∀ line ∈ p.requestsOf scope, line.key = base →
            (Viewpoint.within p.index scope).importFor? base l = some line) →
          q.recordOf t = (Viewpoint.within p.index scope).importFor? base l) := by
  intro t
  obtain ⟨q, hturn⟩ := h.drafted.classTurns_task hclass hinterface htype
  rw [(Viewpoint.map_of_locate hsymbol (Viewpoint.locate_within hl) _).1] at hturn
  have hmem : (q, t) ∈ p.turns p.fusionTasks :=
    (List.mem_filter.mp (List.mem_of_getElem? hturn)).1
  -- A turn changes no scope, so what it finds is looked up in the index of the start.
  refine ⟨q, hturn, fun b hb => ?_, fun _ => ?_, fun hrequests => ?_⟩
  · rw [found_eq, index_of_mem_turns hmem]
    exact SymbolIndex.baseAt_eq_denoted_iff (t := t) h.wellKeyed hl hb (q.recordOf t)
  · rw [found_eq, index_of_mem_turns hmem]
    exact p.index.baseAt_eq_none_iff _ _
  · exact h.recordOf_eq_importFor hmem hinterface (List.mem_of_getElem? htype) hsymbol hl hrequests

end Fresh

/-- Fusion of a class that has an interface of its name. The class lists
its own members, and behind them those members of the interface, and of
what each entry of the extends clause adds at its turn, that are new. An
entry whose name is located adds the members of the interface it denotes,
or none if it denotes none, exactly under the conditions on its record.
The record is the import that the entry itself asks for, if no other
request of the file binds the name. -/
theorem fused_bases (c : Conventions) (files : List SourceFile) {scope : Nat} {name : String}
    {classDecl : ClassDecl} {decl : InterfaceDecl}
    (hclass : (((Project.initial c).collect files).emitAll.index.scopes[scope]?.bind
      fun s => s.class? name) = some classDecl)
    (hinterface : (((Project.initial c).collect files).emitAll.index.scopes[scope]?.bind
      fun s => s.interface? name) = some decl) :
    let emitted := ((Project.initial c).collect files).emitAll
    let turns := emitted.classTurns scope name
    (∃ a b, (emitted.index.artifactsOf scope).get? ⟨.classType, name⟩ = some (.classType a)
        ∧ (emitted.index.artifactsOf scope).get? ⟨.interfaceType, name⟩ = some (.interfaceType b)
        ∧ (((Project.initial c).transform files).1.index.artifactsOf scope).get? ⟨.classType, name⟩
            = some (.classType (a.fuse (b.members ++ turns.flatMap fun turn =>
                emitted.index.splicedMembers turn.2 (turn.1.found turn.2)))))
      ∧ (∃ a, (((Project.initial c).transform files).1.index.artifactsOf scope).get?
            ⟨.classType, name⟩ = some (.classType a)
          ∧ a.instanceMembers
            = appendNew ((Viewpoint.within emitted.index scope).draftMembers name
                  (classDecl.members.filter fun m => !m.isStatic)).value
                (((Viewpoint.within emitted.index scope).draftMembers name decl.members).value
                  ++ turns.flatMap fun turn =>
                      emitted.index.splicedMembers turn.2 (turn.1.found turn.2)))
      ∧ ∀ (i : Nat) (type : TypeRef) (base : String) (l : Location),
          decl.bases[i]? = some type → type.describe.symbol = some base →
          emitted.index.locate scope base = some l →
          let t : FusionTask := ⟨scope, name, base⟩
          ∃ q : Project, turns[i]? = some (q, t)
            ∧ (∀ b, emitted.index.denoted t = some b →
                (q.found t = some b ↔ emitted.index.ReachedBy t l (q.recordOf t)))
            ∧ (emitted.index.denoted t = none →
                (q.found t = none ↔ emitted.index.LeadsNowhere t (q.recordOf t)))
            ∧ ((∀ line ∈ emitted.requestsOf scope, line.key = base →
                  (Viewpoint.within emitted.index scope).importFor? base l = some line) →
                q.recordOf t = (Viewpoint.within emitted.index scope).importFor? base l) := by
  have hfresh := (fresh_emitAll c files).1
  simp only [transform_fst]
  generalize ((Project.initial c).collect files).emitAll = emitted at hclass hinterface hfresh ⊢
  exact ⟨hfresh.drafted.fused_class hclass hinterface,
    hfresh.drafted.instanceMembers_fused hclass hinterface,
    fun i type base l => hfresh.classTurns_entry hclass hinterface⟩

/-- The records at the two turns of the class. The second is the import
that the splice of `B` asked for, and it binds the name `A`. -/
theorem shelfRecords_shadowedBases :
    let p := ((Project.initial {}).collect (shadowedBases ["B", "A"])).emitAll
    p.index.shelfRecords (p.index.emittedShelf 3 .empty) (tasksFor 3 (p.fusedInterfaces 3))
      = [(some ⟨"org.node.b", "B", none⟩, ⟨3, "C", "B"⟩),
         (some ⟨"org.node.a", "A", none⟩, ⟨3, "C", "A"⟩)] := by
  decide +kernel

/-- Behind `B`, the entry `A` does not splice the `A` it denotes, which
has a member `own`: the class lists the member of the other `A`. -/
theorem fused_bases_shadowedBases :
    (∃ (q : Project) (b : Nat × InterfaceDecl),
      (((Project.initial {}).collect (shadowedBases ["B", "A"])).emitAll.classTurns 3 "C")[1]?
          = some (q, ⟨3, "C", "A"⟩)
        ∧ ((Project.initial {}).collect (shadowedBases ["B", "A"])).emitAll.index.denoted
            ⟨3, "C", "A"⟩ = some b
        ∧ q.found ⟨3, "C", "A"⟩ ≠ some b)
      ∧ ∃ a, (((Project.initial {}).transform (shadowedBases ["B", "A"])).1.index.artifactsOf
            3).get? ⟨.classType, "C"⟩ = some (.classType a)
          ∧ a.instanceMembers = ["fun make(): A", "fun fromModule(): Unit"] := by
  have hclass : (((Project.initial {}).collect
      (shadowedBases ["B", "A"])).emitAll.index.scopes[3]?.bind fun s => s.class? "C")
        = some ⟨some "C", none, [], []⟩ := by decide +kernel
  have hinterface : (((Project.initial {}).collect
      (shadowedBases ["B", "A"])).emitAll.index.scopes[3]?.bind fun s => s.interface? "C")
        = some ⟨some "C", [plainReference "B", plainReference "A"], []⟩ := by decide +kernel
  have hdenoted : ((Project.initial {}).collect (shadowedBases ["B", "A"])).emitAll.index.denoted
      ⟨3, "C", "A"⟩
        = some (3, ⟨some "A", [], [plainMethod "own" (.resolved (.plain "void" .void))]⟩) := by
    decide +kernel
  have hpackage : ((Project.initial {}).collect
      (shadowedBases ["B", "A"])).emitAll.index.packageOf 3 = "org.node.m" := by decide +kernel
  -- The second entry of the class is the one whose name is shadowed.
  obtain ⟨-, ⟨a, ha, hinstance⟩, hentry⟩ :=
    fused_bases {} (shadowedBases ["B", "A"]) hclass hinterface
  obtain ⟨q, hturn, hreached, -⟩ :=
    hentry 1 (plainReference "A") "A" ⟨3, "A"⟩ rfl (by decide) (by decide +kernel)
  refine ⟨⟨q, _, hturn, hdenoted, fun hfound => ?_⟩, a, ha, hinstance.trans (by decide +kernel)⟩
  -- The line recorded for it names another package than the one its name denotes.
  have hrecord := (fresh_emitAll {} (shadowedBases ["B", "A"])).1.recordOf_mem_shelfRecords
    (List.mem_filter.mp (List.mem_of_getElem? hturn)).1
  rw [shelfRecords_shadowedBases] at hrecord
  have hline : q.recordOf ⟨3, "C", "A"⟩ = some ⟨"org.node.a", "A", none⟩ := by
    simpa using hrecord
  have hreach := (hreached _ hdenoted).mp hfound
  rw [hline, SymbolIndex.ReachedBy, hpackage] at hreach
  exact absurd hreach.2.1 (by decide)

end Project

end Externals
