import Externals.Proofs.Project.Phases

/-!
# `Externals.Proofs.Project.Collection`: what is declared in the end

Collecting gathers declarations statement by statement and files them
in an index that may hold older ones. This module says what a scope
declares afterwards, without following the loop. `statementsOf` lists
the named declarations of the files that belong to a scope, in the
order of the text, and `declaredUnder` reads off what they declare
under a key: all functions, the last class, one interface of all blocks.

`Gathered.Exact` is the invariant of the loop: what was gathered so far
is what the statements so far declare, and the keys of every scope stand
in the order in which they came up.

* `Gathered.Exact.add`, `Gathered.exact_foldl`: one statement, and all.
* `declarationsOf_collect`: what every scope declares after files were
  collected, from what it declared before.
-/

set_option autoImplicit false

namespace Externals

/-! ### What statements declare -/

namespace Statement

/-- The function that a statement declares. -/
def function? : Statement → Option FunctionDecl
  | .function decl => some decl
  | _ => none

/-- The class that a statement declares. -/
def class? : Statement → Option ClassDecl
  | .classDecl decl => some decl
  | _ => none

/-- The block of an interface that a statement declares. -/
def interface? : Statement → Option InterfaceDecl
  | .interfaceDecl decl => some decl
  | _ => none

end Statement

/-- One interface of all its blocks: the first, with the members of the
later ones appended, and with those of their bases that are new. -/
def mergedBlocks : List InterfaceDecl → Option InterfaceDecl
  | [] => none
  | first :: later => some
      { first with
        bases := appendNew first.bases (later.flatMap InterfaceDecl.bases)
        members := first.members ++ later.flatMap InterfaceDecl.members }

/-- What statements declare under a key, if they declare anything: all
functions as overloads in their order, the last class, and one interface
of all blocks. It is the specification of gathering, and looks at all
statements at once. -/
def declaredUnder (key : DeclKey) (ss : List Statement) : Option Declaration :=
  let found := ss.filter fun s => s.key? = some key
  match key.kind with
  | .function =>
      match found.filterMap Statement.function? with
      | [] => none
      | overloads => some (.functions overloads)
  | .classType => (found.filterMap Statement.class?).getLast?.map .classType
  | .interfaceType => (mergedBlocks (found.filterMap Statement.interface?)).map .interfaceType

/-- The named declarations of one scope, in the order of the filings.
What has no name declares nothing. -/
def namedIn (id : Nat) (fs : List Filing) : List Statement :=
  (fs.filter fun f => f.1 = id ∧ f.2.key?.isSome).map Prod.snd

/-- The named declarations of files that belong to a scope, in order. -/
def SymbolIndex.statementsOf (ix : SymbolIndex) (files : List SourceFile) (id : Nat) :
    List Statement :=
  namedIn id (ix.fileFilings files)

/-- Statements under other keys do not matter. -/
theorem declaredUnder_append_of_ne {key : DeclKey} {s : Statement} (h : s.key? ≠ some key)
    (ss : List Statement) : declaredUnder key (ss ++ [s]) = declaredUnder key ss := by
  have hnone : [s].filter (fun s => s.key? = some key) = [] := by simp [h]
  rw [declaredUnder, declaredUnder, List.filter_append, hnone, List.append_nil]

/-- Nothing is declared without a statement. -/
theorem declaredUnder_eq_none {key : DeclKey} {ss : List Statement}
    (h : key ∉ ss.filterMap Statement.key?) : declaredUnder key ss = none := by
  have hfound : ss.filter (fun s => s.key? = some key) = [] := by
    rw [List.filter_eq_nil_iff]
    intro s hs hkey
    exact h (List.mem_filterMap.mpr ⟨s, hs, of_decide_eq_true hkey⟩)
  rw [declaredUnder, hfound]
  cases key.kind <;> rfl

/-- Bases are merged like lists in which nothing is listed twice. -/
theorem mergeBases_eq (bases more : List TypeRef) : mergeBases bases more = appendNew bases more :=
  eq_appendNew (fun _ => rfl) (fun _ _ _ => rfl) bases more

/-- A further block is merged into those before it. So merging block by
block, as the loop does, and merging all blocks at once are the same. -/
theorem mergedBlocks_append (blocks : List InterfaceDecl) (more : InterfaceDecl) :
    mergedBlocks (blocks ++ [more])
      = some ((mergedBlocks blocks).elim more fun first => mergeInterface first more) := by
  cases blocks with
  | nil => simp [mergedBlocks, appendNew_nil]
  | cons first later =>
      simp [mergedBlocks, mergeInterface, mergeBases_eq, appendNew_append]

/-! ### One statement more -/

section

variable {g : Gathered} {scope : Nat} {name : String} {ss : List Statement}

/-- One more function: an overload behind those that were gathered. -/
theorem get?_addFunction {decl : FunctionDecl} (hname : decl.name = some name)
    (hget : g.get? (scope, ⟨.function, name⟩) = declaredUnder ⟨.function, name⟩ ss) :
    (g.addFunction scope name decl).get? (scope, ⟨.function, name⟩)
      = declaredUnder ⟨.function, name⟩ (ss ++ [.function decl]) := by
  have hlast : [Statement.function decl].filter (fun s => s.key? = some ⟨.function, name⟩)
      = [.function decl] := by simp [Statement.key?, hname]
  rw [Gathered.addFunction, Table.upsert, Table.get?_insert_self, hget]
  simp only [declaredUnder, List.filter_append, List.filterMap_append, hlast]
  cases (ss.filter fun s => s.key? = some ⟨.function, name⟩).filterMap Statement.function? <;> rfl

/-- One more class: it takes the place of one that was gathered, so what
was there before does not matter. -/
theorem get?_addClass {decl : ClassDecl} (hname : decl.name = some name) :
    (g.addClass scope name decl).get? (scope, ⟨.classType, name⟩)
      = declaredUnder ⟨.classType, name⟩ (ss ++ [.classDecl decl]) := by
  have hlast : [Statement.classDecl decl].filter (fun s => s.key? = some ⟨.classType, name⟩)
      = [.classDecl decl] := by simp [Statement.key?, hname]
  rw [Gathered.addClass, Table.get?_insert_self]
  simp [declaredUnder, List.filter_append, List.filterMap_append, hlast, Statement.class?]

/-- One more block of an interface: it is merged into those that were
gathered. -/
theorem get?_addInterface {decl : InterfaceDecl} (hname : decl.name = some name)
    (hget : g.get? (scope, ⟨.interfaceType, name⟩) = declaredUnder ⟨.interfaceType, name⟩ ss) :
    (g.addInterface scope name decl).get? (scope, ⟨.interfaceType, name⟩)
      = declaredUnder ⟨.interfaceType, name⟩ (ss ++ [.interfaceDecl decl]) := by
  have hlast : [Statement.interfaceDecl decl].filter (fun s => s.key? = some ⟨.interfaceType, name⟩)
      = [.interfaceDecl decl] := by simp [Statement.key?, hname]
  have hblock : [Statement.interfaceDecl decl].filterMap Statement.interface? = [decl] := rfl
  rw [Gathered.addInterface, Table.upsert, Table.get?_insert_self, hget]
  simp only [declaredUnder, List.filter_append, List.filterMap_append, hlast, hblock,
    mergedBlocks_append]
  cases mergedBlocks ((ss.filter fun s => s.key? = some ⟨.interfaceType, name⟩).filterMap
    Statement.interface?) <;> rfl

end

section

variable (fs : List Filing) {f : Filing}

/-- One more filing is listed last, if at all. -/
theorem namedIn_append (id : Nat) :
    namedIn id (fs ++ [f]) = namedIn id fs ++ namedIn id [f] := by
  rw [namedIn, List.filter_append, List.map_append]
  rfl

/-- A named declaration is listed in its own scope. -/
theorem namedIn_append_self {key : DeclKey} (h : f.2.key? = some key) :
    namedIn f.1 (fs ++ [f]) = namedIn f.1 fs ++ [f.2] := by
  rw [namedIn_append]
  simp [namedIn, h]

/-- It is listed in no other scope. -/
theorem namedIn_append_of_ne {id : Nat} (h : f.1 ≠ id) :
    namedIn id (fs ++ [f]) = namedIn id fs := by
  rw [namedIn_append]
  simp [namedIn, h]

/-- One without a name is listed in none. -/
theorem namedIn_append_nameless (h : f.2.key? = none) (id : Nat) :
    namedIn id (fs ++ [f]) = namedIn id fs := by
  rw [namedIn_append]
  simp [namedIn, h]

end

/-! ### The invariant of gathering -/

namespace Gathered

/-- The keys gathered for a scope, in order. All scopes are gathered in
one table, so those of other scopes are left out. -/
def keysOf (g : Gathered) (id : Nat) : List DeclKey :=
  g.keys.filterMap fun k => if k.1 = id then some k.2 else none

/-- The keys of a scope are those of the table that stand with it. -/
theorem mem_keysOf {g : Gathered} {id : Nat} {key : DeclKey} :
    key ∈ g.keysOf id ↔ (id, key) ∈ g.keys := by
  simp only [keysOf, List.mem_filterMap, Option.ite_none_right_eq_some, Option.some.injEq]
  constructor
  · rintro ⟨k, hk, rfl, rfl⟩
    exact hk
  · exact fun h => ⟨_, h, rfl, rfl⟩

/-- An entry comes last in the order of its scope, unless it was there;
then it stays in its place. The order of other scopes does not change. -/
theorem keysOf_insert (g : Gathered) (scope : Nat) (key : DeclKey) (decl : Declaration) (id : Nat) :
    Gathered.keysOf (Table.insert g (scope, key) decl) id
      = if scope = id then appendNew (g.keysOf id) [key] else g.keysOf id := by
  have hlast :
      [(scope, key)].filterMap (fun k : Nat × DeclKey => if k.1 = id then some k.2 else none)
        = if scope = id then [key] else [] := by
    by_cases hid : scope = id
    · simp [hid]
    · simp [hid]
  rw [keysOf, Table.keys_insert, appendNew_cons, appendNew_nil]
  -- The table asks whether it has the pair, and the scope whether it has the key. It is the
  -- same question in the scope of the entry.
  by_cases hmem : (scope, key) ∈ Table.keys g
  · rw [if_pos hmem, ← keysOf]
    split
    · rename_i hid
      rw [if_pos (mem_keysOf.mpr (hid ▸ hmem))]
    · rfl
  · rw [if_neg hmem, List.filterMap_append, hlast, ← keysOf]
    split
    · rename_i hid
      rw [if_neg fun hkey => hmem (hid ▸ mem_keysOf.mp hkey)]
    · rw [List.append_nil]

/-- What was gathered is what statements declare: the entries, and the
order in which the keys of each scope stand. This is the invariant of
the loop. -/
structure Exact (g : Gathered) (fs : List Filing) : Prop where
  get?_eq : ∀ id key, g.get? (id, key) = declaredUnder key (namedIn id fs)
  keysOf_eq : ∀ id, g.keysOf id = appendNew [] ((namedIn id fs).filterMap Statement.key?)

/-- At the start nothing is gathered, and nothing declared. -/
theorem exact_empty : Exact .empty [] where
  get?_eq := fun id key => by
    have hnone : key ∉ (namedIn id []).filterMap Statement.key? := List.not_mem_nil
    rw [declaredUnder_eq_none hnone]
    rfl
  keysOf_eq := fun _ => rfl

/-- A statement with a name changes the entry of its key, to what it
declares together with those before it. -/
theorem Exact.add_named {g : Gathered} {fs : List Filing} (h : g.Exact fs) {f : Filing}
    (hnamed : f.2.key? ≠ none) :
    ∃ key, f.2.key? = some key ∧ (∃ decl, g.add f = Table.insert g (f.1, key) decl)
      ∧ (g.add f).get? (f.1, key) = declaredUnder key (namedIn f.1 fs ++ [f.2]) := by
  -- A class takes the place of what is there; a function and an interface are joined to it.
  rcases Project.add_cases g f with ⟨hnone, -⟩ | ⟨decl, name, hs, hname, hadd⟩
    | ⟨decl, name, hs, hname, hadd⟩ | ⟨decl, name, hs, hname, hadd⟩
  · exact absurd hnone hnamed
  · rw [hs, hadd]
    exact ⟨⟨.function, name⟩, by simp [Statement.key?, hname], ⟨_, rfl⟩,
      get?_addFunction hname (h.get?_eq f.1 _)⟩
  · rw [hs, hadd]
    exact ⟨⟨.classType, name⟩, by simp [Statement.key?, hname], ⟨_, rfl⟩, get?_addClass hname⟩
  · rw [hs, hadd]
    exact ⟨⟨.interfaceType, name⟩, by simp [Statement.key?, hname], ⟨_, rfl⟩,
      get?_addInterface hname (h.get?_eq f.1 _)⟩

/-- One statement keeps the invariant. Its own entry is what it declares
together with those before it, and all others are as they were. -/
theorem Exact.add {g : Gathered} {fs : List Filing} (h : g.Exact fs) (f : Filing) :
    (g.add f).Exact (fs ++ [f]) := by
  by_cases hnamed : f.2.key? = none
  · -- Without a name nothing is gathered, and the statement is not listed.
    have hadd : g.add f = g := by
      rcases Project.add_cases g f with ⟨-, hadd⟩ | ⟨decl, name, hs, hname, -⟩
        | ⟨decl, name, hs, hname, -⟩ | ⟨decl, name, hs, hname, -⟩
      · exact hadd
      all_goals
        rw [hs] at hnamed
        simp [Statement.key?, hname] at hnamed
    rw [hadd]
    exact ⟨fun id key => by rw [namedIn_append_nameless fs hnamed, h.get?_eq],
      fun id => by rw [namedIn_append_nameless fs hnamed, h.keysOf_eq]⟩
  · obtain ⟨key, hkey, ⟨decl, hadd⟩, hget⟩ := h.add_named hnamed
    refine ⟨fun id key' => ?_, fun id => ?_⟩
    · by_cases hsame : f.1 = id ∧ key = key'
      · obtain ⟨rfl, rfl⟩ := hsame
        rw [hget, namedIn_append_self fs hkey]
      · -- Other entries stay, and what is declared under other keys does not change.
        rw [hadd, Table.get?_insert_of_ne g fun heq => hsame (Prod.mk.inj heq), h.get?_eq]
        by_cases hid : f.1 = id
        · have hother : f.2.key? ≠ some key' := by
            rw [hkey]
            exact fun heq => hsame ⟨hid, Option.some.inj heq⟩
          rw [← hid, namedIn_append_self fs hkey, declaredUnder_append_of_ne hother]
        · rw [namedIn_append_of_ne fs hid]
    · rw [hadd, keysOf_insert, h.keysOf_eq]
      by_cases hid : f.1 = id
      · rw [if_pos hid, ← hid, namedIn_append_self fs hkey, List.filterMap_append,
          appendNew_append]
        simp [hkey]
      · rw [if_neg hid, namedIn_append_of_ne fs hid]

/-- All that statements declare is gathered, by induction on them from
the last one on. -/
theorem exact_foldl (fs : List Filing) : Exact (fs.foldl Gathered.add .empty) fs := by
  -- Generalised to a walk that has already filed something, so that the induction goes
  -- through.
  have hrun : ∀ (gs fs : List Filing) (g : Gathered), g.Exact fs →
      Exact (gs.foldl Gathered.add g) (fs ++ gs) := by
    intro gs
    induction gs with
    | nil =>
        intro fs g hg
        rw [List.append_nil]
        exact hg
    | cons f gs ih =>
        intro fs g hg
        rw [List.foldl_cons, List.append_cons]
        exact ih _ _ (hg.add f)
  exact hrun fs [] .empty exact_empty

end Gathered

/-! ### Filing -/

namespace Project

/-- The declarations of a scope are picked out of the table without
losing any. -/
theorem latest?_declarationsFor (id : Nat) (key : DeclKey)
    (es : List ((Nat × DeclKey) × Declaration)) :
    Table.latest? key (declarationsFor id es) = Table.latest? (id, key) es := by
  induction es with
  | nil => rfl
  | cons e es ih =>
      obtain ⟨⟨scope, key'⟩, decl⟩ := e
      rw [Table.latest?, ← ih, declarationsFor, List.filterMap_cons]
      by_cases hid : scope = id
      · simp [hid, Table.latest?, declarationsFor]
      · simp [hid, declarationsFor]

/-- Nor is their order lost. -/
theorem map_fst_declarationsFor (id : Nat) (g : Gathered) :
    (declarationsFor id g.entries).map Prod.fst = g.keysOf id := by
  rw [declarationsFor, List.map_filterMap, Gathered.keysOf, Table.keys, List.filterMap_map]
  congr 1
  funext e
  by_cases hid : e.1.1 = id
  · simp [hid]
  · simp [hid]

section

variable {files : List SourceFile} {p q : Project}

/-- A scope declares under a key what its statements declare, or what it
declared before. The two are not merged: a class, an interface or
overloads of before are gone if files declare the key again. -/
theorem Collected.get?_declarationsOf (h : Collected files p q) (id : Nat) (key : DeclKey) :
    (q.index.declarationsOf id).get? key
      = (declaredUnder key (q.index.statementsOf files id)).or
          ((p.index.declarationsOf id).get? key) := by
  have hexact := Gathered.exact_foldl (q.index.fileFilings files)
  rw [h.declarations, Table.get?_insertAll, latest?_declarationsFor, Table.latest?_entries]
  exact congrArg (Option.or · _) (hexact.get?_eq id key)

/-- New keys come after the old ones, in the order in which they first
come up in the text. -/
theorem Collected.keys_declarationsOf (h : Collected files p q) (id : Nat) :
    (q.index.declarationsOf id).keys
      = appendNew (p.index.declarationsOf id).keys
          ((q.index.statementsOf files id).filterMap Statement.key?) := by
  have hkeys : (gatheredFrom q.index files).keysOf id
      = appendNew [] ((q.index.statementsOf files id).filterMap Statement.key?) :=
    (Gathered.exact_foldl (q.index.fileFilings files)).keysOf_eq id
  rw [h.declarations, Table.keys_insertAll, map_fst_declarationsFor, hkeys, appendNew_assoc,
    appendNew_nil]

end

/-- Collecting is exact. All modules of the files are registered. Under
every key, a scope declares what its named statements in the files
declare, and what it declared before if there is none; in particular
nothing is left of an earlier declaration that files declare again. The
keys of before come first, then the new ones in the order of the text. -/
theorem declarationsOf_collect {c : Conventions} {p : Project} (h : Reached c p)
    (files : List SourceFile) :
    let q := p.collect files
    q.index.FilesRegistered files
      ∧ ∀ id, let stmts := q.index.statementsOf files id
          (∀ key, (q.index.declarationsOf id).get? key
            = (declaredUnder key stmts).or ((p.index.declarationsOf id).get? key))
          ∧ (∀ key, key ∉ stmts.filterMap Statement.key? →
              (q.index.declarationsOf id).get? key = (p.index.declarationsOf id).get? key)
          ∧ (q.index.declarationsOf id).keys
            = appendNew (p.index.declarationsOf id).keys (stmts.filterMap Statement.key?) := by
  intro q
  have hcollected := p.collected files h.standing.rooted
  refine ⟨hcollected.registered, fun id => ⟨hcollected.get?_declarationsOf id, fun key hkey => ?_,
    hcollected.keys_declarationsOf id⟩⟩
  rw [hcollected.get?_declarationsOf, declaredUnder_eq_none hkey]
  rfl

/-- A module of one file: a function and a class. -/
def earlierFiles : List SourceFile :=
  [⟨"old.d.ts",
    [⟨"m", .ambient,
      [.function ⟨some "f", [], plainReference "Old", false⟩,
       .classDecl ⟨some "Kept", none, [], []⟩]⟩]⟩]

/-- The same module in two files, with overloads of the function, one
function without a name, and two blocks of an interface. -/
def laterFiles : List SourceFile :=
  [⟨"a.d.ts",
    [⟨"m", .ambient,
      [.interfaceDecl ⟨some "I", [plainReference "A"], [plainMethod "a" (plainReference "A")]⟩,
       .function ⟨some "f", [], plainReference "A", false⟩]⟩]⟩,
   ⟨"b.d.ts",
    [⟨"m", .ambient,
      [.interfaceDecl
        ⟨some "I", [plainReference "B", plainReference "A"],
          [plainMethod "b" (plainReference "B")]⟩,
       .function ⟨none, [], plainReference "B", false⟩,
       .function ⟨some "f", [], plainReference "B", false⟩]⟩]⟩]

/-- The overloads replace the earlier function in its place, the class
stays, and the interface comes last with the blocks of both files. -/
theorem declarationsOf_collect_laterFiles :
    let p := (Project.initial {}).collect earlierFiles
    let declared := (p.collect laterFiles).index.declarationsOf 1
    Reached {} p
      ∧ declared.keys = [⟨.function, "f"⟩, ⟨.classType, "Kept"⟩, ⟨.interfaceType, "I"⟩]
      ∧ declared.get? ⟨.function, "f"⟩
          = some (.functions [⟨some "f", [], plainReference "A", false⟩,
              ⟨some "f", [], plainReference "B", false⟩])
      ∧ declared.get? ⟨.classType, "Kept"⟩ = some (.classType ⟨some "Kept", none, [], []⟩)
      ∧ declared.get? ⟨.interfaceType, "I"⟩
          = some (.interfaceType ⟨some "I", [plainReference "A", plainReference "B"],
              [plainMethod "a" (plainReference "A"), plainMethod "b" (plainReference "B")]⟩) := by
  intro p declared
  have hp : Reached {} p := .collect earlierFiles .initial
  obtain ⟨-, hscope⟩ := declarationsOf_collect hp laterFiles
  obtain ⟨hget, hkept, hkeys⟩ := hscope 1
  refine ⟨hp, ?_, ?_, ?_, ?_⟩
  · rw [hkeys]
    decide +kernel
  · rw [hget]
    decide +kernel
  · rw [hkept _ (by decide +kernel)]
    decide +kernel
  · rw [hget]
    decide +kernel

end Project

end Externals
