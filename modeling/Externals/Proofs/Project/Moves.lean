import Externals.Proofs.Project.State

/-!
# `Externals.Proofs.Project.Moves`: the walk through files, step by step

Collecting walks through nested modules. It does two things at once: it
finds out which scope every statement belongs to, making scopes on the
way, and it gathers what the statements say. The walk is a recursion over
the tree of statements. This module writes it as a run over a list.

`bodyMoves` lists what the walk does in a body: it files a statement, it
enters a module, it leaves the module it is in. A `Walk` is a state of
the collection together with its `Trail`: the scopes the walk is in, the
statements it has filed and the modules it has visited. `Walk.step` takes
one move. `run_bodyMoves` states that the run over the moves of a body
ends where `gatherBody` ends. So what one step keeps, every walk keeps,
and no later proof has to go through the tree again.

The scopes of statements and modules can also be looked up in an index
that knows all modules already. `filings` and `visits` do so, and
`follow` is the same look-up along the moves (`follow_bodyMoves`). Both
leave a trail of one kind, and `Proofs/Project/Walk.lean` shows that
every index that grew out of the one after a walk gives the trail of the
walk.

* `run_bodyMoves`: gathering from a body is a run over its moves.
* `follow_bodyMoves`: the look-ups in an index are a run over them, too.
* `bodyRegistered_iff`: a body is registered if all its visits are.
* `Grown.foldl_follow`: growth does not change a trail of registered
  modules.
-/

set_option autoImplicit false

namespace Externals

/-- A statement with the scope it belongs to. -/
abbrev Filing := Nat × Statement

/-- A module the walk comes to, with the scope it stands in and its
own. -/
structure Visit where
  name : String
  kind : ModuleKind
  parent : Nat
  scope : Nat
deriving DecidableEq

/-! ### Files as bodies -/

/-- The modules of files, as the statements of one body. A file is a
list of modules, and so a walk through files needs no rules of its own. -/
def fileBody (files : List SourceFile) : List Statement :=
  (files.flatMap SourceFile.modules).map fun m => .moduleDecl m.name m.kind m.body

/-- The modules of the first file come before those of the others. So
files are walked one after the other, and an induction on files is one
on the body. -/
theorem fileBody_cons (file : SourceFile) (files : List SourceFile) :
    fileBody (file :: files) = fileBody [file] ++ fileBody files := by
  simp [fileBody]

namespace Project

/-- Gathering from two parts of a body is gathering from one after the
other. -/
theorem gatherBody_append (scope : Nat) (pg : Project × Gathered) (ss ts : List Statement) :
    gatherBody scope pg (ss ++ ts) = gatherBody scope (gatherBody scope pg ss) ts := by
  induction ss generalizing pg with
  | nil => rw [List.nil_append, gatherBody]
  | cons s ss ih => rw [List.cons_append, gatherBody, gatherBody, ih]

/-- Files are walked through like the body of the global scope: a module
that stands in no other is entered below the root. -/
theorem gatherFiles_eq (p : Project) (files : List SourceFile) :
    p.gatherFiles files = gatherBody SymbolIndex.root (p, .empty) (fileBody files) := by
  rw [gatherFiles, fileBody]
  generalize (p, (Table.empty : Gathered)) = pg
  induction files.flatMap SourceFile.modules generalizing pg with
  | nil => rw [List.foldl_nil, List.map_nil, gatherBody]
  | cons m ms ih =>
      rw [List.foldl_cons, ih, List.map_cons, gatherBody, gatherStatement]
      rfl

/-- The walk goes on in the scope of the module. It is the only place
where the recursion changes the scope. -/
theorem gatherStatement_module (scope : Nat) (pg : Project × Gathered) (name : String)
    (kind : ModuleKind) (body : List Statement) :
    gatherStatement scope pg (.moduleDecl name kind body)
      = gatherBody (pg.1.enter name kind (some scope)).2
          ((pg.1.enter name kind (some scope)).1, pg.2) body := by
  rw [gatherStatement]

end Project

/-! ### Scopes that are looked up -/

namespace SymbolIndex

mutual

/-- The statements in a statement of a scope, each with its own scope.
The scopes of modules are looked up, none is made. -/
def filings (ix : SymbolIndex) (scope : Nat) : Statement → List Filing
  | .moduleDecl name kind body => bodyFilings ix (ix.scopeOf name kind (some scope)) body
  | .function decl => [(scope, .function decl)]
  | .classDecl decl => [(scope, .classDecl decl)]
  | .interfaceDecl decl => [(scope, .interfaceDecl decl)]
  | .importDecl decl => [(scope, .importDecl decl)]

/-- The statements in the body of a scope, in the order of the text,
each with the scope that it belongs to at the given index. -/
def bodyFilings (ix : SymbolIndex) (scope : Nat) : List Statement → List Filing
  | [] => []
  | s :: ss => filings ix scope s ++ bodyFilings ix scope ss

end

mutual

/-- The modules in a statement of a scope, each before the ones in it. A
statement that is no module visits none. -/
def visits (ix : SymbolIndex) (scope : Nat) : Statement → List Visit
  | .moduleDecl name kind body =>
      ⟨name, kind, scope, ix.scopeOf name kind (some scope)⟩
        :: bodyVisits ix (ix.scopeOf name kind (some scope)) body
  | _ => []

/-- The modules in the body of a scope, in the order of the text. -/
def bodyVisits (ix : SymbolIndex) (scope : Nat) : List Statement → List Visit
  | [] => []
  | s :: ss => visits ix scope s ++ bodyVisits ix scope ss

end

mutual

/-- All modules in a statement of a scope are registered: the module
itself under the scope, and those in it under the scope it has. -/
def Registered (ix : SymbolIndex) (scope : Nat) : Statement → Prop
  | .moduleDecl name kind body =>
      ix.HasModule name kind (some scope)
        ∧ BodyRegistered ix (ix.scopeOf name kind (some scope)) body
  | _ => True

/-- All modules in the body of a scope are registered, and so are those
inside of them, each below the scope of the module around it. -/
def BodyRegistered (ix : SymbolIndex) (scope : Nat) : List Statement → Prop
  | [] => True
  | s :: ss => Registered ix scope s ∧ BodyRegistered ix scope ss

end

/-- The statements of a module that stands in no other. -/
def moduleFilings (ix : SymbolIndex) (m : Module) : List Filing :=
  ix.bodyFilings (ix.scopeOf m.name m.kind none) m.body

/-- A module that stands in no other is registered, and all modules in
it are. -/
def ModuleRegistered (ix : SymbolIndex) (m : Module) : Prop :=
  ix.HasModule m.name m.kind none ∧ ix.BodyRegistered (ix.scopeOf m.name m.kind none) m.body

/-- The statements of files, each with its scope. -/
def fileFilings (ix : SymbolIndex) (files : List SourceFile) : List Filing :=
  (files.flatMap SourceFile.modules).flatMap ix.moduleFilings

/-- All modules of files are registered. Then a walk through the files
finds every scope it needs and makes none. -/
def FilesRegistered (ix : SymbolIndex) (files : List SourceFile) : Prop :=
  ∀ m ∈ files.flatMap SourceFile.modules, ix.ModuleRegistered m

/-- The modules of files, each with its scope. The first visit to a
scope is the one that it was made for, if the files made it. -/
def fileVisits (ix : SymbolIndex) (files : List SourceFile) : List Visit :=
  ix.bodyVisits root (fileBody files)

/-- A module that stands in no other is one of the global scope, so the
statements of files are those of one body. -/
theorem fileFilings_eq (ix : SymbolIndex) (files : List SourceFile) :
    ix.fileFilings files = ix.bodyFilings root (fileBody files) := by
  rw [fileFilings, fileBody]
  induction files.flatMap SourceFile.modules with
  | nil => rw [List.flatMap_nil, List.map_nil, bodyFilings]
  | cons m ms ih =>
      rw [List.flatMap_cons, ih, List.map_cons, bodyFilings, filings]
      rfl

/-- The same for the registration of their modules. -/
theorem filesRegistered_iff {ix : SymbolIndex} {files : List SourceFile} :
    ix.FilesRegistered files ↔ ix.BodyRegistered root (fileBody files) := by
  rw [FilesRegistered, fileBody]
  induction files.flatMap SourceFile.modules with
  | nil => simp [BodyRegistered]
  | cons m ms ih =>
      rw [List.forall_mem_cons, ih, List.map_cons, BodyRegistered, Registered]
      rfl

/-- The module of a visit is registered, below the scope that the visit
notes as its parent. -/
def Finds (ix : SymbolIndex) (v : Visit) : Prop := ix.HasModule v.name v.kind (some v.parent)

mutual

/-- All modules in a statement are registered if all its visits are
known. -/
theorem registered_iff {ix : SymbolIndex} : (s : Statement) → (scope : Nat) →
    (ix.Registered scope s ↔ ∀ v ∈ ix.visits scope s, ix.Finds v)
  | .moduleDecl name kind body, scope => by
      rw [Registered, visits, List.forall_mem_cons, bodyRegistered_iff body]
      rfl
  | .function _, _ | .classDecl _, _ | .interfaceDecl _, _ | .importDecl _, _ => by
      simp [Registered, visits]

/-- All modules in a body are registered if all its visits are known. A
condition on the tree is thereby one on a list. -/
theorem bodyRegistered_iff {ix : SymbolIndex} : (ss : List Statement) → (scope : Nat) →
    (ix.BodyRegistered scope ss ↔ ∀ v ∈ ix.bodyVisits scope ss, ix.Finds v)
  | [], _ => by simp [BodyRegistered, bodyVisits]
  | s :: ss, scope => by
      rw [BodyRegistered, bodyVisits, List.forall_mem_append, registered_iff s,
        bodyRegistered_iff ss]

end

end SymbolIndex

/-! ### Moves and trails -/

/-- A move of the walk: it files a statement in the scope it is in, it
enters a module that stands there, or it leaves the module it is in. -/
inductive Move where
  | file (s : Statement)
  | enter (name : String) (kind : ModuleKind)
  | leave

mutual

/-- The moves of a statement. A module is entered, its body is walked
through, and the module is left. -/
def Statement.moves : Statement → List Move
  | .moduleDecl name kind body => .enter name kind :: (bodyMoves body ++ [.leave])
  | .function decl => [.file (.function decl)]
  | .classDecl decl => [.file (.classDecl decl)]
  | .interfaceDecl decl => [.file (.interfaceDecl decl)]
  | .importDecl decl => [.file (.importDecl decl)]

/-- The moves of a body, in the order of the text. A module is entered
before its statements and left behind them, so moves are balanced. -/
def bodyMoves : List Statement → List Move
  | [] => []
  | s :: ss => s.moves ++ bodyMoves ss

end

/-- Where a walk is and what it has met: the scopes it is in, with the
innermost first, the statements with the scopes they were filed in, and
the modules with the scopes they were given. -/
structure Trail where
  scopes : List Nat
  filings : List Filing
  visits : List Visit

namespace Trail

open SymbolIndex (root)

/-- A walk that begins in a scope and has met nothing. -/
def start (scope : Nat) : Trail := ⟨[scope], [], []⟩

/-- The scope the walk is in. Outside of all others this is the root, so
that moves which leave too often stay harmless. -/
def here (t : Trail) : Nat := t.scopes.headD root

/-- One move, where `find` gives the scope of a module from its name,
its kind and the scope it stands in. -/
def step (find : String → ModuleKind → Nat → Nat) (t : Trail) : Move → Trail
  | .file s => { t with filings := t.filings ++ [(t.here, s)] }
  | .enter name kind =>
      { t with scopes := find name kind t.here :: t.scopes,
               visits := t.visits ++ [⟨name, kind, t.here, find name kind t.here⟩] }
  | .leave => { t with scopes := t.scopes.tail }

/-- All scopes of a trail are among the first `n`: those it is in, those
it has filed statements in, and those it has visited. -/
structure Within (t : Trail) (n : Nat) : Prop where
  root_lt : root < n
  scopes_lt : ∀ id ∈ t.scopes, id < n
  filings_lt : ∀ f ∈ t.filings, f.1 < n
  visits_lt : ∀ v ∈ t.visits, v.parent < n ∧ v.scope < n

/-- A walk that begins in such a scope is within. -/
theorem within_start {scope n : Nat} (hroot : root < n) (hscope : scope < n) :
    (start scope).Within n where
  root_lt := hroot
  scopes_lt := by
    intro id hid
    rw [List.mem_singleton.mp hid]
    exact hscope
  filings_lt := by simp [start]
  visits_lt := by simp [start]

/-- The scope the walk is in is among them, also where it has left all
others. -/
theorem Within.here_lt {t : Trail} {n : Nat} (h : t.Within n) : t.here < n := by
  rw [here, List.headD_eq_head?_getD]
  cases hhead : t.scopes.head? with
  | none => exact h.root_lt
  | some id => exact h.scopes_lt id (List.mem_of_head? hhead)

/-- One move keeps the scopes among the first `n`, if that is where the
scope of a module is found. -/
theorem Within.step {t : Trail} {n : Nat} (h : t.Within n)
    {find : String → ModuleKind → Nat → Nat} {m : Move}
    (hfind : ∀ name kind, m = .enter name kind → find name kind t.here < n) :
    (t.step find m).Within n := by
  -- Filing adds one filing, entering one scope and one visit, leaving takes a scope away;
  -- each adds only numbers below `n`.
  cases m with
  | file s =>
      refine { h with filings_lt := fun f hf => ?_ }
      rcases List.mem_append.mp hf with hold | hnew
      · exact h.filings_lt f hold
      · rw [List.mem_singleton.mp hnew]
        exact h.here_lt
  | enter name kind =>
      refine { h with scopes_lt := fun id hid => ?_, visits_lt := fun v hv => ?_ }
      · rcases List.mem_cons.mp hid with rfl | hold
        · exact hfind name kind rfl
        · exact h.scopes_lt id hold
      · rcases List.mem_append.mp hv with hold | hnew
        · exact h.visits_lt v hold
        · rw [List.mem_singleton.mp hnew]
          exact ⟨h.here_lt, hfind name kind rfl⟩
  | leave => exact { h with scopes_lt := fun id hid => h.scopes_lt id (List.mem_of_mem_tail hid) }

/-- The bound may grow, as the index does along a walk. -/
theorem Within.mono {t : Trail} {n m : Nat} (h : t.Within n) (hle : n ≤ m) : t.Within m where
  root_lt := Nat.lt_of_lt_of_le h.root_lt hle
  scopes_lt := fun id hid => Nat.lt_of_lt_of_le (h.scopes_lt id hid) hle
  filings_lt := fun f hf => Nat.lt_of_lt_of_le (h.filings_lt f hf) hle
  visits_lt := fun v hv => (h.visits_lt v hv).imp (Nat.lt_of_lt_of_le · hle)
    (Nat.lt_of_lt_of_le · hle)

/-- Visits are never forgotten. So a condition on the visits of a whole
walk holds at each move of it. -/
theorem visits_subset_step (find : String → ModuleKind → Nat → Nat) (t : Trail) (m : Move) :
    t.visits ⊆ (t.step find m).visits := by
  cases m with
  | enter name kind => exact List.subset_append_left _ _
  | file s => exact List.Subset.refl _
  | leave => exact List.Subset.refl _

end Trail

/-! ### Following the moves in an index -/

namespace SymbolIndex

/-- One move, with the scopes that an index gives for modules. In
contrast to a walk, the index does not change on the way. -/
def follow (ix : SymbolIndex) : Trail → Move → Trail :=
  Trail.step fun name kind scope => ix.scopeOf name kind (some scope)

/-- A statement is filed in the scope the trail is in. -/
theorem follow_file (ix : SymbolIndex) (t : Trail) (s : Statement) :
    ix.follow t (.file s) = { t with filings := t.filings ++ [(t.here, s)] } := rfl

/-- A module is entered in the scope that the index has for it. -/
theorem follow_enter (ix : SymbolIndex) (t : Trail) (name : String) (kind : ModuleKind) :
    ix.follow t (.enter name kind)
      = { t with scopes := ix.scopeOf name kind (some t.here) :: t.scopes,
                 visits := t.visits
                   ++ [⟨name, kind, t.here, ix.scopeOf name kind (some t.here)⟩] } := rfl

/-- Leaving a module takes its scope from the trail. -/
theorem follow_leave (ix : SymbolIndex) (t : Trail) :
    ix.follow t .leave = { t with scopes := t.scopes.tail } := rfl

mutual

/-- Along the moves of a statement, an index gives the filings and the
visits that it gives for the statement, and the walk ends in the scopes
it began in. -/
theorem follow_moves (ix : SymbolIndex) : (s : Statement) → (t : Trail) →
    s.moves.foldl ix.follow t
      = ⟨t.scopes, t.filings ++ ix.filings t.here s, t.visits ++ ix.visits t.here s⟩
  | .moduleDecl name kind body, t => by
      -- The body is followed from the scope of the module, which leaving takes off again.
      rw [Statement.moves, List.foldl_cons, List.foldl_append, follow_bodyMoves ix body, filings,
        visits]
      simp only [List.foldl_cons, List.foldl_nil, follow_enter, follow_leave, Trail.here,
        List.tail_cons, List.headD_cons, List.append_assoc, List.cons_append, List.nil_append]
  | .function _, t | .classDecl _, t | .interfaceDecl _, t | .importDecl _, t => by
      simp [Statement.moves, follow_file, filings, visits]

/-- So it does along the moves of a body: it ends in the scopes it began
in, and has filed and visited what the body holds. -/
theorem follow_bodyMoves (ix : SymbolIndex) : (ss : List Statement) → (t : Trail) →
    (bodyMoves ss).foldl ix.follow t
      = ⟨t.scopes, t.filings ++ ix.bodyFilings t.here ss, t.visits ++ ix.bodyVisits t.here ss⟩
  | [], t => by simp [bodyMoves, bodyFilings, bodyVisits]
  | s :: ss, t => by
      rw [bodyMoves, List.foldl_append, follow_moves ix s, follow_bodyMoves ix ss, bodyFilings,
        bodyVisits, ← List.append_assoc, ← List.append_assoc]
      rfl

end

/-- From the beginning of a walk, the trail has the filings and visits
of the body and nothing else. -/
theorem follow_bodyMoves_start (ix : SymbolIndex) (scope : Nat) (ss : List Statement) :
    (bodyMoves ss).foldl ix.follow (.start scope)
      = ⟨[scope], ix.bodyFilings scope ss, ix.bodyVisits scope ss⟩ :=
  ix.follow_bodyMoves ss (.start scope)

/-- Visits are never forgotten along a list of moves. -/
theorem visits_subset_foldl_follow (ix : SymbolIndex) (ms : List Move) (t : Trail) :
    t.visits ⊆ (ms.foldl ix.follow t).visits := by
  induction ms generalizing t with
  | nil => exact List.Subset.refl _
  | cons m ms ih => exact List.Subset.trans (Trail.visits_subset_step _ t m) (ih _)

section

variable {a b : SymbolIndex}

/-- An index finds modules among its own scopes, so a trail within it
stays within it. -/
theorem Rooted.within_foldl_follow (hr : a.Rooted) (ms : List Move) {t : Trail}
    (ht : t.Within a.size) : (ms.foldl a.follow t).Within a.size := by
  induction ms generalizing t with
  | nil => exact ht
  | cons m ms ih => exact ih (ht.step fun name kind _ => hr.scopeOf_lt name kind (some t.here))

/-- Statements are filed in scopes of the index, because a module that
is not registered would be given the root. -/
theorem Rooted.fileFilings_lt (hr : a.Rooted) (files : List SourceFile) :
    ∀ f ∈ a.fileFilings files, f.1 < a.size := by
  have hwithin := hr.within_foldl_follow (bodyMoves (fileBody files))
    (Trail.within_start hr.nonempty hr.nonempty)
  rw [follow_bodyMoves_start] at hwithin
  rw [fileFilings_eq]
  exact hwithin.filings_lt

/-- The scope of a known module is the same in every index that grew out
of this one. -/
theorem Grown.follow (h : a.Grown b) {t : Trail} (ht : t.Within a.size) {m : Move}
    (hknown : ∀ v ∈ (a.follow t m).visits, a.Finds v) : b.follow t m = a.follow t m := by
  cases m with
  | file s => rw [follow_file, follow_file]
  | leave => rw [follow_leave, follow_leave]
  | enter name kind =>
      have hm : a.HasModule name kind (some t.here) :=
        hknown ⟨name, kind, t.here, a.scopeOf name kind (some t.here)⟩
          (List.mem_append_right _ List.mem_cons_self)
      rw [follow_enter, follow_enter, h.scopeOf (some t.here) ht.here_lt hm]

/-- A trail of known modules stays the same while the index grows. All
visits of the trail are known, so the one of its first move is. -/
theorem Grown.foldl_follow (h : a.Grown b) (hr : a.Rooted) (ms : List Move) {t : Trail}
    (ht : t.Within a.size) (hknown : ∀ v ∈ (ms.foldl a.follow t).visits, a.Finds v) :
    ms.foldl b.follow t = ms.foldl a.follow t := by
  induction ms generalizing t with
  | nil => rw [List.foldl_nil, List.foldl_nil]
  | cons m ms ih =>
      have hstep : b.follow t m = a.follow t m :=
        h.follow ht fun v hv => hknown v (a.visits_subset_foldl_follow ms _ hv)
      rw [List.foldl_cons, List.foldl_cons, hstep]
      exact ih (ht.step fun name kind _ => hr.scopeOf_lt name kind (some t.here)) hknown

/-- Growth keeps the modules of a body registered, and its statements
and modules in their scopes. -/
theorem Grown.bodyRegistered (h : a.Grown b) (hr : a.Rooted) {scope : Nat}
    (hscope : scope < a.size) {ss : List Statement} (hss : a.BodyRegistered scope ss) :
    b.BodyRegistered scope ss ∧ b.bodyFilings scope ss = a.bodyFilings scope ss
      ∧ b.bodyVisits scope ss = a.bodyVisits scope ss := by
  have hstart := Trail.within_start hr.nonempty hscope
  have hwithin := hr.within_foldl_follow (bodyMoves ss) hstart
  -- What the walk finds in the smaller index it finds in the larger one, as long as every
  -- visit is to a module that is registered.
  have hsame := h.foldl_follow hr (bodyMoves ss) hstart
  rw [follow_bodyMoves_start] at hwithin
  simp only [follow_bodyMoves_start, Trail.mk.injEq, true_and] at hsame
  rw [bodyRegistered_iff] at hss ⊢
  obtain ⟨hfilings, hvisits⟩ := hsame hss
  refine ⟨fun v hv => ?_, hfilings, hvisits⟩
  rw [hvisits] at hv
  exact h.hasModule (some v.parent) (hwithin.visits_lt v hv).1 (hss v hv)

/-- Once all modules of files are registered, growth does not change
where their statements belong. -/
theorem Grown.filesRegistered (h : a.Grown b) (hr : a.Rooted) {files : List SourceFile}
    (hf : a.FilesRegistered files) :
    b.FilesRegistered files ∧ b.fileFilings files = a.fileFilings files := by
  rw [filesRegistered_iff] at hf ⊢
  obtain ⟨hreg, hfilings, -⟩ := h.bodyRegistered hr hr.nonempty hf
  rw [fileFilings_eq, fileFilings_eq]
  exact ⟨hreg, hfilings⟩

/-- Nor does it change the scopes of their modules. -/
theorem Grown.fileVisits (h : a.Grown b) (hr : a.Rooted) {files : List SourceFile}
    (hf : a.FilesRegistered files) : b.fileVisits files = a.fileVisits files :=
  (h.bodyRegistered hr hr.nonempty (filesRegistered_iff.mp hf)).2.2

end

end SymbolIndex

/-! ### The walk as a run -/

namespace Project

/-- Gather from a statement without going into it. For a module this is
nothing, since its body has moves of its own. -/
def gatherOne (scope : Nat) (pg : Project × Gathered) : Statement → Project × Gathered
  | .moduleDecl _ _ _ => pg
  | s => gatherStatement scope pg s

end Project

/-- A state of the collection with the trail that led to it. The state
is what the program carries; the trail is what proofs remember about the
way. -/
structure Walk where
  state : Project × Gathered
  trail : Trail

namespace Walk

/-- The index of the project as it is. -/
def index (w : Walk) : SymbolIndex := w.state.1.index

/-- The scope that a module is given when it is entered now. It may be
one that is made for it. -/
def find (w : Walk) (name : String) (kind : ModuleKind) (scope : Nat) : Nat :=
  (w.state.1.enter name kind (some scope)).2

/-- One move: a statement is gathered for the scope the walk is in, and
a module is entered there. -/
def step (w : Walk) (m : Move) : Walk where
  state :=
    match m with
    | .file s => Project.gatherOne w.trail.here w.state s
    | .enter name kind => ((w.state.1.enter name kind (some w.trail.here)).1, w.state.2)
    | .leave => w.state
  trail := w.trail.step w.find m

/-- One move after the other. -/
def run (w : Walk) (ms : List Move) : Walk := ms.foldl step w

/-- A walk that begins in a scope. -/
def start (pg : Project × Gathered) (scope : Nat) : Walk := ⟨pg, .start scope⟩

/-- The trail of a move, with the scope that the project gives for a
module. -/
theorem trail_step (w : Walk) (m : Move) : (w.step m).trail = w.trail.step w.find m := rfl

/-- Entering a module changes the project and gathers nothing. The
module may be known or new. -/
theorem state_enter (w : Walk) (name : String) (kind : ModuleKind) :
    (w.step (.enter name kind)).state
      = ((w.state.1.enter name kind (some w.trail.here)).1, w.state.2) := rfl

/-- Afterwards the walk is in the scope of the module. -/
theorem here_enter (w : Walk) (name : String) (kind : ModuleKind) :
    (w.step (.enter name kind)).trail.here = w.find name kind w.trail.here := rfl

/-- Leaving a module changes nothing but the trail. -/
theorem state_leave (w : Walk) : (w.step .leave).state = w.state := rfl

/-- A run takes its first move first. -/
theorem run_cons (w : Walk) (m : Move) (ms : List Move) :
    w.run (m :: ms) = (w.step m).run ms := rfl

/-- A run without moves stays where it is. -/
theorem run_nil (w : Walk) : w.run [] = w := rfl

/-- A run over two lists is a run over one after the other. So the moves
of a file can be taken apart from those of the next. -/
theorem run_append (w : Walk) (ms ms' : List Move) : w.run (ms ++ ms') = (w.run ms).run ms' :=
  List.foldl_append

mutual

/-- The run over the moves of a statement ends in the state that
gathering from the statement gives, and in the scopes it began in. -/
theorem run_moves : (s : Statement) → (w : Walk) →
    (w.run s.moves).state = Project.gatherStatement w.trail.here w.state s
      ∧ (w.run s.moves).trail.scopes = w.trail.scopes
  | .moduleDecl name kind body, w => by
      obtain ⟨hstate, hscopes⟩ := run_bodyMoves body (w.step (.enter name kind))
      rw [Statement.moves, run_cons, run_append, run_cons, run_nil]
      refine ⟨?_, ?_⟩
      · rw [state_leave, hstate, state_enter, here_enter, Project.gatherStatement_module, find]
      · -- The module put its scope on top, and leaving it takes this scope away again.
        rw [trail_step, Trail.step, hscopes, trail_step, Trail.step, List.tail_cons]
  | .function _, _ => ⟨rfl, rfl⟩
  | .classDecl _, _ => ⟨rfl, rfl⟩
  | .interfaceDecl _, _ => ⟨rfl, rfl⟩
  | .importDecl _, _ => ⟨rfl, rfl⟩

/-- The same for the moves of a body: gathering is a run. That the run
comes back to its scopes is part of the induction, because the rest of a
body is gathered there. -/
theorem run_bodyMoves : (ss : List Statement) → (w : Walk) →
    (w.run (bodyMoves ss)).state = Project.gatherBody w.trail.here w.state ss
      ∧ (w.run (bodyMoves ss)).trail.scopes = w.trail.scopes
  | [], _ => ⟨rfl, rfl⟩
  | s :: ss, w => by
      obtain ⟨hfirst, hscopes⟩ := run_moves s w
      obtain ⟨hrest, hscopes'⟩ := run_bodyMoves ss (w.run s.moves)
      have hhere : (w.run s.moves).trail.here = w.trail.here := by
        rw [Trail.here, Trail.here, hscopes]
      rw [bodyMoves, run_append, Project.gatherBody, ← hfirst, hrest, hscopes', hscopes, hhere]
      exact ⟨rfl, rfl⟩

end

/-- The walk through the body of a scope. -/
def through (pg : Project × Gathered) (scope : Nat) (ss : List Statement) : Walk :=
  (start pg scope).run (bodyMoves ss)

/-- It ends where gathering from the body ends. From here on gathering
can be followed move by move, and no proof has to follow the recursion
again. -/
theorem state_through (pg : Project × Gathered) (scope : Nat) (ss : List Statement) :
    (through pg scope ss).state = Project.gatherBody scope pg ss :=
  (run_bodyMoves ss (start pg scope)).1

/-- Its index is the one after gathering. Most statements about a walk
speak of this index. -/
theorem index_through (pg : Project × Gathered) (scope : Nat) (ss : List Statement) :
    (through pg scope ss).index = (Project.gatherBody scope pg ss).1.index := by
  rw [index, state_through]

/-- Visits are never forgotten along a run. -/
theorem visits_subset_run (ms : List Move) (w : Walk) :
    w.trail.visits ⊆ (w.run ms).trail.visits := by
  induction ms generalizing w with
  | nil => exact List.Subset.refl _
  | cons m ms ih => exact List.Subset.trans (Trail.visits_subset_step _ w.trail m) (ih (w.step m))

end Walk

end Externals
