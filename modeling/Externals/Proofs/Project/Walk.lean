import Externals.Proofs.Project.Moves

/-!
# `Externals.Proofs.Project.Walk`: what collecting files does

The walk of `Proofs/Project/Moves.lean` is a run of moves. This module
says what one move does, and so what a whole walk does.

A move leaves the tree of scopes alone or registers one module, so the
index after a walk is a later one in the sense of
`Proofs/Scope/Registry.lean` (`Walk.Inside.later_step`). All invariants of
registration follow from that: look-ups stay within the index, the index
only grows, and it stays consistent. `Filed` adds what the walk gathers
and imports, which is one pass over the statements with their scopes.

Scopes are never lost or renumbered, so every index that grew out of the
one after the walk gives the trail of the walk (`Walk.Inside.trail_run`).
That makes collecting the same files again easy to follow: all modules are
found, the same statements are filed, and every table takes the values it
has already.

* `gatherBody_later`: gathering from a body is a run of operations on the
  index.
* `gatherFiles_filed`: collecting is filing.
* `collect_again`: on an index that has collected the files, with
  whatever artifacts, collecting them changes neither the index nor
  the headers.
-/

set_option autoImplicit false

namespace Externals

/-! ### Filing one statement -/

/-- Gather one statement: what a function, class or interface with a
name does to the entry of its key. All other statements leave what was
gathered as it is. -/
def Gathered.add (g : Gathered) (f : Filing) : Gathered :=
  match f.2 with
  | .function decl => (decl.name.map fun name => g.addFunction f.1 name decl).getD g
  | .classDecl decl => (decl.name.map fun name => g.addClass f.1 name decl).getD g
  | .interfaceDecl decl => (decl.name.map fun name => g.addInterface f.1 name decl).getD g
  | _ => g

/-- The key that a function, class or interface with a name is filed
under. -/
def Statement.key? : Statement → Option DeclKey
  | .function decl => decl.name.map (⟨.function, ·⟩)
  | .classDecl decl => decl.name.map (⟨.classType, ·⟩)
  | .interfaceDecl decl => decl.name.map (⟨.interfaceType, ·⟩)
  | .importDecl _ | .moduleDecl _ _ _ => none

/-- Functions, classes and interfaces, with a name or without one. Those
without a name are met on the walk but declare nothing. -/
def Statement.isDeclaration : Statement → Bool
  | .function _ | .classDecl _ | .interfaceDecl _ => true
  | .importDecl _ | .moduleDecl _ _ _ => false

/-- The names an import statement binds, with what they stand for. A
statement that is no import binds none. -/
def Statement.importEntries : Statement → List (String × ScopeImport)
  | .importDecl decl => decl.bindings.map fun b => (b.localName, b.toScopeImport decl.source)
  | _ => []

/-- The names that filed statements bind in a scope, in the order of
filing. A later binding of a name replaces an earlier one. -/
def importsFor (id : Nat) (fs : List Filing) : List (String × ScopeImport) :=
  fs.flatMap fun f => if f.1 = id then f.2.importEntries else []

/-- The bindings of two lists of statements come one after the other, so
that the last one of a name is that of the later statement. -/
theorem importsFor_append (id : Nat) (fs gs : List Filing) :
    importsFor id (fs ++ gs) = importsFor id fs ++ importsFor id gs :=
  List.flatMap_append

/-! ### Collecting is filing -/

namespace Project

/-- What stays when only the contents of scopes change: the headers, and
the tree of scopes with the paths to them. -/
structure SameTree (p q : Project) : Prop where
  headers : q.headers = p.headers
  conventions : q.index.conventions = p.index.conventions
  byPath : q.index.byPath = p.index.byPath
  bare : q.index.scopes.map Scope.bare = p.index.scopes.map Scope.bare

namespace SameTree

variable {p q : Project}

/-- Nothing has changed. -/
theorem refl (p : Project) : SameTree p p := ⟨rfl, rfl, rfl, rfl⟩

/-- Two changes of contents are one, whatever they change. -/
theorem trans {r : Project} (h : SameTree p q) (h' : SameTree q r) : SameTree p r :=
  ⟨h'.headers.trans h.headers, h'.conventions.trans h.conventions, h'.byPath.trans h.byPath,
    h'.bare.trans h.bare⟩

/-- A change of contents is growth, with no scope added. So names and
paths that were computed before are still right. -/
theorem grown (h : SameTree p q) : p.index.Grown q.index :=
  .of_bare h.conventions h.byPath h.bare

/-- The number of scopes stays. -/
theorem size (h : SameTree p q) : q.index.size = p.index.size := SymbolIndex.size_of_bare h.bare

/-- Look-ups stay within the index. -/
theorem rooted (h : SameTree p q) (hr : p.index.Rooted) : q.index.Rooted :=
  hr.of_bare h.byPath h.bare

/-- The tree of scopes is as consistent as it was: consistency is about
bare scopes and paths. -/
theorem consistent (h : SameTree p q) (hp : p.index.Consistent) : q.index.Consistent :=
  hp.of_bare h.conventions h.byPath h.bare

end SameTree

/-- Noting bindings changes what one scope imports and nothing else.
Each binding is one step on the index, so the frame lemmas of steps
apply to the whole run. -/
theorem addImports_spec (p : Project) {scope : Nat} (hscope : scope < p.index.size)
    (decl : ImportDecl) :
    SameTree p (p.addImports scope decl)
      ∧ (∀ id, (p.addImports scope decl).index.importsOf id
          = (p.index.importsOf id).insertAll (importsFor id [(scope, .importDecl decl)]))
      ∧ (∀ id, (p.addImports scope decl).index.declarationsOf id = p.index.declarationsOf id)
      ∧ ∀ id, (p.addImports scope decl).index.artifactsOf id = p.index.artifactsOf id := by
  let step : SymbolIndex → ImportBinding → SymbolIndex := fun ix b =>
    ix.addImport scope b.localName (b.toScopeImport decl.source)
  have hbare : ∀ ix b, (step ix b).scopes.map Scope.bare = ix.scopes.map Scope.bare :=
    fun ix b => ix.bare_addImport scope _ _
  have hkept := fun {γ : Type} (f : SymbolIndex → γ) (h : ∀ ix b, f (step ix b) = f ix) =>
    SymbolIndex.foldl_step_eq step f h decl.bindings p.index
  have hinsert := SymbolIndex.foldl_step_insertAll_at step SymbolIndex.importsOf scope
    (fun b => (b.localName, b.toScopeImport decl.source)) hbare
    (fun ix b hix i => ix.importsOf_addImport hix _ _ i) decl.bindings hscope
  refine ⟨⟨rfl, hkept (·.conventions) fun _ _ => rfl, hkept (·.byPath) fun _ _ => rfl,
    hkept (·.scopes.map Scope.bare) hbare⟩, fun id => ?_,
    fun id => hkept (·.declarationsOf id) fun ix b => ix.declarationsOf_addImport scope _ _ id,
    fun id => hkept (·.artifactsOf id) fun ix b => ix.artifactsOf_addImport scope _ _ id⟩
  -- The entries of one statement are those of its scope, and none elsewhere.
  refine (hinsert id).trans ?_
  by_cases hid : scope = id
  · simp [importsFor, Statement.importEntries, hid]
  · simp [importsFor, hid, Table.insertAll]

/-- From one state of the walk to another by filing statements. The
index is a later one, and nothing but imports was added to its scopes.
What was gathered is one pass over the statements. -/
structure Filed (fs : List Filing) (pg qh : Project × Gathered) : Prop where
  later : pg.1.index.Later qh.1.index
  shelved : ∀ F, pg.1.Shelved F → qh.1.Shelved F
  gathered : qh.2 = fs.foldl Gathered.add pg.2
  imports : ∀ id, qh.1.index.importsOf id = (pg.1.index.importsOf id).insertAll (importsFor id fs)
  declarations : ∀ id, qh.1.index.declarationsOf id = pg.1.index.declarationsOf id
  artifacts : ∀ id, qh.1.index.artifactsOf id = pg.1.index.artifactsOf id

namespace Filed

variable {fs gs : List Filing} {x y z : Project × Gathered}

/-- No statement was filed. -/
theorem refl (x : Project × Gathered) : Filed [] x x :=
  ⟨.refl, fun _ => id, rfl, fun _ => rfl, fun _ => rfl, fun _ => rfl⟩

/-- What is filed in two parts is filed in the order of the parts. The
imports of the second part come behind those of the first. -/
theorem trans (h : Filed fs x y) (h' : Filed gs y z) : Filed (fs ++ gs) x z where
  later := Relation.ReflTransGen.trans h.later h'.later
  shelved := fun F hF => h'.shelved F (h.shelved F hF)
  gathered := by rw [h'.gathered, h.gathered, List.foldl_append]
  imports := fun id => by
    rw [h'.imports, h.imports, importsFor_append, Table.insertAll_append]
  declarations := fun id => (h'.declarations id).trans (h.declarations id)
  artifacts := fun id => (h'.artifacts id).trans (h.artifacts id)

end Filed

/-! ### One statement -/

/-- A function, class or interface is gathered for its scope. The
project at most notes that it has no name. -/
theorem gatherStatement_declaration (scope : Nat) (p : Project) (g : Gathered) {s : Statement}
    (hs : s.isDeclaration = true) :
    ∃ q : Project, gatherStatement scope (p, g) s = (q, g.add (scope, s))
      ∧ q.index = p.index ∧ q.headers = p.headers := by
  -- The three kinds of declaration differ in the note left when there is no name.
  cases s with
  | function decl =>
      cases hn : decl.name with
      | some name => exact ⟨p, by simp [gatherStatement, Gathered.add, hn], rfl, rfl⟩
      | none =>
          exact ⟨p.report [.functionWithoutName], by simp [gatherStatement, Gathered.add, hn], rfl,
            rfl⟩
  | classDecl decl =>
      cases hn : decl.name with
      | some name => exact ⟨p, by simp [gatherStatement, Gathered.add, hn], rfl, rfl⟩
      | none =>
          exact ⟨p.report [.classWithoutName], by simp [gatherStatement, Gathered.add, hn], rfl,
            rfl⟩
  | interfaceDecl decl =>
      cases hn : decl.name with
      | some name => exact ⟨p, by simp [gatherStatement, Gathered.add, hn], rfl, rfl⟩
      | none =>
          exact ⟨p.report [.interfaceWithoutName], by simp [gatherStatement, Gathered.add, hn], rfl,
            rfl⟩
  | importDecl decl => cases hs
  | moduleDecl name kind body => cases hs

/-- Gathering from a statement without going into it does one of two
things. It gathers what the statement declares and leaves the index and
the headers alone, or it notes the bindings of an import. -/
theorem gatherOne_cases (scope : Nat) (p : Project) (g : Gathered) (s : Statement) :
    (∃ q : Project, gatherOne scope (p, g) s = (q, g.add (scope, s)) ∧ q.index = p.index
        ∧ q.headers = p.headers ∧ s.importEntries = [])
      ∨ ∃ decl, s = .importDecl decl ∧ gatherOne scope (p, g) s = (p.addImports scope decl, g) := by
  -- The three kinds of declarations differ in their tables only, which the gathering hides.
  have hdeclaration : s.isDeclaration = true → s.importEntries = [] →
      gatherOne scope (p, g) s = gatherStatement scope (p, g) s →
      ∃ q : Project, gatherOne scope (p, g) s = (q, g.add (scope, s)) ∧ q.index = p.index
        ∧ q.headers = p.headers ∧ s.importEntries = [] := by
    intro hs hnone heq
    obtain ⟨q, hq, hindex, hheaders⟩ := gatherStatement_declaration scope p g hs
    exact ⟨q, heq.trans hq, hindex, hheaders, hnone⟩
  cases s with
  | function decl => exact .inl (hdeclaration rfl rfl rfl)
  | classDecl decl => exact .inl (hdeclaration rfl rfl rfl)
  | interfaceDecl decl => exact .inl (hdeclaration rfl rfl rfl)
  | importDecl decl => exact .inr ⟨decl, rfl, rfl⟩
  | moduleDecl name kind body => exact .inl ⟨p, rfl, rfl, rfl, rfl⟩

/-- Either way no scope is made: declarations are gathered aside, and
bindings are noted in a scope that is there. -/
theorem gatherOne_sameTree {scope : Nat} {p : Project} (hscope : scope < p.index.size)
    (g : Gathered) (s : Statement) : SameTree p (gatherOne scope (p, g) s).1 := by
  rcases gatherOne_cases scope p g s with ⟨q, heq, hindex, hheaders, -⟩ | ⟨decl, -, heq⟩
  · rw [heq]
    exact ⟨hheaders, congrArg _ hindex, congrArg _ hindex,
      congrArg (·.scopes.map Scope.bare) hindex⟩
  · rw [heq]
    exact (p.addImports_spec hscope decl).1

/-- Noting bindings is one operation on the index for each of them, so
invariants of single operations apply. -/
theorem later_addImports (p : Project) (scope : Nat) (decl : ImportDecl) :
    p.index.Later (p.addImports scope decl).index :=
  List.foldlRecOn (motive := p.index.Later) decl.bindings _ .refl fun _ hix b _ =>
    hix.tail (.addImport scope b.localName (b.toScopeImport decl.source))

/-- So one statement is filed: its declaration is gathered, or its
bindings are noted in its scope. -/
theorem gatherOne_filed {scope : Nat} {p : Project} (hscope : scope < p.index.size) (g : Gathered)
    (s : Statement) : Filed [(scope, s)] (p, g) (gatherOne scope (p, g) s) := by
  have htree := gatherOne_sameTree hscope g s
  -- Either the index is untouched, or the statement is an import and its lines are added.
  rcases gatherOne_cases scope p g s with ⟨q, heq, hindex, -, hnone⟩ | ⟨decl, rfl, heq⟩
  · rw [heq] at htree ⊢
    refine ⟨?_, fun F hF => hF.of_bare htree.headers htree.bare, rfl, fun id => ?_, fun id => ?_,
      fun id => ?_⟩
    · show p.index.Later q.index
      rw [hindex]
      exact .refl
    · have hentries : importsFor id [(scope, s)] = [] := by simp [importsFor, hnone]
      rw [hentries]
      exact congrArg (·.importsOf id) hindex
    · exact congrArg (·.declarationsOf id) hindex
    · exact congrArg (·.artifactsOf id) hindex
  · obtain ⟨-, himports, hdecls, harts⟩ := p.addImports_spec hscope decl
    rw [heq] at htree ⊢
    exact ⟨p.later_addImports scope decl, fun F hF => hF.of_bare htree.headers htree.bare, rfl,
      himports, hdecls, harts⟩

/-- Entering a module files nothing: it is one registration, and a new
scope is empty. -/
theorem enter_filed {p : Project} (hr : p.index.Rooted) (g : Gathered) (name : String)
    (kind : ModuleKind) {scope : Nat} (hscope : scope < p.index.size) :
    Filed [] (p, g) ((p.enter name kind (some scope)).1, g) := by
  have h := entered hr name kind (some scope) hscope
  refine ⟨.single (.register p.headers name kind (some scope) fun p hp => ?_), h.shelved, rfl,
    h.imports, h.declarations, h.artifacts⟩
  cases hp
  exact hscope

/-- The scope a module was given is one of the index. -/
theorem Entered.scope_lt {p q : Project} {name : String} {kind : ModuleKind} {parent : Option Nat}
    {scope : Nat} (h : Entered p q name kind parent scope) : scope < q.index.size := by
  rw [h.scope_eq]
  exact h.rooted.scopeOf_lt name kind parent

end Project

/-! ### The walk -/

namespace Walk

open Project (Filed)

/-- The walk is in scopes of its index, and look-ups stay within it.
Every move needs this and keeps it. -/
structure Inside (w : Walk) : Prop where
  rooted : w.index.Rooted
  within : w.trail.Within w.index.size

/-- A walk that begins in a scope of the index is inside, as long as
look-ups stay within the index. -/
theorem inside_start {p : Project} (hr : p.index.Rooted) (g : Gathered) {scope : Nat}
    (hscope : scope < p.index.size) : (start (p, g) scope).Inside :=
  ⟨hr, Trail.within_start hr.nonempty hscope⟩

namespace Inside

variable {w : Walk}

/-- The scope a module is given when it is entered, with all that
entering it does. -/
theorem entered (h : w.Inside) (name : String) (kind : ModuleKind) :
    Project.Entered w.state.1 (w.step (.enter name kind)).state.1 name kind (some w.trail.here)
      (w.find name kind w.trail.here) :=
  Project.entered h.rooted name kind (some w.trail.here) h.within.here_lt

/-- One move files at most one statement, the one that is added to the
trail. -/
theorem filed_step (h : w.Inside) {x : Project × Gathered} (hx : Filed w.trail.filings x w.state)
    (m : Move) : Filed (w.step m).trail.filings x (w.step m).state := by
  cases m with
  | file s => exact hx.trans (Project.gatherOne_filed h.within.here_lt w.state.2 s)
  | enter name kind =>
      have hfiled := hx.trans
        (Project.enter_filed h.rooted w.state.2 name kind h.within.here_lt)
      rw [List.append_nil] at hfiled
      exact hfiled
  | leave => exact hx

/-- One move is a run of operations on the index: none, one for each
binding of an import, or one registration. -/
theorem later_step (h : w.Inside) (m : Move) : w.index.Later (w.step m).index := by
  cases m with
  | file s => exact (Project.gatherOne_filed h.within.here_lt w.state.2 s).later
  | enter name kind =>
      exact (Project.enter_filed h.rooted w.state.2 name kind h.within.here_lt).later
  | leave => exact .refl

/-- So the index only grows. Only entering a module can add a scope, and
it adds it behind all others. -/
theorem grown_step (h : w.Inside) (m : Move) : w.index.Grown (w.step m).index :=
  ((h.later_step m).rooted h.rooted).2

/-- One move stays inside. The index may have grown by the scope that
the walk is in now. -/
theorem step (h : w.Inside) (m : Move) : (w.step m).Inside := by
  refine ⟨((h.later_step m).rooted h.rooted).1, ?_⟩
  refine (h.within.mono (h.grown_step m).size_le).step fun name kind hm => ?_
  subst hm
  exact (h.entered name kind).scope_lt

/-- What every move keeps holds after every run. The invariant `Inside`
is carried along, so a step may use it. -/
theorem run_induction {motive : Walk → Prop}
    (hstep : ∀ w : Walk, w.Inside → motive w → ∀ m, motive (w.step m)) (h : w.Inside)
    (hw : motive w) (ms : List Move) : (w.run ms).Inside ∧ motive (w.run ms) := by
  induction ms generalizing w with
  | nil => exact ⟨h, hw⟩
  | cons m ms ih => exact ih (h.step m) (hstep w h hw m)

/-- The index only grows along a run, by induction on the moves from the
first one on. -/
theorem grown_run (h : w.Inside) (ms : List Move) : w.index.Grown (w.run ms).index :=
  (h.run_induction (motive := fun u => w.index.Grown u.index)
    (fun _ hi hgrown m => hgrown.trans (hi.grown_step m)) (.refl _) ms).2

/-- An index that grew out of the one after a move finds the scope that
the move has found. -/
theorem trail_step (h : w.Inside) (m : Move) {ix : SymbolIndex}
    (hgrown : (w.step m).index.Grown ix) : (w.step m).trail = ix.follow w.trail m := by
  cases m with
  | file s => rfl
  | leave => rfl
  | enter name kind =>
      -- The module is registered now, and growth keeps the scope of a registered module.
      have hlater := ((h.entered name kind).later h.within.here_lt hgrown).2
      rw [ix.follow_enter, hlater]
      rfl

/-- So every index that grew out of the one after a run gives its trail.
The scopes of statements can be looked up when the walk is over. -/
theorem trail_run (h : w.Inside) (ms : List Move) {ix : SymbolIndex}
    (hgrown : (w.run ms).index.Grown ix) : (w.run ms).trail = ms.foldl ix.follow w.trail := by
  induction ms generalizing w with
  | nil => rfl
  | cons m ms ih =>
      -- The index grew on after the first move as well.
      have hfirst := h.trail_step m (((h.step m).grown_run ms).trans hgrown)
      rw [List.foldl_cons, ← hfirst]
      exact ih (h.step m) hgrown

/-- Modules are known from the moment they are entered, and growth does
not forget them. -/
theorem finds_step (h : w.Inside) (hknown : ∀ v ∈ w.trail.visits, w.index.Finds v) (m : Move) :
    ∀ v ∈ (w.step m).trail.visits, (w.step m).index.Finds v := by
  -- A step only adds modules, so the visits made before it stay registered.
  have hold : ∀ v ∈ w.trail.visits, (w.step m).index.Finds v := fun v hv =>
    (h.grown_step m).hasModule (some v.parent) (h.within.visits_lt v hv).1 (hknown v hv)
  cases m with
  | file s => exact hold
  | leave => exact hold
  | enter name kind =>
      intro v hv
      rcases List.mem_append.mp hv with hmem | hnew
      · exact hold v hmem
      · rw [List.mem_singleton.mp hnew]
        exact (h.entered name kind).registered

end Inside

end Walk

namespace Project

section

variable {p : Project} (hr : p.index.Rooted) (g : Gathered) {scope : Nat}
  (hscope : scope < p.index.size) (ss : List Statement)

include hr hscope

/-- What every move keeps holds after the walk through a body. This is
the induction principle that all statements about gathering use. -/
theorem through_induction {motive : Walk → Prop}
    (hstep : ∀ w : Walk, w.Inside → motive w → ∀ m, motive (w.step m))
    (hstart : motive (.start (p, g) scope)) : motive (.through (p, g) scope ss) :=
  ((Walk.inside_start hr g hscope).run_induction hstep hstart (bodyMoves ss)).2

/-- Gathering from a body is a run of operations on the index. All
invariants of registration follow from this. -/
theorem gatherBody_later : p.index.Later (gatherBody scope (p, g) ss).1.index := by
  rw [← Walk.index_through]
  exact through_induction (motive := fun w => p.index.Later w.index) hr g hscope ss
    (fun _ hi hlater m => Relation.ReflTransGen.trans hlater (hi.later_step m)) .refl

/-- The filings and visits of the walk are those of every index that
grew out of the one after it. -/
theorem trail_through {ix : SymbolIndex}
    (hgrown : (gatherBody scope (p, g) ss).1.index.Grown ix) :
    (Walk.through (p, g) scope ss).trail
      = ⟨[scope], ix.bodyFilings scope ss, ix.bodyVisits scope ss⟩ := by
  rw [← Walk.index_through] at hgrown
  rw [← ix.follow_bodyMoves_start]
  exact (Walk.inside_start hr g hscope).trail_run (bodyMoves ss) hgrown

/-- Gathering from a body files the statements in it, each in the scope
that the index has for it in the end. -/
theorem gatherBody_filed :
    Filed ((gatherBody scope (p, g) ss).1.index.bodyFilings scope ss) (p, g)
      (gatherBody scope (p, g) ss) := by
  have hfiled : Filed (Walk.through (p, g) scope ss).trail.filings (p, g)
      (Walk.through (p, g) scope ss).state :=
    through_induction hr g hscope ss (fun _ hi hf m => hi.filed_step hf m) (Filed.refl (p, g))
  rw [trail_through hr g hscope ss (.refl _), Walk.state_through] at hfiled
  exact hfiled

/-- It registers the modules in it, also those inside of others, each
below the scope of the module around it. -/
theorem gatherBody_registered :
    (gatherBody scope (p, g) ss).1.index.BodyRegistered scope ss := by
  have hknown : ∀ v ∈ (Walk.through (p, g) scope ss).trail.visits,
      (Walk.through (p, g) scope ss).index.Finds v :=
    through_induction hr g hscope ss (fun _ hi hk m => hi.finds_step hk m) (fun _ hv => nomatch hv)
  rw [trail_through hr g hscope ss (.refl _), Walk.index_through] at hknown
  exact (SymbolIndex.bodyRegistered_iff ss scope).mpr hknown

end

/-- Collecting files is filing their statements, and registers their
modules. Files are walked through like the body of the global scope. -/
theorem gatherFiles_filed (p : Project) (files : List SourceFile) (hr : p.index.Rooted) :
    Filed ((p.gatherFiles files).1.index.fileFilings files) (p, .empty) (p.gatherFiles files)
      ∧ (p.gatherFiles files).1.index.FilesRegistered files := by
  rw [SymbolIndex.fileFilings_eq, SymbolIndex.filesRegistered_iff, gatherFiles_eq]
  exact ⟨gatherBody_filed hr .empty hr.nonempty (fileBody files),
    gatherBody_registered hr .empty hr.nonempty (fileBody files)⟩

/-! ### Declarations -/

/-- The gathered declarations of one scope, in the order in which their
keys were gathered. -/
def declarationsFor (id : Nat) (es : List ((Nat × DeclKey) × Declaration)) :
    List (DeclKey × Declaration) :=
  es.filterMap fun e => if e.1.1 = id then some (e.1.2, e.2) else none

/-- Filing declarations changes what scopes declare and nothing else.
Every gathered declaration has to belong to a scope, which the walk
guarantees. -/
theorem declareAll_spec (p : Project) (g : Gathered) (hlt : ∀ k ∈ g.keys, k.1 < p.index.size) :
    SameTree p (p.declareAll g)
      ∧ (∀ id, (p.declareAll g).index.importsOf id = p.index.importsOf id)
      ∧ (∀ id, (p.declareAll g).index.declarationsOf id
          = (p.index.declarationsOf id).insertAll (declarationsFor id g.entries))
      ∧ ∀ id, (p.declareAll g).index.artifactsOf id = p.index.artifactsOf id := by
  let step : SymbolIndex → (Nat × DeclKey) × Declaration → SymbolIndex := fun ix e =>
    ix.declare e.1.1 e.1.2 e.2
  have hbare : ∀ ix e, (step ix e).scopes.map Scope.bare = ix.scopes.map Scope.bare :=
    fun ix e => ix.bare_declare e.1.1 _ _
  -- Every step leaves the tree, the imports and the artifacts alone and inserts one
  -- declaration.
  have hkept := fun {γ : Type} (f : SymbolIndex → γ) (h : ∀ ix e, f (step ix e) = f ix) =>
    SymbolIndex.foldl_step_eq step f h g.entries p.index
  have hinsert := SymbolIndex.foldl_step_insertAll step SymbolIndex.declarationsOf
    (fun e => (e.1.1, e.1.2, e.2)) hbare
    (fun ix e hix i => ix.declarationsOf_declare hix _ _ i) g.entries
    fun e he => hlt e.1 (List.mem_map_of_mem he)
  exact ⟨⟨rfl, hkept (·.conventions) fun _ _ => rfl, hkept (·.byPath) fun _ _ => rfl,
    hkept (·.scopes.map Scope.bare) hbare⟩,
    fun id => hkept (·.importsOf id) fun ix e => ix.importsOf_declare e.1.1 _ _ id, hinsert,
    fun id => hkept (·.artifactsOf id) fun ix e => ix.artifactsOf_declare e.1.1 _ _ id⟩

/-- What a statement does to what was gathered: nothing without a name,
and otherwise what its kind does to the entry of its key. -/
theorem add_cases (g : Gathered) (f : Filing) :
    (f.2.key? = none ∧ g.add f = g)
      ∨ (∃ decl name, f.2 = .function decl ∧ decl.name = some name
          ∧ g.add f = g.addFunction f.1 name decl)
      ∨ (∃ decl name, f.2 = .classDecl decl ∧ decl.name = some name
          ∧ g.add f = g.addClass f.1 name decl)
      ∨ ∃ decl name, f.2 = .interfaceDecl decl ∧ decl.name = some name
          ∧ g.add f = g.addInterface f.1 name decl := by
  obtain ⟨scope, s⟩ := f
  -- A statement is added iff it declares something that has a name.
  cases s with
  | function decl =>
      cases hn : decl.name with
      | none => exact .inl (by simp [Statement.key?, Gathered.add, hn])
      | some name => exact .inr (.inl ⟨decl, name, rfl, hn, by simp [Gathered.add, hn]⟩)
  | classDecl decl =>
      cases hn : decl.name with
      | none => exact .inl (by simp [Statement.key?, Gathered.add, hn])
      | some name => exact .inr (.inr (.inl ⟨decl, name, rfl, hn, by simp [Gathered.add, hn]⟩))
  | interfaceDecl decl =>
      cases hn : decl.name with
      | none => exact .inl (by simp [Statement.key?, Gathered.add, hn])
      | some name => exact .inr (.inr (.inr ⟨decl, name, rfl, hn, by simp [Gathered.add, hn]⟩))
  | moduleDecl name kind body => exact .inl ⟨rfl, rfl⟩
  | importDecl decl => exact .inl ⟨rfl, rfl⟩

/-- A statement adds keys of its own scope only. So the keys of a scope
come from the statements that were filed in it. -/
theorem mem_keys_add {g : Gathered} {f : Filing} {k : Nat × DeclKey} (h : k ∈ (g.add f).keys) :
    k ∈ g.keys ∨ k.1 = f.1 := by
  have hinsert : ∀ key decl, k ∈ (Table.insert g (f.1, key) decl).keys → k ∈ g.keys ∨ k.1 = f.1 :=
    fun key decl hk => (Table.mem_keys_insert.mp hk).imp_right (congrArg Prod.fst)
  -- The three cases that add something add it under a key of the filing's own scope.
  rcases add_cases g f with ⟨-, heq⟩ | ⟨decl, name, -, -, heq⟩ | ⟨decl, name, -, -, heq⟩
    | ⟨decl, name, -, -, heq⟩
  · rw [heq] at h
    exact .inl h
  all_goals
    rw [heq] at h
    exact hinsert _ _ h

/-- Everything gathered belongs to a scope that something was filed in,
and so to one of the index. -/
theorem lt_of_mem_keys_gathered {n : Nat} {fs : List Filing} (hfs : ∀ f ∈ fs, f.1 < n)
    {g : Gathered} (hg : ∀ k ∈ g.keys, k.1 < n) :
    ∀ k ∈ (fs.foldl Gathered.add g).keys, k.1 < n := by
  induction fs generalizing g with
  | nil => exact hg
  | cons f fs ih =>
      refine ih (fun f' hf' => hfs f' (.tail _ hf')) fun k hk => ?_
      rcases mem_keys_add hk with hold | heq
      · exact hg k hold
      · rw [heq]
        exact hfs f (.head _)

/-- All that files say, gathered in one pass over their statements. The
scopes are those that the given index has for their modules. -/
def gatheredFrom (ix : SymbolIndex) (files : List SourceFile) : Gathered :=
  (ix.fileFilings files).foldl Gathered.add .empty

/-- What collecting files does to a project. The imports and
declarations of every scope are those it had, with the ones of the files
put over them. Artifacts and shelves stay. -/
structure Collected (files : List SourceFile) (p q : Project) : Prop where
  rooted : q.index.Rooted
  grown : p.index.Grown q.index
  consistent : p.index.Consistent → q.index.Consistent
  registered : q.index.FilesRegistered files
  shelved : ∀ F, p.Shelved F → q.Shelved F
  imports : ∀ id, q.index.importsOf id
    = (p.index.importsOf id).insertAll (importsFor id (q.index.fileFilings files))
  declarations : ∀ id, q.index.declarationsOf id
    = (p.index.declarationsOf id).insertAll
        (declarationsFor id (gatheredFrom q.index files).entries)
  artifacts : ∀ id, q.index.artifactsOf id = p.index.artifactsOf id

/-- Collecting is gathering, a report, and filing what was gathered.
Declarations are filed at the end, so that blocks of one interface are
merged first. -/
theorem collect_eq (p : Project) (files : List SourceFile) :
    p.collect files
      = ((p.gatherFiles files).1.report
          [.collected (p.gatherFiles files).1.index.size (p.gatherFiles files).2.size]).declareAll
            (p.gatherFiles files).2 := rfl

/-- Every gathered declaration belongs to a scope of the project. -/
theorem lt_of_mem_keys_gatherFiles (p : Project) (files : List SourceFile) (hr : p.index.Rooted) :
    ∀ k ∈ (p.gatherFiles files).2.keys, k.1 < (p.gatherFiles files).1.index.size := by
  obtain ⟨hfiled, -⟩ := p.gatherFiles_filed files hr
  obtain ⟨hrooted, -⟩ := hfiled.later.rooted hr
  rw [hfiled.gathered]
  exact lt_of_mem_keys_gathered (hrooted.fileFilings_lt files) nofun

/-- The last part of collecting makes no scopes: it reports how much was
collected, and files declarations in scopes that are there. -/
theorem sameTree_collect (p : Project) (files : List SourceFile) (hr : p.index.Rooted) :
    SameTree (p.gatherFiles files).1 (p.collect files) := by
  have hlt := p.lt_of_mem_keys_gatherFiles files hr
  obtain ⟨htree, -⟩ := ((p.gatherFiles files).1.report
    [.collected (p.gatherFiles files).1.index.size (p.gatherFiles files).2.size]).declareAll_spec
      (p.gatherFiles files).2 hlt
  exact ⟨htree.headers, htree.conventions, htree.byPath, htree.bare⟩

/-- Collecting does what `Collected` lists, on every project whose
look-ups stay within its index. -/
theorem collected (p : Project) (files : List SourceFile) (hr : p.index.Rooted) :
    Collected files p (p.collect files) := by
  obtain ⟨hfiled, hreg⟩ := p.gatherFiles_filed files hr
  obtain ⟨hrooted, hgathers⟩ := hfiled.later.rooted hr
  have hlt := p.lt_of_mem_keys_gatherFiles files hr
  rw [collect_eq]
  generalize hq : (p.gatherFiles files).1.report
    [.collected (p.gatherFiles files).1.index.size (p.gatherFiles files).2.size] = q
  have hindex : q.index = (p.gatherFiles files).1.index := by rw [← hq]; rfl
  have hheaders : q.headers = (p.gatherFiles files).1.headers := by rw [← hq]; rfl
  obtain ⟨htree, himports, hdecls, harts⟩ :=
    q.declareAll_spec (p.gatherFiles files).2 (by rw [hindex]; exact hlt)
  have hgrown : (p.gatherFiles files).1.index.Grown
      (q.declareAll (p.gatherFiles files).2).index := by
    rw [← hindex]
    exact htree.grown
  obtain ⟨hreg', hsame⟩ := hgrown.filesRegistered hrooted hreg
  -- Filing declarations makes no scope, so the final index gives the filings of the walk.
  have hgathered : (p.gatherFiles files).2
      = gatheredFrom (q.declareAll (p.gatherFiles files).2).index files := by
    rw [gatheredFrom, hsame]
    exact hfiled.gathered
  refine ⟨htree.rooted (by rw [hindex]; exact hrooted), hgathers.trans hgrown,
    fun hp => htree.consistent (by rw [hindex]; exact (hfiled.later.consistent hp).1), hreg',
    fun F hF => ?_, fun id => ?_, fun id => ?_, fun id => ?_⟩
  · have hgathered : q.Shelved F := (hfiled.shelved F hF).of_bare hheaders (by rw [hindex])
    exact hgathered.of_bare htree.headers htree.bare
  · rw [himports, hindex, hsame]
    exact hfiled.imports id
  · rw [hdecls, hindex, hfiled.declarations, ← hgathered]
  · rw [harts, hindex]
    exact hfiled.artifacts id

/-! ### Keys -/

end Project

/-- A declaration is of the kind of its key, and carries its name if it
carries one at all. The overloads of a function need not carry it. -/
def Declaration.FitsKey (key : DeclKey) : Declaration → Prop
  | .functions _ => key.kind = .function
  | .classType decl => key.kind = .classType ∧ decl.name = some key.name
  | .interfaceType decl => key.kind = .interfaceType ∧ decl.name = some key.name

/-- Everything gathered fits its key: it is of the kind of the key and
carries its name. -/
def Gathered.Fits (g : Gathered) : Prop := ∀ k decl, g.get? k = some decl → decl.FitsKey k.2

/-- An entry that fits its key may be set. -/
theorem Gathered.Fits.insert {g : Gathered} (h : g.Fits) {k : Nat × DeclKey} {decl : Declaration}
    (hk : decl.FitsKey k.2) : Gathered.Fits (Table.insert g k decl) := by
  intro k' decl' hget
  rw [Table.get?_insert] at hget
  split at hget
  · rename_i heq
    cases hget
    rw [← heq]
    exact hk
  · exact h k' decl' hget

/-- Gathering a statement keeps this. An interface that is declared in
several blocks keeps the name of the first one. -/
theorem Gathered.Fits.add {g : Gathered} (h : g.Fits) (f : Filing) : (g.add f).Fits := by
  rcases Project.add_cases g f with ⟨-, heq⟩ | ⟨decl, name, -, hname, heq⟩
    | ⟨decl, name, -, hname, heq⟩ | ⟨decl, name, -, hname, heq⟩
  · rw [heq]
    exact h
  · rw [heq]
    refine h.insert ?_
    dsimp only
    split <;> rfl
  · rw [heq]
    exact h.insert ⟨rfl, hname⟩
  · rw [heq]
    refine h.insert ?_
    dsimp only
    split
    · rename_i first hfirst
      -- The first block was gathered under the same key.
      exact h _ _ hfirst
    · exact ⟨rfl, hname⟩

/-- So does gathering any number of statements, by induction on them. -/
theorem Gathered.Fits.addAll {g : Gathered} (h : g.Fits) (fs : List Filing) :
    Gathered.Fits (fs.foldl Gathered.add g) := by
  induction fs generalizing g with
  | nil => exact h
  | cons f fs ih => exact ih (h.add f)

/-- Everything an index declares fits its key. Emission and fusion look
declarations up by key, and rely on this to find what they look for. -/
def SymbolIndex.WellKeyed (ix : SymbolIndex) : Prop :=
  ∀ id key decl, (ix.declarationsOf id).get? key = some decl → decl.FitsKey key

/-- The kind of a declaration. -/
def Declaration.kind : Declaration → DeclKind
  | .functions _ => .function
  | .classType _ => .classType
  | .interfaceType _ => .interfaceType

/-- A declaration that fits its key is of its kind. -/
theorem Declaration.FitsKey.kind_eq {key : DeclKey} {decl : Declaration} (h : decl.FitsKey key) :
    decl.kind = key.kind := by
  cases decl with
  | functions overloads => exact Eq.symm h
  | classType decl => exact h.1.symm
  | interfaceType decl => exact h.1.symm

namespace SymbolIndex

/-- Every declaration is of the kind of its key. Then the keys of a
scope say what it declares. -/
def KeyedByKind (ix : SymbolIndex) : Prop :=
  ∀ id key decl, (ix.declarationsOf id).get? key = some decl → decl.kind = key.kind

/-- The names in declarations do not matter for this. -/
theorem WellKeyed.keyedByKind {ix : SymbolIndex} (h : ix.WellKeyed) : ix.KeyedByKind :=
  fun id key decl hget => (h id key decl hget).kind_eq

/-- Then a scope has the classes whose keys it declares. Without this
the key of a class could be taken by something else. -/
theorem KeyedByKind.hasClass_iff {ix : SymbolIndex} (h : ix.KeyedByKind) (id : Nat)
    (name : String) :
    ix.hasClass id name = true ↔ ⟨.classType, name⟩ ∈ (ix.declarationsOf id).keys := by
  rw [hasClass, class?_eq, classIn]
  -- Under a class's key there is a class or nothing: the other two kinds do not fit the key.
  cases hget : (ix.declarationsOf id).get? ⟨.classType, name⟩ with
  | none => simpa using Table.get?_eq_none_iff.mp hget
  | some decl =>
      have hkind := h id _ decl hget
      cases decl with
      | classType decl => simpa using Table.mem_keys_of_get? hget
      | functions overloads => cases hkind
      | interfaceType decl => cases hkind

end SymbolIndex

namespace Project

/-- Collecting keeps an index well keyed: a declaration is one of the
files or was there before. -/
theorem Collected.wellKeyed {files : List SourceFile} {p q : Project} (h : Collected files p q)
    (hp : p.index.WellKeyed) : q.index.WellKeyed := by
  intro id key decl hget
  rw [h.declarations, Table.get?_insertAll, Option.or_eq_some_iff] at hget
  -- A declaration found was put there by this collection, where it fits its key, or was
  -- there before.
  rcases hget with hnew | ⟨-, hold⟩
  · have hmem := Table.mem_of_latest? hnew
    rw [declarationsFor, List.mem_filterMap] at hmem
    obtain ⟨e, he, heq⟩ := hmem
    split at heq
    · cases heq
      have hfits : Gathered.Fits (gatheredFrom q.index files) :=
        Gathered.Fits.addAll (fun _ _ h => by simp at h) _
      exact hfits e.1 e.2 (Table.get?_of_mem_entries he)
    · cases heq
  · exact hp id key decl hold

/-! ### Collecting again -/

/-- A move makes no scope where the module it enters is known to an
index with the same tree. It leaves the trail that this index gives. -/
theorem sameTree_step {p : Project} {w : Walk} (hw : w.Inside) (htree : SameTree p w.state.1)
    {m : Move} (hknown : ∀ v ∈ (p.index.follow w.trail m).visits, p.index.Finds v) :
    SameTree p (w.step m).state.1 ∧ (w.step m).trail = p.index.follow w.trail m := by
  have hwithin : w.trail.Within p.index.size := by
    rw [← htree.size]
    exact hw.within
  cases m with
  | file s => exact ⟨htree.trans (gatherOne_sameTree hw.within.here_lt w.state.2 s), rfl⟩
  | leave => exact ⟨htree, rfl⟩
  | enter name kind =>
      have hm : p.index.HasModule name kind (some w.trail.here) :=
        hknown ⟨name, kind, w.trail.here, p.index.scopeOf name kind (some w.trail.here)⟩
          (List.mem_append_right _ List.mem_cons_self)
      -- The project of the walk finds the module, too, and in the same scope.
      have hkept := enter_kept (htree.grown.hasModule (some w.trail.here) hwithin.here_lt hm)
      have hscope := htree.grown.scopeOf (some w.trail.here) hwithin.here_lt hm
      refine ⟨?_, ?_⟩
      · show SameTree p (w.state.1.enter name kind (some w.trail.here)).1
        rw [hkept]
        exact htree
      · rw [Walk.trail_step, p.index.follow_enter, Trail.step, Walk.find, hkept, hscope]

/-- Where all modules are registered, the walk makes no scope. The
visits of the whole run are known, so those of its first move are. -/
theorem sameTree_run {p : Project} (ms : List Move) {w : Walk} (hw : w.Inside)
    (htree : SameTree p w.state.1)
    (hknown : ∀ v ∈ (ms.foldl p.index.follow w.trail).visits, p.index.Finds v) :
    SameTree p (w.run ms).state.1 := by
  induction ms generalizing w with
  | nil => exact htree
  | cons m ms ih =>
      obtain ⟨hstep, htrail⟩ := sameTree_step hw htree (m := m) fun v hv =>
        hknown v (p.index.visits_subset_foldl_follow ms _ hv)
      refine ih (hw.step m) hstep ?_
      rw [htrail]
      exact hknown

/-- Collecting files whose modules are all registered makes no scope:
every module is found where it was. -/
theorem gatherFiles_sameTree {p : Project} {files : List SourceFile} (hr : p.index.Rooted)
    (hreg : p.index.FilesRegistered files) : SameTree p (p.gatherFiles files).1 := by
  rw [SymbolIndex.filesRegistered_iff, SymbolIndex.bodyRegistered_iff] at hreg
  rw [gatherFiles_eq, ← Walk.state_through]
  refine sameTree_run _ (Walk.inside_start hr .empty hr.nonempty) (.refl p) ?_
  rw [show (Walk.start (p, .empty) SymbolIndex.root).trail = .start SymbolIndex.root from rfl,
    SymbolIndex.follow_bodyMoves_start]
  exact hreg

/-- The index has collected the files: their modules are registered, and
filing what they say changes nothing. -/
structure HasCollected (ix : SymbolIndex) (files : List SourceFile) : Prop where
  rooted : ix.Rooted
  registered : ix.FilesRegistered files
  imports : ∀ id, (ix.importsOf id).insertAll (importsFor id (ix.fileFilings files))
    = ix.importsOf id
  declarations : ∀ id,
    (ix.declarationsOf id).insertAll (declarationsFor id (gatheredFrom ix files).entries)
      = ix.declarationsOf id

/-- After collecting files, an index has collected them: a table takes
the same entries a second time without a change. -/
theorem Collected.hasCollected {files : List SourceFile} {p q : Project}
    (h : Collected files p q) : HasCollected q.index files where
  rooted := h.rooted
  registered := h.registered
  imports := fun id => by rw [h.imports, Table.insertAll_insertAll_self]
  declarations := fun id => by rw [h.declarations, Table.insertAll_insertAll_self]

/-- Artifacts do not matter to what was collected. So an emission or a
fusion in between changes nothing about it. -/
theorem HasCollected.of_contents {a b : SymbolIndex} {files : List SourceFile}
    (h : HasCollected a files) (hc : b.conventions = a.conventions) (hp : b.byPath = a.byPath)
    (hb : b.scopes.map Scope.bare = a.scopes.map Scope.bare)
    (hi : ∀ id, b.importsOf id = a.importsOf id)
    (hd : ∀ id, b.declarationsOf id = a.declarationsOf id) : HasCollected b files := by
  have hgrown : a.Grown b := .of_bare hc hp hb
  obtain ⟨hreg, hsame⟩ := hgrown.filesRegistered h.rooted h.registered
  refine ⟨h.rooted.of_bare hp hb, hreg, fun id => ?_, fun id => ?_⟩
  · rw [hi, hsame, h.imports]
  · rw [hd, gatheredFrom, hsame]
    exact h.declarations id

/-- Collecting files again changes neither the index nor the headers.
The modules are found, the bindings are noted as they are, and each
declaration replaces itself. -/
theorem collect_again {p : Project} {files : List SourceFile} (h : HasCollected p.index files) :
    (p.collect files).index = p.index ∧ (p.collect files).headers = p.headers := by
  have hcollected := p.collected files h.rooted
  have htree : SameTree p (p.collect files) :=
    (gatherFiles_sameTree h.rooted h.registered).trans (p.sameTree_collect files h.rooted)
  have hsame := (htree.grown.filesRegistered h.rooted h.registered).2
  -- The tree is the same, so the same filings are inserted into tables that hold them already.
  refine ⟨SymbolIndex.ext_contents htree.conventions htree.byPath htree.bare (fun id => ?_)
    (fun id => ?_) hcollected.artifacts, htree.headers⟩
  · rw [hcollected.imports, hsame, h.imports]
  · rw [hcollected.declarations, gatheredFrom, hsame]
    exact h.declarations id

end Project

end Externals
