import Externals.Project.Basic

/-!
# `Externals.Project.Collect`: declarations of all files

Collecting walks the files in order, each module before the ones
nested in it end, and gathers what every scope declares: all
overloads of a function, the last class of a name, and one interface
for all blocks of a name. Only when everything was gathered is it
filed in the index, so that collecting the same files again replaces
and never adds.

Scopes and imports are noted on the way.
-/

set_option autoImplicit false

namespace Externals

/-- The declarations gathered so far, by scope and key. -/
abbrev Gathered := Table (Nat × DeclKey) Declaration

/-- The base types of two blocks: those of the first, and those of
the second that are not among the ones before. -/
def mergeBases (bases : List TypeRef) : List TypeRef → List TypeRef
  | [] => bases
  | type :: types => mergeBases (if bases.contains type then bases else bases ++ [type]) types

/-- One interface for two blocks of a name. -/
def mergeInterface (first more : InterfaceDecl) : InterfaceDecl :=
  { first with
    bases := mergeBases first.bases more.bases
    members := first.members ++ more.members }

namespace Gathered

/-- A further overload of a function. -/
def addFunction (g : Gathered) (scope : Nat) (name : String) (decl : FunctionDecl) : Gathered :=
  g.upsert (scope, ⟨.function, name⟩) fun
    | some (.functions overloads) => .functions (overloads ++ [decl])
    | _ => .functions [decl]

/-- A class; an earlier one of the name is replaced. -/
def addClass (g : Gathered) (scope : Nat) (name : String) (decl : ClassDecl) : Gathered :=
  g.insert (scope, ⟨.classType, name⟩) (.classType decl)

/-- A block of an interface. -/
def addInterface (g : Gathered) (scope : Nat) (name : String) (decl : InterfaceDecl) : Gathered :=
  g.upsert (scope, ⟨.interfaceType, name⟩) fun
    | some (.interfaceType first) => .interfaceType (mergeInterface first decl)
    | _ => .interfaceType decl

end Gathered

/-- What a binding of an import declaration imports. -/
def ImportBinding.toScopeImport (source : String) : ImportBinding → ScopeImport
  | named name _ => .named source name
  | whole _ => .whole source

namespace Project

/-- Note the bindings of an import declaration. -/
def addImports (p : Project) (scope : Nat) (decl : ImportDecl) : Project :=
  { p with
    index := decl.bindings.foldl
      (fun ix b => ix.addImport scope b.localName (b.toScopeImport decl.source)) p.index }

/-- Find or make the scope of a module. -/
def enter (p : Project) (name : String) (kind : ModuleKind) (parent : Option Nat) :
    Project × Nat :=
  let (index, headers, scope) := p.index.register p.headers name kind parent
  ({ p with index := index, headers := headers }, scope)

mutual

/-- Gather from one statement of a scope's body. -/
def gatherStatement (scope : Nat) : Project × Gathered → Statement → Project × Gathered
  | (p, g), .function decl =>
      match decl.name with
      | some name => (p, g.addFunction scope name decl)
      | none => (p.report [.functionWithoutName], g)
  | (p, g), .classDecl decl =>
      match decl.name with
      | some name => (p, g.addClass scope name decl)
      | none => (p.report [.classWithoutName], g)
  | (p, g), .interfaceDecl decl =>
      match decl.name with
      | some name => (p, g.addInterface scope name decl)
      | none => (p.report [.interfaceWithoutName], g)
  | (p, g), .importDecl decl => (p.addImports scope decl, g)
  | (p, g), .moduleDecl name kind body =>
      let (p, inner) := p.enter name kind (some scope)
      gatherBody inner (p, g) body

/-- Gather from the statements of a scope's body, in order. -/
def gatherBody (scope : Nat) : Project × Gathered → List Statement → Project × Gathered
  | pg, [] => pg
  | pg, s :: ss => gatherBody scope (gatherStatement scope pg s) ss

end

/-- Gather from a module that stands in no other. -/
def gatherModule (pg : Project × Gathered) (m : Module) : Project × Gathered :=
  let (p, scope) := pg.1.enter m.name m.kind none
  gatherBody scope (p, pg.2) m.body

/-- Gather from all modules of all files. -/
def gatherFiles (p : Project) (files : List SourceFile) : Project × Gathered :=
  (files.flatMap SourceFile.modules).foldl gatherModule (p, .empty)

/-- File gathered declarations in the index. -/
def declareAll (p : Project) (g : Gathered) : Project :=
  { p with
    index := g.entries.foldl (fun ix e => ix.declare e.1.1 e.1.2 e.2) p.index }

/-- Collect the declarations of files. -/
def collect (p : Project) (files : List SourceFile) : Project :=
  let (p, g) := p.gatherFiles files
  (p.report [.collected p.index.size g.size]).declareAll g

end Project

end Externals
