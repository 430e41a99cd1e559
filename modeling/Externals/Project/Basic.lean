import Externals.Emit.Declaration

/-!
# `Externals.Project.Basic`: the state of a run

A project holds the scopes of all files, their headers, and the
events reported so far. Its phases build on one another: collect
declarations, emit them, fuse interfaces into classes, render files.
-/

set_option autoImplicit false

namespace Externals

/-- The state of a run. -/
structure Project where
  index : SymbolIndex
  headers : Headers
  events : List Event := []
deriving Inhabited

/-- A generated file. -/
structure OutputUnit where
  path : String
  text : String
deriving DecidableEq, Inhabited

namespace Project

/-- A project that knows only the global scope. -/
def initial (c : Conventions) : Project :=
  let (index, headers) := SymbolIndex.initial c {}
  { index := index, headers := headers }

/-- The project with further events logged. -/
def report (p : Project) (events : List Event) : Project :=
  { p with events := p.events ++ events }

/-- The header of a scope. -/
def headerOf (p : Project) (scope : Nat) : Nat :=
  (p.index.scopes[scope]?.map Scope.header).getD 0

/-- Put a draft down: its imports go to the child of a scope's header
with the given label, its events are reported. -/
def settle {α : Type} (p : Project) (scope : Nat) (label : String) (d : Draft α) : Project × α :=
  let (headers, header) := p.headers.child (p.headerOf scope) label
  ({ p with headers := headers.addImports header d.imports, events := p.events ++ d.events },
    d.value)

end Project

end Externals
