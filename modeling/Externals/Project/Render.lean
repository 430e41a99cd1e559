import Externals.Project.Fusion

/-!
# `Externals.Project.Render`: the generated files

A scope with at least one rendered artifact becomes one file: the
module it is bound to, its package, its imports, and its artifacts,
functions first, then classes, then interfaces, each group in the
order of declaration and with blank lines in between.
-/

set_option autoImplicit false

namespace Externals

namespace Project

/-- The rendered artifacts of a scope, kind by kind. -/
def bodyOf (s : Scope) : List String :=
  DeclKind.all.flatMap fun kind =>
    (s.artifacts.entries.filter fun e => e.1.kind == kind).filterMap fun e => e.2.render?

/-- The lines before the package line. -/
def moduleLine : Option String → String
  | some name => "@file:JsModule(\"" ++ name ++ "\")\n\n"
  | none => ""

/-- The text of a file from its parts. -/
def fileText (jsModule : Option String) (package imports : String) (body : List String) : String :=
  moduleLine jsModule ++ "package " ++ package ++ "\n\n"
    ++ (if imports.isEmpty then "" else imports ++ "\n\n") ++ "\n\n".intercalate body ++ "\n"

/-- The file of a scope, if it renders anything. -/
def renderScope (p : Project) (id : Nat) : Option OutputUnit :=
  match p.index.scopes[id]? with
  | none => none
  | some s =>
      let body := bodyOf s
      if body.isEmpty then none
      else some
        { path := p.index.outputPath id,
          text := fileText (p.index.jsModuleOf id) (p.index.packageOf id)
            (p.headers.render s.header) body }

/-- One file for each scope that renders anything, in order. -/
def render (p : Project) : List OutputUnit := p.index.ids.filterMap p.renderScope

/-- All phases on a list of files: the project after them, and the
generated files. -/
def transform (p : Project) (files : List SourceFile) : Project × List OutputUnit :=
  let p := ((p.collect files).emitAll).resolveFusions
  (p, p.render)

end Project

end Externals
