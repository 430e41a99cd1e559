import Externals.Log.Event
import Externals.Source.Resolve
import Externals.Source.Statement

/-!
# `Externals.Source.File`: reading declaration files

The model of a file from its text. A text in which something could
not be understood is still read, and the event says so.
-/

set_option autoImplicit false

namespace Externals

/-- The extensions of the files that are read, in lower case. -/
def sourceExtensions : List String := ["ts", "mts", "cts"]

/-- Whether a path names a declaration file: what follows its last
dot is a known extension, in any case. -/
def isSourcePath (path : String) : Bool :=
  let extension := ((Text.splitOn '.' path.toList).getLast?).getD []
  sourceExtensions.contains (String.ofList (extension.map Char.toLower))

namespace SourceFile

/-- The model of a file, and the events of reading it. -/
def ofText (path text : String) : SourceFile × List Event :=
  let (nodes, failed) := Source.program text
  (⟨path, Source.modulesOf (Source.toStatements nodes)⟩,
    if failed then [.syntaxErrors path] else [])

end SourceFile

end Externals
