import Externals.Data.Table
import Externals.Files.Basic

/-!
# `Externals.Files.Volume`: a tree of files in memory

A volume holds files and directories under lists of names, and knows
the directory that relative paths start from. Every operation yields
the reason it failed or the new volume.

* `find` says what a path leads to.
* `read`, `writeBytes` and `makeDir` act on one path.
* `makeDirs` makes all directories of a path that are missing.
* `copy` empties the target before it reads the source, so copying a
  file onto itself empties it.
-/

set_option autoImplicit false

namespace Externals

/-- What stands under a name. -/
inductive Node where
  | file (content : ByteArray)
  | directory
deriving Inhabited

/-- A tree of files. The root, the empty list of names, is always a
directory. -/
structure Volume where
  nodes : Table (List String) Node
  /-- The directory that relative paths start from. -/
  home : List String
deriving Inhabited

/-- Where a path leads: to a directory, to a file, or to a free name
in a directory. -/
inductive Place where
  | directory (key : List String)
  | file (key : List String) (content : ByteArray)
  | vacant (key : List String)
deriving Inhabited

namespace Volume

/-- A volume whose working directory is empty. -/
def fresh : Volume := ⟨Table.empty.insert ["home"] .directory, ["home"]⟩

/-! ### Looking -/

/-- What a key leads to. The empty key is the root, which is always
there. -/
def node? (v : Volume) (key : List String) : Option Node :=
  if key.isEmpty then some .directory else v.nodes.get? key

/-- Follow names from a directory. -/
def walk (v : Volume) (key : List String) : List String → Except FileError Place
  | [] => .ok (.directory key)
  | part :: parts =>
      if part == ".." then v.walk key.dropLast parts
      else
        match v.node? (key ++ [part]) with
        | some .directory => v.walk (key ++ [part]) parts
        | some (.file content) =>
            if parts.isEmpty then .ok (.file (key ++ [part]) content) else .error .notDirectory
        | none => if parts.isEmpty then .ok (.vacant (key ++ [part])) else .error .notFound

/-- Where a taken-apart path leads. -/
def locate (v : Volume) (p : PathName) : Except FileError Place :=
  match v.walk (if p.absolute then [] else v.home) p.parts with
  | .ok (.file key content) => if p.slash then .error .notDirectory else .ok (.file key content)
  | place => place

/-- Where a path leads. -/
def find (v : Volume) (path : String) : Except FileError Place :=
  if path.isEmpty then .error .notFound else v.locate (PathName.ofString path)

/-- A path leads to a directory. -/
def isDir (v : Volume) (path : String) : Bool :=
  match v.find path with
  | .ok (.directory _) => true
  | _ => false

/-- A path leads to a file. -/
def isFile (v : Volume) (path : String) : Bool :=
  match v.find path with
  | .ok (.file _ _) => true
  | _ => false

/-- The names in a directory. -/
def names (v : Volume) (path : String) : List String :=
  match v.find path with
  | .ok (.directory key) =>
      v.nodes.keys.filterMap fun k => if !k.isEmpty && k.dropLast == key then k.getLast? else none
  | _ => []

/-- The bytes of a file. -/
def readBytes (v : Volume) (path : String) : Except FileError ByteArray :=
  match v.find path with
  | .ok (.file _ content) => .ok content
  | .ok (.directory _) => .error .isDirectory
  | .ok (.vacant _) => .error .notFound
  | .error e => .error e

/-- The text of a file. -/
def read (v : Volume) (path : String) : Except FileError String :=
  match v.readBytes path with
  | .ok content =>
      match String.fromUTF8? content with
      | some text => .ok text
      | none => .error .notText
  | .error e => .error e

/-! ### Changing -/

/-- A node at a key, in the place of what was there. -/
def put (v : Volume) (key : List String) (node : Node) : Volume :=
  { v with nodes := v.nodes.insert key node }

/-- Write a file into a directory that exists. -/
def writeBytes (v : Volume) (path : String) (content : ByteArray) : Except FileError Volume :=
  match v.find path with
  | .ok (.file key _) => .ok (v.put key (.file content))
  | .ok (.vacant key) =>
      if (PathName.ofString path).slash then .error .isDirectory
      else .ok (v.put key (.file content))
  | .ok (.directory _) => .error .isDirectory
  | .error e => .error e

/-- Make one directory. -/
def makeDir (v : Volume) (p : PathName) : Except FileError Volume :=
  match v.locate p with
  | .ok (.vacant key) => .ok (v.put key .directory)
  | .ok _ => .error .occupied
  | .error e => .error e

/-- A taken-apart path leads to a directory. -/
def leadsToDir (v : Volume) (p : PathName) : Bool :=
  match v.locate p with
  | .ok (.directory _) => true
  | _ => false

/-- Make one directory unless it exists. -/
def ensureDir (v : Volume) (p : PathName) : Except FileError Volume :=
  match v.makeDir p with
  | .ok v => .ok v
  | .error e => if v.leadsToDir p then .ok v else .error e

/-- Make the directory of the first parts of a path, and the missing
ones above it. -/
def makeDirsTo (v : Volume) (p : PathName) : Nat → Except FileError Volume
  | 0 => .ok v
  | n + 1 =>
      let here := { p with parts := p.parts.take (n + 1) }
      match v.ensureDir here with
      | .error .notFound =>
          match v.makeDirsTo p n with
          | .ok v => v.ensureDir here
          | .error e => .error e
      | result => result

/-- Make a directory and all missing ones above it. -/
def makeDirs (v : Volume) (p : PathName) : Except FileError Volume := v.makeDirsTo p p.parts.length

/-- Write a file, making the directories it stands in. -/
def writeAll (v : Volume) (path : String) (content : ByteArray) :
    Except FileError Unit × Volume :=
  match v.makeDirs (PathName.ofString path).parent with
  | .error e => (.error e, v)
  | .ok v =>
      match v.writeBytes path content with
      | .error e => (.error e, v)
      | .ok v => (.ok (), v)

/-- Copy a file over another in a directory that exists. -/
def copyOver (v : Volume) (source target : String) : Except FileError Volume := do
  match ← v.find source with
  | .vacant _ => .error .notFound
  | .directory _ => .error .notFile
  | .file _ _ =>
      let emptied ← v.writeBytes target .empty
      let content ← emptied.readBytes source
      emptied.writeBytes target content

/-- Copy a file, making the directories the copy stands in. -/
def copy (v : Volume) (source target : String) : Except FileError Unit × Volume :=
  match v.makeDirs (PathName.ofString target).parent with
  | .error e => (.error e, v)
  | .ok v =>
      match v.copyOver source target with
      | .error e => (.error e, v)
      | .ok v => (.ok (), v)

/-! ### Comparing -/

/-- The files below the working directory, by relative path. -/
def files (v : Volume) : List (String × ByteArray) :=
  v.nodes.entries.filterMap fun (key, node) =>
    match node with
    | .file content =>
        if v.home.isPrefixOf key then
          some ("/".intercalate (key.drop v.home.length), content)
        else none
    | .directory => none

/-- The files that are new or differ from an earlier volume, in the
order of their paths. -/
def changes (before after : Volume) : List (String × ByteArray) :=
  let old := before.files
  (after.files.filter fun f => !old.contains f).mergeSort fun a b => !decide (b.1 < a.1)

/-- A volume with the given files and directories. Parents are made. -/
def ofFiles (files : List (String × ByteArray)) (directories : List String) : Volume :=
  let v := directories.foldl
    (fun v path => ((v.makeDirs (PathName.ofString path)).toOption).getD v) fresh
  files.foldl (fun v f => (v.writeAll f.1 f.2).2) v

end Volume

end Externals
