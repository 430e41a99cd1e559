import Externals.Command.Run

/-!
# `Externals.Main`: the program

The outer layer: it answers a run's questions from the machine it runs
on and prints what the run says. It decides nothing itself.
-/

set_option autoImplicit false

namespace Externals.Main

/-- The cause of a failed operation. -/
def causeOf : IO.Error → FileError
  | .noFileOrDirectory .. => .notFound
  | .permissionDenied .. => .denied
  | .alreadyExists .. => .occupied
  | .inappropriateType .. => .notDirectory
  | _ => .notFound

/-- Do something that may fail. -/
def attempt {α : Type} (act : IO α) : IO (Except FileError α) := do
  try
    return .ok (← act)
  catch e => return .error (causeOf e)

/-- Make the directories that a file stands in. -/
def makeParents (path : String) : IO Unit := do
  match ((← IO.currentDir) / path).parent with
  | some parent => IO.FS.createDirAll parent
  | none => return ()

/-- The machine as a host. It starts no programs, so every formatter is
reported as not started. -/
def machine : Host IO where
  read path := do
    match ← attempt (IO.FS.readBinFile path) with
    | .error e => return .error e
    | .ok bytes =>
        match String.fromUTF8? bytes with
        | some text => return .ok text
        | none => return .error .notText
  write path text := attempt do
    makeParents path
    IO.FS.writeFile path text
  copy source target := attempt do
    makeParents target
    IO.FS.writeBinFile target (← IO.FS.readBinFile source)
  format f _ := return .error (f.program ++ ": " ++ FileError.notStarted.message)
  isDir path := do ((← IO.currentDir) / path).isDir
  isFile path := do
    let place := (← IO.currentDir) / path
    return (← place.pathExists) && !(← place.isDir)
  names path := do
    try
      let entries ← ((← IO.currentDir) / path).readDir
      return entries.toList.map fun e => e.fileName
    catch _ => return []

/-- The text of a particular of an event. -/
def fieldText : Field → String
  | .text s => s
  | .count n => toString n

/-- The line for an event. -/
def eventLine (e : Event) : String :=
  " ".intercalate
    (e.level.word :: e.message :: e.fields.map fun (key, value) => key ++ "=" ++ fieldText value)

/-- Print one line of a transcript. -/
def say : Command.Line → IO Unit
  | .out text => IO.print text
  | .err text => IO.eprint text
  | .event e => IO.eprintln (eventLine e)

end Externals.Main

/-- Run the program on the machine. -/
def main (args : List String) : IO UInt32 := do
  let own ← Externals.Command.filterVariables.mapM fun key => do
    return (key, ← IO.getEnv key)
  let lookup := fun key => (own.find? fun v => v.1 == key).bind Prod.snd
  match ← Externals.Command.run Externals.Main.machine lookup args with
  | .error _ =>
      IO.eprintln "error: invalid command line"
      return 2
  | .ok transcript =>
      transcript.lines.forM Externals.Main.say
      return UInt32.ofNat transcript.status
