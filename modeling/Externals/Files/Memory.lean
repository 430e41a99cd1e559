import Externals.Files.Host
import Externals.Files.Volume
import Externals.Text.Blank

/-!
# `Externals.Files.Memory`: a host that is a value

All that a run asks of its surroundings, answered by a volume. Nothing
outside it is read or changed, so a run on this host is a function of
the volume it starts from. Formatters are programs of the surroundings.
What they do is not known here, so the programs that can be started are a
parameter of the host: what is said about runs in memory holds for all of
them.
-/

set_option autoImplicit false

namespace Externals

/-- How a program ended. -/
inductive ExitStatus where
  | code (n : Nat)
  | signal (n : Nat)
deriving DecidableEq, Inhabited

namespace ExitStatus

/-- A program ended without a complaint. -/
def isSuccess (s : ExitStatus) : Bool := s == code 0

/-- The names of signals. -/
def signalNames : List (Nat × String) :=
  [(1, "HUP"), (2, "INT"), (3, "QUIT"), (4, "ILL"), (5, "TRAP"), (6, "ABRT"), (7, "BUS"),
   (8, "FPE"), (9, "KILL"), (10, "USR1"), (11, "SEGV"), (12, "USR2"), (13, "PIPE"), (14, "ALRM"),
   (15, "TERM")]

/-- The signals after which the memory of a program is kept. -/
def dumpingSignals : List Nat := [3, 4, 5, 6, 7, 8, 11]

/-- The words for a status: a number, or a signal with its name. -/
def message : ExitStatus → String
  | code n => "exit status: " ++ toString n
  | signal n =>
      let name := ((signalNames.lookup n).map fun name => " (SIG" ++ name ++ ")").getD ""
      let dump := if dumpingSignals.contains n then " (core dumped)" else ""
      "signal: " ++ toString n ++ name ++ dump

end ExitStatus

/-- What a program did: the volume it left, how it ended, and what it
said on its error stream. -/
structure Outcome where
  volume : Volume
  status : ExitStatus
  err : ByteArray
deriving Inhabited

/-- The programs of the surroundings: what starting one by its name with
arguments comes to on a volume, or why it cannot be started. -/
abbrev Programs := Volume → String → List String → Except FileError Outcome

/-- The end of a formatter, as a result. A formatter that fails is
described by its status and by what it said. -/
def formatResult (o : Outcome) : Except String Unit :=
  if o.status.isSuccess then .ok ()
  else
    .error (o.status.message ++ " (" ++
      Text.trimString ((String.fromUTF8? o.err).getD "�") ++ ")")

/-- Run a formatter on a file of a volume. -/
def Volume.format (start : Programs) (v : Volume) (f : Formatter) (path : String) :
    Except String Unit × Volume :=
  match start v f.program (f.args ++ [path]) with
  | .error cause => (.error (f.program ++ ": " ++ cause.message), v)
  | .ok o => (formatResult o, o.volume)

/-- The host of a volume with the programs that can be started. -/
def Host.memory (start : Programs) : Host (StateM Volume) where
  read path := return (← get).read path
  write path text := modifyGet fun v => v.writeAll path text.toUTF8
  copy source target := modifyGet fun v => v.copy source target
  format f path := modifyGet fun v => v.format start f path
  isDir path := return (← get).isDir path
  isFile path := return (← get).isFile path
  names path := return (← get).names path

end Externals
