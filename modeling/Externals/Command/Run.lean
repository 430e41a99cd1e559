import Externals.Command.Options
import Externals.Declaration.Dump
import Externals.Files.Publish
import Externals.Log.Filter
import Externals.Project.Render

/-!
# `Externals.Command.Run`: one run of the program

A run reads its settings and its sources from a host, generates the
output and delivers it. What it says on the way is a list of lines, so
a run is a computation on the host alone and nothing is printed here.
-/

set_option autoImplicit false

namespace Externals.Command

/-- Something a run says. -/
inductive Line where
  | out (text : String)
  | err (text : String)
  | event (e : Event)
deriving DecidableEq, Inhabited

/-- All that a run says, and the status it ends with. -/
structure Transcript where
  lines : List Line
  status : Nat
deriving DecidableEq, Inhabited

namespace Transcript

/-- All that was written to the output, in order. -/
def out (t : Transcript) : String :=
  String.join (t.lines.filterMap fun
    | .out text => some text
    | _ => none)

/-- All that was written to the error output, in order. -/
def err (t : Transcript) : String :=
  String.join (t.lines.filterMap fun
    | .err text => some text
    | _ => none)

/-- The events that were logged, in order. -/
def events (t : Transcript) : List Event :=
  t.lines.filterMap fun
    | .event e => some e
    | _ => none

/-- The transcript with only the events that a filter shows. -/
def filtered (t : Transcript) (f : Log.Filter) : Transcript :=
  { t with lines := t.lines.filter fun
      | .event e => f.shows e
      | _ => true }

/-- The transcript with lines in front. -/
def after (t : Transcript) (lines : List Line) : Transcript := { t with lines := lines ++ t.lines }

/-- A run that ends in an error. -/
def failed (message : String) : Transcript := ⟨[.err ("error: " ++ message)], 1⟩

end Transcript

/-- Why a run cannot begin. -/
inductive SetupError where
  | settings (e : SettingsError)
  | idRule (name : String)
deriving DecidableEq, Inhabited

/-- The line about an error. The cause of a failed reading is told
twice, and an invalid document ends the line early. -/
def SetupError.line : SetupError → String
  | settings (.read path cause) =>
      (SettingsError.read path cause).message ++ ": " ++ cause.message ++ "\n"
  | settings (.invalid path) => (SettingsError.invalid path).message
  | idRule name =>
      "invalid id heuristic '" ++ name ++ "'. Valid values: positional, contains\n"

/-- The formatter of a run. A program on the command line replaces the
one of the settings; arguments alone replace its arguments. -/
def Options.formatterFor (o : Options) (old : Option Formatter) : Option Formatter :=
  match o.formatter with
  | some program => some ⟨program, o.formatterArgs⟩
  | none =>
      if o.formatterArgs.isEmpty then old
      else old.map fun f => { f with args := o.formatterArgs }

/-- The settings with what the command line says in their place. -/
def Options.override (o : Options) (s : Settings) : Except SetupError Settings :=
  let s := { s with
    outDir := o.out.getD s.outDir
    mirrorDir := o.mirror <|> s.mirrorDir
    formatter := o.formatterFor s.formatter
    conventions := { s.conventions with
      rootPackage := o.package.getD s.conventions.rootPackage } }
  match o.idRule with
  | none => .ok s
  | some name =>
      match IdRule.ofWordAnyCase? name with
      | some rule => .ok { s with conventions := { s.conventions with idRule := rule } }
      | none => .error (.idRule name)

/-- What is said when there is nothing to read. -/
def usageHint : String := "Usage: dtskt <files...> [OPTIONS]\n\nUse --help for more information.\n"

/-- The number of workers if none is given. -/
def defaultConcurrency : Nat := 1

/-- A generated file as it is shown without being written. -/
def preview (d : Destination) (u : OutputUnit) : Line :=
  .out ("// " ++ d.target u ++ "\n" ++ u.text ++ "\n")

section

variable {m : Type → Type} [Monad m]

/-- The settings of a run. -/
def settings (h : Host m) (o : Options) : m (Except SetupError Settings) := do
  match o.config with
  | none => return o.override {}
  | some path =>
      match ← h.loadSettings path with
      | .error e => return .error (.settings e)
      | .ok s => return o.override s

/-- What became of the sources: the models, the events of reading, and
the events about files that were left out. -/
structure Sources where
  files : List SourceFile := []
  notes : List Event := []
  skipped : List Event := []
deriving Inhabited

/-- Read the sources in order. -/
def readSources (h : Host m) : List String → m Sources
  | [] => return {}
  | path :: paths => do
      let found ← h.readSource path
      let rest ← readSources h paths
      match found with
      | .ok (file, notes) =>
          return { rest with files := file :: rest.files, notes := notes ++ rest.notes }
      | .error message =>
          return { rest with skipped := .skippedFile path message :: rest.skipped }

/-- Deliver the output and say how it went. -/
def deliverAll (h : Host m) (d : Destination) (units : List OutputUnit) : m Transcript := do
  let deliveries ← h.publish d units
  let summary := Summary.ofDeliveries deliveries
  let events := deliveries.flatMap Delivery.events ++ [summary.event]
  let errors := summary.failures.map fun e => Line.err ("error: " ++ e.message ++ "\n")
  return ⟨events.map Line.event ++ errors, if summary.isSuccess then 0 else 1⟩

/-- Generate from the given files. -/
def generateFrom (h : Host m) (o : Options) (s : Settings) (paths : List String) :
    m Transcript := do
  let sources ← readSources h paths
  let parsing := Event.parsing paths.length (o.concurrency.getD defaultConcurrency)
  let heard := (parsing :: sources.notes ++ sources.skipped).map Line.event
  if o.dumpAst then
    return ⟨heard ++ sources.files.map fun f => .out (f.dump ++ "\n"), 0⟩
  let (project, units) := (Project.initial s.conventions).transform sources.files
  let generated := Event.generated project.index.scopes.length units.length
  let heard := heard ++ (project.events ++ [generated]).map Line.event
  if o.dryRun then
    return ⟨heard ++ units.map (preview s.destination), 0⟩
  let delivered ← deliverAll h s.destination units
  return delivered.after heard

/-- Generate with the given options. -/
def generate (h : Host m) (o : Options) : m Transcript := do
  match ← settings h o with
  | .error e => return Transcript.failed e.line
  | .ok s =>
      let (found, events) ← h.expand o.files
      let heard := events.map Line.event
      let paths := found.filter isSourcePath
      if paths.isEmpty then
        return (Transcript.failed "no input files\n").after (heard ++ [.err usageHint])
      let done ← generateFrom h o s paths
      return done.after heard

/-- The variables that may hold a filter, the first one first. -/
def filterVariables : List String := ["DTSKT_LOG", "RUST_LOG"]

/-- The filter of a run, with the lines about rules that cannot be
read. -/
def filterOf (lookup : String → Option String) (verbose : Bool) : Log.Filter × List Line :=
  match filterVariables.findSome? lookup with
  | some text =>
      let (filter, faults) := Log.Filter.ofString text
      (filter, faults.map fun (rule, fault) =>
        .err ("ignoring `" ++ rule ++ "`: " ++ fault.message ++ "\n"))
  | none => (Log.Filter.ofLevel (if verbose then .debug else .info), [])

/-- The text about the version. -/
def versionText : String := "dtskt 0.1.0\n"

/-- The help text. -/
def helpText : String := "\n".intercalate
  ["Generate Kotlin/JS external declarations from TypeScript .d.ts files",
   "",
   "Usage: dtskt [OPTIONS] [FILES]...",
   "",
   "Arguments:",
   "  [FILES]...  Files to process (supports glob patterns like \"types/**/*.d.ts\")",
   "",
   "Options:",
   "  -o, --out <OUT>                       Root directory generated files are written under",
   "  -p, --package <PACKAGE>               " ++
     "Root package of every generated file (default: org.node)",
   "      --mirror <MIRROR>                 Copy every written file under this directory as well",
   "      --formatter <FORMATTER>           External formatter run on every written file",
   "      --formatter-arg <FORMATTER_ARGS>  " ++
     "Argument passed to the formatter before the file path (repeatable)",
   "      --config <CONFIG>                 TOML configuration file",
   "      --id-heuristic <ID_HEURISTIC>     " ++
     "When a number becomes Int: positional (default), contains",
   "  -c, --concurrency <CONCURRENCY>       Number of parallel parse workers",
   "      --dump-ast                        Print the parsed declaration model as JSON and exit",
   "      --dry-run                         " ++
     "Print generated files to stdout instead of writing them",
   "  -v, --verbose                         Show verbose output",
   "  -h, --help                            Print help",
   "  -V, --version                         Print version",
   ""]

/-- Run the program with arguments and variables. A faulty command line
ends with status 2 before anything is read. -/
def run (h : Host m) (lookup : String → Option String) (args : List String) :
    m (Except UsageError Transcript) := do
  match Request.ofArgs args with
  | .error e => return .error e
  | .ok .version => return .ok ⟨[.out versionText], 0⟩
  | .ok .help => return .ok ⟨[.out helpText], 0⟩
  | .ok (.generate o) =>
      let (filter, remarks) := filterOf lookup o.verbose
      let done ← generate h o
      return .ok ((done.filtered filter).after remarks)

end

end Externals.Command
