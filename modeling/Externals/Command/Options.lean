/-!
# `Externals.Command.Options`: the command line

A command line is read from left to right. What it comes to is a
`Request`: to generate files with some options, or to show the version
or the help text, which takes effect as soon as it is met. Options have
a long name, some also a letter, and letters may be joined.
-/

set_option autoImplicit false

namespace Externals.Command

/-- What a run is told on its command line. -/
structure Options where
  /-- The files to read, as paths or patterns. -/
  files : List String := []
  out : Option String := none
  package : Option String := none
  mirror : Option String := none
  formatter : Option String := none
  formatterArgs : List String := []
  config : Option String := none
  idRule : Option String := none
  concurrency : Option Nat := none
  dumpAst : Bool := false
  dryRun : Bool := false
  verbose : Bool := false
deriving DecidableEq, Inhabited

/-- The options that take a value. -/
inductive Setting where
  | out
  | package
  | mirror
  | formatter
  | formatterArg
  | config
  | idRule
  | concurrency
deriving DecidableEq, Inhabited

/-- The options that take none. -/
inductive Flag where
  | dumpAst
  | dryRun
  | verbose
  | version
  | help
deriving DecidableEq, Inhabited

/-- What a switch on the command line is for: it gives a value, or it
asks for something. -/
inductive Switch where
  | setting (s : Setting)
  | flag (f : Flag)
deriving DecidableEq, Inhabited

/-- What is wrong with a command line. -/
inductive UsageError where
  | unknown (arg : String)
  | missingValue (s : Setting)
  | repeated (s : Switch)
  | needlessValue (f : Flag)
  | malformed (value : String)
deriving DecidableEq, Inhabited

/-- What a command line asks for. -/
inductive Request where
  | generate (o : Options)
  | version
  | help
deriving DecidableEq, Inhabited

/-- The long names. -/
def longNames : List (String × Switch) :=
  [("out", .setting .out), ("package", .setting .package), ("mirror", .setting .mirror),
   ("formatter", .setting .formatter), ("formatter-arg", .setting .formatterArg),
   ("config", .setting .config), ("id-heuristic", .setting .idRule),
   ("concurrency", .setting .concurrency), ("dump-ast", .flag .dumpAst),
   ("dry-run", .flag .dryRun), ("verbose", .flag .verbose), ("version", .flag .version),
   ("help", .flag .help)]

/-- The letters. -/
def letters : List (Char × Switch) :=
  [('o', .setting .out), ('p', .setting .package), ('c', .setting .concurrency),
   ('v', .flag .verbose), ('V', .flag .version), ('h', .flag .help)]

/-- The switch of a long name, without the dashes. -/
def long? (name : String) : Option Switch := longNames.lookup name

/-- The switch of a single letter. -/
def letter? (c : Char) : Option Switch := letters.lookup c

/-- Counts are below this. -/
def countBound : Nat := Nat.pow 2 64

/-- Read a count: digits, after a plus sign if one is there. -/
def count? (text : String) : Option Nat :=
  let digits := match text.toList with
    | '+' :: rest => rest
    | cs => cs
  if digits.isEmpty || !digits.all Char.isDigit then none
  else
    let n := digits.foldl (fun n c => n * 10 + (c.toNat - '0'.toNat)) 0
    if n < countBound then some n else none

/-- Whether an argument can be the value of an option. Only the
arguments of a formatter may look like options themselves. -/
def Setting.takes (s : Setting) (arg : String) : Bool :=
  s == .formatterArg || arg == "-" || arg.toList.head? != some '-'

namespace Options

/-- Give an option its value, unless it has one. -/
def set (o : Options) (s : Setting) (value : String) : Except UsageError Options :=
  let once (old : Option String) (new : Options) : Except UsageError Options :=
    if old.isSome then .error (.repeated (.setting s)) else .ok new
  match s with
  | .out => once o.out { o with out := some value }
  | .package => once o.package { o with package := some value }
  | .mirror => once o.mirror { o with mirror := some value }
  | .formatter => once o.formatter { o with formatter := some value }
  | .config => once o.config { o with config := some value }
  | .idRule => once o.idRule { o with idRule := some value }
  | .formatterArg => .ok { o with formatterArgs := o.formatterArgs ++ [value] }
  | .concurrency =>
      if o.concurrency.isSome then .error (.repeated (.setting s))
      else
        match count? value with
        | some n => .ok { o with concurrency := some n }
        | none => .error (.malformed value)

/-- What is known after a flag: either the command line is settled or
reading goes on. -/
def raise (o : Options) (f : Flag) : Except UsageError (Request ⊕ Options) :=
  let once (old : Bool) (new : Options) : Except UsageError (Request ⊕ Options) :=
    if old then .error (.repeated (.flag f)) else .ok (.inr new)
  match f with
  | .version => .ok (.inl .version)
  | .help => .ok (.inl .help)
  | .dumpAst => once o.dumpAst { o with dumpAst := true }
  | .dryRun => once o.dryRun { o with dryRun := true }
  | .verbose => once o.verbose { o with verbose := true }

end Options

/-- How far joined letters lead. -/
inductive Progress where
  | settled (r : Request)
  | further (o : Options)
  /-- The next argument is the value of an option. -/
  | wanting (o : Options) (s : Setting)
deriving DecidableEq, Inhabited

/-- The value that follows a letter in the same argument. -/
def attached (cs : List Char) : String :=
  match cs with
  | '=' :: rest => String.ofList rest
  | cs => String.ofList cs

/-- Read joined letters. -/
def cluster (arg : String) (o : Options) : List Char → Except UsageError Progress
  | [] => .ok (.further o)
  | c :: cs =>
      match letter? c with
      | none => .error (.unknown arg)
      | some (.setting s) =>
          if cs.isEmpty then .ok (.wanting o s) else do
            let o ← o.set s (attached cs)
            return .further o
      | some (.flag f) => do
          match ← o.raise f with
          | .inl r => return .settled r
          | .inr o => cluster arg o cs

/-- Read one argument that begins with two dashes, from behind them. -/
def longOption (arg : String) (o : Options) (cs : List Char) : Except UsageError Progress :=
  let name := String.ofList (cs.takeWhile (· != '='))
  let value := match cs.dropWhile (· != '=') with
    | _ :: value => some (String.ofList value)
    | [] => none
  match long? name, value with
  | none, _ => .error (.unknown arg)
  | some (.setting s), some value => do return .further (← o.set s value)
  | some (.setting s), none => .ok (.wanting o s)
  | some (.flag f), some _ => .error (.needlessValue f)
  | some (.flag f), none => do
      match ← o.raise f with
      | .inl r => return .settled r
      | .inr o => return .further o

/-- Read one argument. -/
def argument (o : Options) (arg : String) : Except UsageError Progress :=
  match arg.toList with
  | '-' :: '-' :: cs => longOption arg o cs
  | '-' :: c :: cs => cluster arg o (c :: cs)
  | _ => .ok (.further { o with files := o.files ++ [arg] })

/-- Read the arguments that are left. After two dashes alone all of
them are files. -/
def readFrom (o : Options) : List String → Except UsageError Request
  | [] => .ok (.generate o)
  | arg :: rest =>
      if arg == "--" then .ok (.generate { o with files := o.files ++ rest })
      else
        match argument o arg with
        | .error e => .error e
        | .ok (.settled r) => .ok r
        | .ok (.further o) => readFrom o rest
        | .ok (.wanting o s) =>
            match rest with
            | [] => .error (.missingValue s)
            | value :: rest =>
                if s.takes value then
                  match o.set s value with
                  | .error e => .error e
                  | .ok o => readFrom o rest
                else .error (.missingValue s)

/-- Read a command line. -/
def Request.ofArgs (args : List String) : Except UsageError Request := readFrom {} args

end Externals.Command
