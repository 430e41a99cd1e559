import Externals.Files.Host
import Externals.Project.Basic

/-!
# `Externals.Files.Publish`: generated files reach their places

Every generated file is written under the output directory. One that
was written is then shown to the formatter and copied to the mirror,
if there are such. A file that could not be written is a failure of
the run; a formatter or a copy that failed is only reported.

A `Delivery` records what happened to one file. The summary and the
events of publishing are functions of the deliveries.
-/

set_option autoImplicit false

namespace Externals

/-- What went wrong with a generated file. -/
inductive OutputError where
  | write (path : String) (cause : FileError)
  | format (path : String) (reason : String)
  | mirror (path : String) (cause : FileError)
deriving DecidableEq, Inhabited

/-- The text of an error, with the file that it is about. -/
def OutputError.message : OutputError → String
  | write path cause => "Failed to write " ++ path ++ ": " ++ cause.message
  | format path reason => "Formatter failed on " ++ path ++ ": " ++ reason
  | mirror path cause => "Failed to mirror " ++ path ++ ": " ++ cause.message

/-- Where generated files go and what sees them. -/
structure Destination where
  outDir : String
  mirrorDir : Option String := none
  formatter : Option Formatter := none
deriving DecidableEq, Inhabited

/-- The path a generated file is written to. -/
def Destination.target (d : Destination) (u : OutputUnit) : String := joinPath d.outDir u.path

/-- The part of the settings that says where files go. -/
def Settings.destination (s : Settings) : Destination := ⟨s.outDir, s.mirrorDir, s.formatter⟩

/-- What happened to one generated file. Steps that were not tried
are `none`. -/
structure Delivery where
  target : String
  write : Except OutputError Unit
  format : Option (Except OutputError Unit) := none
  mirror : Option (Except OutputError Unit) := none
deriving Inhabited

/-- The error of a step that was tried and failed. -/
def failure? (step : Option (Except OutputError Unit)) : Option OutputError :=
  match step with
  | some (.error e) => some e
  | _ => none

/-- A step was tried and succeeded. -/
def succeeded (step : Option (Except OutputError Unit)) : Bool :=
  match step with
  | some (.ok _) => true
  | _ => false

/-- The events of a delivery, in order. -/
def Delivery.events (d : Delivery) : List Event :=
  match d.write with
  | .error e => [.writeFailed e.message]
  | .ok _ =>
      .wrote d.target
        :: ((failure? d.format).map fun e => Event.formattingSkipped e.message).toList
        ++ ((failure? d.mirror).map fun e => Event.mirrorSkipped e.message).toList

namespace Host

variable {m : Type → Type} [Monad m]

/-- Write one file. -/
def writeUnit (h : Host m) (path text : String) : m (Except OutputError Unit) := do
  match ← h.write path text with
  | .ok _ => return .ok ()
  | .error cause => return .error (.write path cause)

/-- Show one written file to a formatter. -/
def formatUnit (h : Host m) (f : Formatter) (path : String) : m (Except OutputError Unit) := do
  match ← h.format f path with
  | .ok _ => return .ok ()
  | .error reason => return .error (.format path reason)

/-- Copy one written file. -/
def mirrorUnit (h : Host m) (source target : String) : m (Except OutputError Unit) := do
  match ← h.copy source target with
  | .ok _ => return .ok ()
  | .error cause => return .error (.mirror target cause)

/-- Deliver one file. -/
def deliver (h : Host m) (d : Destination) (u : OutputUnit) : m Delivery := do
  let target := d.target u
  match ← h.writeUnit target u.text with
  | .error e => return { target := target, write := .error e }
  | .ok _ =>
      let format ← match d.formatter with
        | some f => do
            let result ← h.formatUnit f target
            pure (some result)
        | none => pure none
      let mirror ← match d.mirrorDir with
        | some dir => do
            let result ← h.mirrorUnit target (joinPath dir u.path)
            pure (some result)
        | none => pure none
      return { target := target, write := .ok (), format := format, mirror := mirror }

/-- Deliver all files, one after the other. -/
def publish (h : Host m) (d : Destination) : List OutputUnit → m (List Delivery)
  | [] => return []
  | u :: us => do
      let first ← h.deliver d u
      let rest ← h.publish d us
      return first :: rest

end Host

/-- The outcome of publishing. -/
structure Summary where
  written : Nat
  formatted : Nat
  mirrored : Nat
  /-- The errors of the files that could not be written. -/
  failures : List OutputError
deriving DecidableEq, Inhabited

namespace Summary

/-- The numbers of what went well, and the failures to write. Formatting
and mirroring are counted, but their failures do not make a run fail. -/
def ofDeliveries (ds : List Delivery) : Summary where
  written := ds.countP fun d => d.write.isOk
  formatted := ds.countP fun d => succeeded d.format
  mirrored := ds.countP fun d => succeeded d.mirror
  failures := ds.filterMap fun d => failure? (some d.write)

/-- All files were written. -/
def isSuccess (s : Summary) : Bool := s.failures.isEmpty

/-- The event that closes publishing. -/
def event (s : Summary) : Event := .published s.written s.formatted s.mirrored s.failures.length

end Summary

end Externals
