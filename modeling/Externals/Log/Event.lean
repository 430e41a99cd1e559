/-!
# `Externals.Log.Event`: what a run reports

Every step of a run may report events. An `Event` names what
happened and holds the particulars; its level, its message and its
fields are functions of that, so the wording stands in one place.
-/

set_option autoImplicit false

namespace Externals

/-- How grave an event is, from the gravest on. -/
inductive Level where
  | error
  | warn
  | info
  | debug
  | trace
deriving DecidableEq, Inhabited

namespace Level

/-- The rank of a level; a smaller rank is graver. -/
def rank : Level → Nat
  | error => 0
  | warn => 1
  | info => 2
  | debug => 3
  | trace => 4

/-- The word for a level in an event. -/
def word : Level → String
  | error => "ERROR"
  | warn => "WARN"
  | info => "INFO"
  | debug => "DEBUG"
  | trace => "TRACE"

end Level

/-- A particular of an event: a text or a count. -/
inductive Field where
  | text (s : String)
  | count (n : Nat)
deriving DecidableEq, Inhabited

/-- Something that happened during a run. -/
inductive Event where
  | syntaxErrors (file : String)
  | functionWithoutName
  | classWithoutName
  | interfaceWithoutName
  | collected (scopes declarations : Nat)
  | noMappingRule (text : String)
  | computedMember (member owner : String)
  | quotedMember (member owner : String)
  | toStringMember (owner : String) (params : Nat)
  | baseNotFound (owner base : String)
  | invalidPattern (pattern error : String)
  | parsing (files concurrency : Nat)
  | skippedFile (file error : String)
  | generated (scopes units : Nat)
  | wrote (path : String)
  | writeFailed (error : String)
  | formattingSkipped (error : String)
  | mirrorSkipped (error : String)
  | published (written formatted mirrored failed : Nat)
deriving DecidableEq, Inhabited

namespace Event

/-- How important an event is. -/
def level : Event → Level
  | writeFailed _ => .error
  | invalidPattern .. | skippedFile .. | formattingSkipped _ | mirrorSkipped _ => .warn
  | parsing .. | generated .. | wrote _ | published .. => .info
  | _ => .debug

/-- The text of an event, without its fields. -/
def message : Event → String
  | syntaxErrors _ => "syntax errors in input, lowering what parsed"
  | functionWithoutName => "skipping function without a name"
  | classWithoutName => "skipping class without a name"
  | interfaceWithoutName => "skipping interface without a name"
  | collected .. => "collected"
  | noMappingRule _ => "no mapping rule, falling back to JsAny"
  | computedMember .. => "skipping computed member name"
  | quotedMember .. => "skipping quoted member name"
  | toStringMember .. => "skipping toString"
  | baseNotFound .. => "extended interface not found"
  | invalidPattern .. => "invalid glob pattern"
  | parsing .. => "parsing"
  | skippedFile .. => "skipping file"
  | generated .. => "generated"
  | wrote _ => "wrote"
  | writeFailed _ => "write failed"
  | formattingSkipped _ => "formatting skipped"
  | mirrorSkipped _ => "mirror copy skipped"
  | published .. => "published"

/-- The particulars under their names, in the order they are shown. -/
def fields : Event → List (String × Field)
  | syntaxErrors file => [("file", .text file)]
  | functionWithoutName | classWithoutName | interfaceWithoutName => []
  | collected scopes declarations =>
      [("scopes", .count scopes), ("declarations", .count declarations)]
  | noMappingRule text => [("text", .text text)]
  | computedMember member owner => [("member", .text member), ("this_name", .text owner)]
  | quotedMember member owner => [("member", .text member), ("this_name", .text owner)]
  | toStringMember owner params => [("this_name", .text owner), ("params", .count params)]
  | baseNotFound owner base => [("class", .text owner), ("base", .text base)]
  | invalidPattern pattern error => [("pattern", .text pattern), ("error", .text error)]
  | parsing files concurrency => [("files", .count files), ("concurrency", .count concurrency)]
  | skippedFile file error => [("file", .text file), ("error", .text error)]
  | generated scopes units => [("scopes", .count scopes), ("units", .count units)]
  | wrote path => [("path", .text path)]
  | writeFailed error => [("error", .text error)]
  | formattingSkipped error => [("error", .text error)]
  | mirrorSkipped error => [("error", .text error)]
  | published written formatted mirrored failed =>
      [("written", .count written), ("formatted", .count formatted),
       ("mirrored", .count mirrored), ("failed", .count failed)]

end Event

end Externals
