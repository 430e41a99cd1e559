import Externals.Log.Event
import Externals.Text.Blank
import Externals.Text.Split

/-!
# `Externals.Log.Filter`: which events are shown

A filter is a list of rules separated by commas. A rule names a
reporter, a level, or both. The rule for the longest matching reporter
decides about an event; of two rules for one reporter the later one
counts. A filter without rules shows errors only.
-/

set_option autoImplicit false

namespace Externals

/-- The name by which filters know the reporter of an event. -/
def Event.reporter : Event → String
  | .parsing .. | .skippedFile .. | .generated .. | .published .. => "dtskt"
  | .syntaxErrors _ => "dtskt_core::parser"
  | .functionWithoutName | .classWithoutName | .interfaceWithoutName | .collected ..
  | .baseNotFound .. => "dtskt_core::project"
  | .noMappingRule _ => "dtskt_core::mapper"
  | .computedMember .. | .quotedMember .. | .toStringMember .. => "dtskt_core::emit::member"
  | .invalidPattern .. => "dtskt_core::parallel"
  | .wrote _ | .writeFailed _ | .formattingSkipped _ | .mirrorSkipped _ => "dtskt_core::output"

namespace Log

/-- The gravest levels that a rule lets through; `none` lets nothing
through. -/
abbrev Limit := Option Level

/-- A rule of a filter. A rule about a span of work never decides about
an event. -/
structure Rule where
  reporter : Option String := none
  limit : Limit := some .trace
  isSpan : Bool := false
deriving DecidableEq, Inhabited

/-- Why a rule cannot be read. -/
inductive RuleFault where
  | form
  | level
deriving DecidableEq, Inhabited

/-- What is wrong with a rule, in words. -/
def RuleFault.message : RuleFault → String
  | form => "invalid filter directive"
  | level =>
      "error parsing level filter: expected one of \"off\", \"error\", \"warn\", \"info\", " ++
        "\"debug\", \"trace\", or a number 0-5"

/-- The words and numbers for limits. -/
def limitWords : List (String × String × Limit) :=
  [("off", "0", none), ("error", "1", some .error), ("warn", "2", some .warn),
   ("info", "3", some .info), ("debug", "4", some .debug), ("trace", "5", some .trace)]

/-- The limit that a word or a number names. -/
def limit? (text : String) : Option Limit :=
  (limitWords.find? fun (word, number, _) => text.toLower == word || text == number).map
    fun (_, _, limit) => limit

/-- The limit after an equals sign; nothing there lets everything
through. -/
def limitAfter (text : String) : Except RuleFault Limit :=
  if text.isEmpty then .ok (some .trace)
  else
    match limit? text with
    | some limit => .ok limit
    | none => .error .level

/-- Whether a character may begin a rule. -/
def beginsRule (c : Char) : Bool := c.isAlphanum || "-:_".toList.contains c || 127 < c.toNat

/-- A rule that begins with the name of a span, from behind its opening
bracket. -/
def spanRule (reporter : Option String) (cs : List Char) : Except RuleFault Rule :=
  match cs.dropWhile (· != ']') with
  | [] => .error .form
  | [_] => .ok { reporter := reporter, isSpan := true }
  | _ :: '=' :: level => do
      return { reporter := reporter, limit := ← limitAfter (String.ofList level), isSpan := true }
  | _ => .error .form

/-- Read one rule. -/
def Rule.ofString (text : String) : Except RuleFault Rule :=
  let cs := Text.trim text.toList
  match cs with
  | [] => .error .form
  | '[' :: rest => spanRule none rest
  | c :: _ =>
      if !beginsRule c then .error .form
      else
        let name := cs.takeWhile fun c => c != '=' && c != '['
        match cs.drop name.length with
        | '=' :: level => do
            return { reporter := some (String.ofList name),
                     limit := ← limitAfter (String.ofList level) }
        | '[' :: rest => spanRule (some (String.ofList name)) rest
        | _ =>
            match limit? (String.ofList name) with
            | some limit => .ok { limit := limit }
            | none => .ok { reporter := some (String.ofList name) }

/-- A filter. -/
structure Filter where
  rules : List Rule
deriving DecidableEq, Inhabited

namespace Filter

/-- The filter that shows a level and all graver ones. -/
def ofLevel (level : Level) : Filter := ⟨[{ limit := some level }]⟩

/-- The rule of a filter without rules. -/
def fallback : Rule := { limit := some .error }

/-- Read a filter. Faulty rules are left out and returned with the
reason. -/
def ofString (text : String) : Filter × List (String × RuleFault) :=
  let parts := ((Text.splitOn ',' text.toList).map String.ofList).filter fun p => !p.isEmpty
  let found := parts.map fun p => (p, Rule.ofString p)
  let rules := found.filterMap fun (_, r) => r.toOption
  let faults := found.filterMap fun (p, r) =>
    match r with
    | .error fault => some (p, fault)
    | .ok _ => none
  (⟨if rules.isEmpty then [fallback] else rules⟩, faults)

end Filter

/-- How specific a rule is: the length of its reporter's name, and
less than any name without one. -/
def Rule.weight (r : Rule) : Nat :=
  match r.reporter with
  | some name => name.length + 1
  | none => 0

/-- Whether a rule is about a reporter. -/
def Rule.covers (r : Rule) (reporter : String) : Bool :=
  !r.isSpan &&
    match r.reporter with
    | some name => reporter.startsWith name
    | none => true

namespace Filter

/-- The heaviest of the rules, the last one of several. -/
def heaviest (best : Option Rule) : List Rule → Option Rule
  | [] => best
  | r :: rs =>
      match best with
      | none => heaviest (some r) rs
      | some b => heaviest (some (if b.weight ≤ r.weight then r else b)) rs

/-- The rule that decides about a reporter. -/
def deciding (f : Filter) (reporter : String) : Option Rule :=
  heaviest none (f.rules.filter fun r => r.covers reporter)

/-- Whether an event is shown. -/
def shows (f : Filter) (e : Event) : Bool :=
  match (f.deciding e.reporter).bind Rule.limit with
  | some limit => e.level.rank ≤ limit.rank
  | none => false

end Filter

end Log

end Externals
