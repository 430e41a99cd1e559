import Externals.Imports.Headers
import Externals.Log.Event

/-!
# `Externals.Mapping.Draft`: text that asks for imports

Mapping types and emitting declarations produce text, and on the way
ask for imports and report events. A `Draft` keeps the three
together: the value, the imports asked for in order, and the events
in order. Nothing that is drafted ever looks at the imports asked for
before, so a draft is a plain value, and the header that finally
records the imports is chosen by the caller.
-/

set_option autoImplicit false

namespace Externals

/-- A value with the imports it needs and the events on the way. -/
structure Draft (α : Type) where
  value : α
  imports : List ImportLine := []
  events : List Event := []

namespace Draft

variable {α β : Type}

/-- A value that asks for nothing and reports nothing. -/
protected def pure (a : α) : Draft α := ⟨a, [], []⟩

/-- One draft after another; requests and events line up. -/
protected def bind (d : Draft α) (f : α → Draft β) : Draft β :=
  let next := f d.value
  ⟨next.value, d.imports ++ next.imports, d.events ++ next.events⟩

/-- Drafts are made one after the other, and collect what each of them
asks for and reports. -/
instance : Monad Draft where
  pure := Draft.pure
  bind := Draft.bind

/-- Ask for an import. -/
def request (line : ImportLine) : Draft Unit := ⟨(), [line], []⟩

/-- Report an event. -/
def report (event : Event) : Draft Unit := ⟨(), [], [event]⟩

/-- Draft each element, in order. -/
def each (f : α → Draft β) : List α → Draft (List β)
  | [] => pure []
  | a :: as => do
      let b ← f a
      let bs ← each f as
      return b :: bs

end Draft

end Externals
