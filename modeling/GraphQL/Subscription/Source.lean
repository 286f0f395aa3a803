import GraphQL.Resolver.Outcome

/-!
# Event sources

Where the events of a subscription come from, as a description: a script that is fixed in advance,
the publications under some triggers, or another source with some of its payloads left out.

Sources are made by callbacks of the schema and so are their filters, and visits of them are not guarded:
a step of a script may be a panic, and a filter is a call that may panic on any payload.
-/

namespace GraphQL

/-- A step of a script of events. -/
inductive FeedStep where
  /-- Nothing is there yet; the next visit goes on. -/
  | wait
  /-- A text for the log. -/
  | say (text : String)
  /-- A payload or an error. -/
  | event (result : ResolverResult)
  /-- The visit that gets here panics. -/
  | panic (message : String)

/-- Says of a payload whether it is let through. -/
abbrev EventFilter := FieldValue → Call Bool

namespace EventFilter

/-- Lets everything through. -/
def all : EventFilter := fun _ => pure true

/-- Asks the second filter about the payloads that the first one lets through. -/
def both (first second : EventFilter) : EventFilter := fun payload => do
  if ← first payload then second payload else return false

end EventFilter

/-- The source of the events of a subscription. -/
inductive EventSource where
  /-- A script, and the texts logged when it is released. -/
  | feed (steps : List FeedStep) (farewell : List String)
  /-- What is published under any of the triggers from now on. -/
  | topics (triggers : List String)
  /-- The events of a source without the payloads that the filter does not let through. -/
  | filtered (keep : EventFilter) (source : EventSource)

/-- What a visit of a stream finds. -/
inductive Poll (α : Type) where
  /-- The next item. -/
  | ready (item : α)
  /-- There is no item yet. -/
  | pending
  /-- There will be no further item. -/
  | ended

/-- Whether a filter lets an event through. It is not asked about errors, which always pass. -/
def ResolverResult.passes (keep : EventFilter) : ResolverResult → Call Bool
  | .ok payload => keep payload
  | .error _ => pure true

end GraphQL
