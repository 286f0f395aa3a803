import GraphQL.Resolver.Basic

/-!
# What happens during an execution

Executions log events: the calls of resolvers and their settlements, what callbacks report of
themselves, the failures of places in the response, and the errors that are recorded for it.

A failure and the recording of its error are two events. The failure is logged where it occurs, and
the error is recorded by the nearest place around it that may be null; `Completed` carries it from the
one to the other.
-/

namespace GraphQL

/-- Something that happens while an operation is executed. -/
inductive Event where
  /-- The resolver of a field is called, with all interceptors around it. -/
  | called (path : QueryPath) (parent : FieldValue) (arguments : Arguments)
  /-- The resolver of a field has a result. -/
  | settled (path : QueryPath)
  /-- A callback reports a text. -/
  | said (text : String)
  /-- A place in the response fails. -/
  | failed (error : GraphQLError)
  /-- An error is recorded for the response. -/
  | recorded (error : GraphQLError)

namespace Event

/-- The error that an event records. -/
def error? : Event → Option GraphQLError
  | .recorded error => some error
  | _ => none

/-- The failure that an event is. -/
def failure? : Event → Option GraphQLError
  | .failed error => some error
  | _ => none

/-- The text that a callback reports. -/
def text? : Event → Option String
  | .said text => some text
  | _ => none

/-- The texts that callbacks report, in order. -/
def texts (events : List Event) : List String := events.filterMap text?

end Event

/-- A part of an execution. -/
abbrev Run (α : Type) := Coroutine Event α

/-- The completed value of a place in the response, or the error that makes it null. -/
abbrev Completed := Except GraphQLError Value

namespace Completed

/-- The value, with null in place of an error. -/
def valueOrNull : Completed → Value
  | .ok value => value
  | .error _ => .null

/-- The failure of a place. -/
def fail (error : GraphQLError) : Run Completed := .finish [.failed error] (.error error)

/-- Lets a nullable place be null and records its error; the error of another place is left to the
place around it. -/
def absorb (nonNull : Bool) : Completed → Run Completed
  | .error error => if nonNull then .finish [] (.error error) else .finish [.recorded error] (.ok .null)
  | .ok value => .finish [] (.ok value)

end Completed

/-- The errors among some results. -/
def errorsOf {α : Type} (results : List (Except GraphQLError α)) : List GraphQLError :=
  results.filterMap fun result =>
    match result with
    | .error error => some error
    | .ok _ => none

/-- The values among some results. -/
def valuesOf {α : Type} (results : List (Except GraphQLError α)) : List α :=
  results.filterMap Except.toOption

/-- Gathers the results of siblings none of which may fail: the first error is left to the place
around them, and the others are recorded. -/
def gather {α : Type} (results : List (Except GraphQLError α)) : Run (Except GraphQLError (List α)) :=
  match errorsOf results with
  | [] => .finish [] (.ok (valuesOf results))
  | first :: others => .finish (others.map .recorded) (.error first)

end GraphQL
