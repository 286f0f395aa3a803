import GraphQL.Coroutine
import GraphQL.Error.Basic
import GraphQL.FieldValue

/-!
# Outcomes of resolvers

A resolver has a raw value or an error, either at once or after a number of visits.
-/

namespace GraphQL

/-- An error that a resolver returns. -/
structure ResolverError where
  message : String
  /-- The text of the error that it was made from. -/
  cause : Option String
  /-- Members to be added to the error that clients see. -/
  extensions : List (String × Json)

namespace ResolverError

/-- An error with a message and nothing else. -/
def new (message : String) : ResolverError := ⟨message, none, []⟩

/-- The error that an underlying error turns into: its text is both message and cause. -/
def ofCause (text : String) : ResolverError := ⟨text, some text, []⟩

/-- What a panic counts as. -/
def panicked : ResolverError := new "Resolver panicked"

/-- The error that clients see. -/
def toGraphQLError (error : ResolverError) : GraphQLError :=
  { GraphQLError.new error.message .resolverError with
    extensions := error.extensions, cause := error.cause }

end ResolverError

/-- A raw value or an error. -/
abbrev ResolverResult := Except ResolverError FieldValue

/-- What a resolver returns: a result, or a computation that will have one. -/
inductive Resolution where
  | ready (result : ResolverResult)
  | pending (computation : Coroutine String ResolverResult)

namespace Resolution

/-- Whether the result is there. -/
def isReady : Resolution → Bool
  | .ready _ => true
  | .pending _ => false

/-- A value that is there. -/
def ok (value : FieldValue) : Resolution := .ready (.ok value)

/-- An error that is there. -/
def err (error : ResolverError) : Resolution := .ready (.error error)

/-- Changes the result, whenever it is there. -/
def map (f : ResolverResult → ResolverResult) : Resolution → Resolution
  | .ready result => .ready (f result)
  | .pending computation => .pending (computation.map f)

/-- The computation of the result. A ready one is over at once. -/
def toCoroutine : Resolution → Coroutine String ResolverResult
  | .ready result => .finish [] result
  | .pending computation => computation

end Resolution

end GraphQL
