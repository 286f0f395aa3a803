import GraphQL.Coercion.Constant
import GraphQL.Coroutine
import GraphQL.Document.Basic
import GraphQL.Variables

/-!
# Coercion of variables

The variables of a request against the declarations of the operation. Errors are gathered up to a
limit; when it is reached before the last declaration, one more error says so.
-/

namespace GraphQL

namespace Coercion

/-- What becomes of one declared variable. -/
inductive VariableOutcome where
  /-- The variable has no value. -/
  | absent
  | value (value : Value)
  | failed (error : GraphQLError)

/-- An error about the variables of a request. -/
def variableError (message : String) : GraphQLError := GraphQLError.new message .variableError

/-- The error of a request with more errors than are reported. -/
def tooManyVariableErrors : GraphQLError :=
  variableError
    "Too many errors processing variables, error limit reached. Execution aborted."

/-- Coerces one variable, given the value that the request has for it. -/
def coerceDeclaredVariable (types : TypeSystem) (definition : VariableDefinition)
    (raw : Option Value) : Except Abort VariableOutcome :=
  let name := definition.name
  let failed := fun message =>
    Except.ok (.failed ((variableError message).withLocation definition.location))
  match TypeRef.ofSyntax? definition.type with
  | none => .error (.panicked Wrapping.overflowMessage)
  | some ty =>
      if !types.namedTypeIs TypeDefinition.isInput ty then
        failed s!"Variable ${name} expected value of type {ty} which cannot be used as an input type."
      else
        match raw.or definition.fallback with
        | some value =>
            match coerceConstant types value ty [] with
            | .ok value => .ok (.value value)
            | .error (.invalid error) =>
                let message := error.message
                failed s!"Variable ${name} got an invalid value: {message}"
            | .error .endless => .error .endless
        | none =>
            if ty.isNonNull then failed s!"Variable ${name} of required type {ty} was not provided."
            else .ok .absent

/-- Coerces the declared variables in order. A value of the request is used up by the first
declaration of its name whose type is an input type. -/
def coerceEachVariable (types : TypeSystem) (limit : Nat) :
    List VariableDefinition → Variables → Variables → List GraphQLError →
      Except Abort (Variables × List GraphQLError)
  | [], _, coerced, errors => .ok (coerced, errors)
  | definition :: rest, raw, coerced, errors =>
      if limit ≤ errors.length then .ok (coerced, errors ++ [tooManyVariableErrors])
      else do
        let isInput := (TypeRef.ofSyntax? definition.type).any
          (types.namedTypeIs TypeDefinition.isInput)
        let remaining := if isInput then raw.erase definition.name else raw
        match ← coerceDeclaredVariable types definition (raw.get? definition.name) with
        | .absent => coerceEachVariable types limit rest remaining coerced errors
        | .value value =>
            coerceEachVariable types limit rest remaining (coerced.insert definition.name value) errors
        | .failed error => coerceEachVariable types limit rest remaining coerced (errors ++ [error])

/-- Coerces the variables of a request, or gives the errors found. -/
def coerceVariables (types : TypeSystem) (limit : Nat) (definitions : List VariableDefinition)
    (raw : Variables) : Except Abort (Except (List GraphQLError) Variables) := do
  let (coerced, errors) ← coerceEachVariable types limit definitions raw .empty []
  return if errors.isEmpty then .ok coerced else .error errors

end Coercion

end GraphQL
