import GraphQL.Coercion.Literal
import GraphQL.Resolver.Basic

/-!
# Coercion of arguments

The arguments of a field against its definition: the written ones coerced as literals, the others
from their defaults. A variable without a value leaves its argument out.
-/

namespace GraphQL

namespace Coercion

/-- An error about an argument. -/
def argumentError {α : Type} (message : String) (location : Location) :
    Except (CoercionFailure GraphQLError) α :=
  .error (.invalid ((GraphQLError.new message .argumentError).withLocation location))

/-- Coerces one argument; the result is absent if it has neither a value nor a default. -/
def coerceArgument (types : TypeSystem) (field : Field) (vars : Variables)
    (definition : InputValueDefinition) : Except (CoercionFailure GraphQLError) (Option Value) := do
  let written := Argument.find? field.arguments definition.name
  let location := (written.map Argument.valueLocation).getD field.location
  let invalid : CoercionFailure InputValueError → CoercionFailure GraphQLError :=
    CoercionFailure.map fun error =>
      let message := error.message
      (GraphQLError.new s!"Argument '{definition.name}' got an invalid value: {message}"
        .argumentError).withLocation location
  let value ← match written with
    | some argument =>
        (coerceLiteral types vars true argument.value definition.type []).mapError invalid
    | none => .ok none
  match value, definition.fallback with
  | some value, _ => return some value
  | none, some fallback =>
      return some (← (coerceConstant types fallback definition.type []).mapError invalid)
  | none, none =>
      if definition.type.isNonNull then
        argumentError
          s!"Argument '{definition.name}' of required type {definition.type} was not provided."
          location
      else return none

/-- Coerces the declared arguments in order. -/
def coerceDeclared (types : TypeSystem) (field : Field) (vars : Variables) :
    List InputValueDefinition → Except (CoercionFailure GraphQLError) (List (String × Value))
  | [] => .ok []
  | definition :: rest => do
      match ← coerceArgument types field vars definition with
      | some value => return (definition.name, value) :: (← coerceDeclared types field vars rest)
      | none => coerceDeclared types field vars rest

/-- Coerces the arguments of a field; arguments that are not declared are looked for first. -/
def coerceArguments (types : TypeSystem) (definition : FieldDefinition) (field : Field)
    (vars : Variables) : Except (CoercionFailure GraphQLError) Arguments :=
  match field.arguments.find? fun argument =>
      !Entries.contains definition.arguments.entries argument.name with
  | some argument =>
      argumentError
        s!"Unknown argument named '{argument.name}' for the field '{definition.name}'"
        argument.nameLocation
  | none =>
      (coerceDeclared types field vars (Entries.values definition.arguments.entries)).map Entries.ofPairs

end Coercion

end GraphQL
