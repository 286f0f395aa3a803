import GraphQL.Path
import GraphQL.Scalar.Basic
import GraphQL.TypeRef

/-!
# Errors of input coercion

What can be wrong with a value given for an input type, and where inside the value it is.
-/

namespace GraphQL

/-- A place inside an input value; the innermost step comes first. -/
abbrev ValuePath := List PathSegment

/-- The place as the end of a message; nothing for the value as a whole. -/
def ValuePath.text (path : ValuePath) : String :=
  if path.isEmpty then ""
  else " at path '" ++ String.join (path.reverse.map fun segment => "." ++ segment.text) ++ "'"

/-- What is wrong with a part of an input value. -/
inductive InputFault where
  | unexpectedNull (expected : TypeRef)
  | missingList (actual : ValueKind) (expected : TypeRef)
  | missingObject (name : String) (actual : ValueKind)
  | incorrectScalarType (actual : ValueKind) (scalar : String)
  | incorrectScalarValue (actual scalar : String)
  | invalidScalarValue (actual scalar message : String)
  | incorrectEnumValueType (enum : String) (actual : ValueKind)
  | unknownEnumValue (enum value : String)
  | unknownInputField (object field : String)
  | missingRequiredField (object field : String) (expected : TypeRef)
  | notAnInputType (name : String)
deriving DecidableEq, Repr

namespace InputFault

/-- The fault of a scalar's rejection of a value. -/
def ofScalarError (scalar : String) (value : Value) : ScalarError → InputFault
  | .incorrectType => .incorrectScalarType value.kind scalar
  | .incorrectValue => .incorrectScalarValue value.text scalar
  | .custom message => .invalidScalarValue value.text scalar message

/-- The message of a fault at a place given as text. -/
def message (place : String) : InputFault → String
  | .unexpectedNull expected => s!"Found a null where we expected a {expected}{place}"
  | .missingList actual expected =>
      s!"Found a {actual.name} value where we expected a {expected}{place}"
  | .missingObject name actual =>
      s!"Found a {actual.name} value where we expected a '{name}' input object{place}"
  | .incorrectScalarType actual scalar =>
      s!"Found a {actual.name} value where we expected a {scalar} scalar{place}"
  | .incorrectScalarValue actual scalar =>
      s!"Found value {actual} which cannot be coerced into a {scalar} scalar{place}"
  | .invalidScalarValue actual scalar message =>
      s!"Found value {actual} which cannot be coerced into a {scalar} scalar: {message}{place}"
  | .incorrectEnumValueType enum actual =>
      s!"Found a {actual.name} value where we expected a {enum} enum value{place}"
  | .unknownEnumValue enum value =>
      s!"Found an unknown enum value '{value}' for the enum {enum}{place}"
  | .unknownInputField object field =>
      s!"Input object {object} does not have a field named '{field}'{place}"
  | .missingRequiredField object field expected =>
      s!"Missing required field '{field}' of type {expected} for the input object {object}{place}"
  | .notAnInputType name => s!"Type {name} cannot be used as an input type"

end InputFault

/-- A fault and its place in the value. -/
structure InputValueError where
  fault : InputFault
  path : ValuePath
deriving DecidableEq, Repr

/-- The message of an error. -/
def InputValueError.message (error : InputValueError) : String :=
  error.fault.message error.path.text

/-- Why coercion gives no value. -/
inductive CoercionFailure (ε : Type) where
  /-- The input is wrong. -/
  | invalid (error : ε)
  /-- The defaults of input objects contain each other for ever. -/
  | endless

namespace CoercionFailure

/-- Changes the error. -/
def map {ε ζ : Type} (f : ε → ζ) : CoercionFailure ε → CoercionFailure ζ
  | .invalid error => .invalid (f error)
  | .endless => .endless

end CoercionFailure

/-- A coerced value, or why there is none. -/
abbrev Coerced (α : Type) := Except (CoercionFailure InputValueError) α

namespace Coerced

/-- A fault at a place. -/
def fault {α : Type} (fault : InputFault) (path : ValuePath) : Coerced α :=
  .error (.invalid ⟨fault, path⟩)

end Coerced

end GraphQL
