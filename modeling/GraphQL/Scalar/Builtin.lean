import GraphQL.Scalar.Basic
import GraphQL.Scalar.DateTime
import GraphQL.Scalar.NumberText

/-!
# The scalars of the engine

`Int`, `Float`, `String`, `Boolean` and `ID`, which every schema has, and `Timestamp` and `JSON`,
which a schema may ask for.
-/

namespace GraphQL

namespace Number

/-- The number as an integer of 32 bits, if it is one; floats without a fraction are. -/
def toInt32? : Number → Option Int
  | .int n => if NumberText.isInt32 n then some n else none
  | .float f => do
      let n ← (← BinaryParts.ofFloat? f).toInt?
      if NumberText.isInt32 n then some n else none

/-- The number as a finite float. -/
def toFiniteFloat? (n : Number) : Option Float :=
  if n.toFloat.isFinite then some n.toFloat else none

end Number

namespace ScalarType

/-- Fails with a message that ends in a value. -/
def cannot {α : Type} (what : String) (value : Value) : Except String α :=
  .error (what ++ ": " ++ value.text)

/-- The result of a conversion, or a failure with a message that ends in a value. -/
def orCannot (what : String) (value : Value) : Option Value → Except String Value
  | some result => .ok result
  | none => cannot what value

/-- Output of `Int`. -/
def serializeInt (value : Value) : Except String Value :=
  match value with
  | .number n =>
      orCannot "Int cannot represent non 32-bit signed integer value" value (n.toInt32?.map Value.int)
  | .bool b => .ok (.int (if b then 1 else 0))
  | .string s =>
      match NumberText.int32? s with
      | some n => .ok (.int n)
      | none => .error ("Int cannot represent non-integer value: \"" ++ s ++ "\"")
  | _ => cannot "Int cannot represent non-integer value" value

/-- A number as an integer of 32 bits. -/
def parseIntNumber (n : Number) : Except ScalarError Value :=
  match n.toInt32? with
  | some n => .ok (.int n)
  | none => .error .incorrectValue

/-- Variables of `Int`: integers, also those written as floats. -/
def parseIntValue : Value → Except ScalarError Value
  | .number n => parseIntNumber n
  | _ => .error .incorrectType

/-- Literals of `Int`: integers only. -/
def parseIntLiteral : Value → Except ScalarError Value
  | .number (.int n) => parseIntNumber (.int n)
  | _ => .error .incorrectType

/-- Whole numbers of 32 bits with a sign. -/
def int : ScalarType where
  name := "Int"
  description := some "The `Int` scalar type represents non-fractional signed whole numeric values between -(2^31) and 2^31 - 1."
  serialize := serializeInt
  parseValue := parseIntValue
  parseLiteral := parseIntLiteral

/-- Output of `Float`. -/
def serializeFloat (value : Value) : Except String Value :=
  match value with
  | .number n =>
      orCannot "Float cannot represent non numeric value" value
        (n.toFiniteFloat?.map fun f => .number (.float f))
  | .bool b => .ok (.int (if b then 1 else 0))
  | .string s =>
      match NumberText.float? s with
      | some f => .ok (.number (.float f))
      | none => .error ("Float cannot represent non numeric value: \"" ++ s ++ "\"")
  | _ => cannot "Float cannot represent non numeric value" value

/-- Input of `Float`: any number. -/
def parseFloat : Value → Except ScalarError Value
  | .number n =>
      match n.toFiniteFloat? with
      | some f => .ok (.number (.float f))
      | none => .error .incorrectValue
  | _ => .error .incorrectType

/-- Numbers with a fraction. -/
def float : ScalarType where
  name := "Float"
  description := some "The `Float` scalar type represents signed double-precision fractional values as specified by IEEE 754."
  serialize := serializeFloat
  parseValue := parseFloat
  parseLiteral := parseFloat

/-- Output of `String`. -/
def serializeString (value : Value) : Except String Value :=
  match value with
  | .string s => .ok (.string s)
  | .enum name => .ok (.string name)
  | .number n => .ok (.string n.text)
  | .bool b => .ok (.string (if b then "true" else "false"))
  | _ => cannot "String cannot represent value" value

/-- Input of `String`. -/
def parseString : Value → Except ScalarError Value
  | .string s => .ok (.string s)
  | _ => .error .incorrectType

/-- Texts. -/
def string : ScalarType where
  name := "String"
  description := some "The `String` scalar type represents textual data, represented as UTF-8 character sequences."
  serialize := serializeString
  parseValue := parseString
  parseLiteral := parseString

/-- Output of `Boolean`. -/
def serializeBoolean (value : Value) : Except String Value :=
  match value with
  | .bool b => .ok (.bool b)
  | .number n => .ok (.bool (n.toFloat != 0.0))
  | _ => cannot "Boolean cannot represent a non boolean value" value

/-- Input of `Boolean`. -/
def parseBoolean : Value → Except ScalarError Value
  | .bool b => .ok (.bool b)
  | _ => .error .incorrectType

/-- Truth values. -/
def boolean : ScalarType where
  name := "Boolean"
  description := some "The `Boolean` scalar type represents `true` or `false`."
  serialize := serializeBoolean
  parseValue := parseBoolean
  parseLiteral := parseBoolean

/-- Output of `ID`. -/
def serializeId (value : Value) : Except String Value :=
  match value with
  | .string s => .ok (.string s)
  | .number (.int n) => .ok (.string (Number.int n).text)
  | _ => cannot "ID cannot represent value" value

/-- Input of `ID`. -/
def parseId : Value → Except ScalarError Value
  | .string s => .ok (.string s)
  | .number (.int n) => .ok (.string (Number.int n).text)
  | .number (.float _) => .error .incorrectValue
  | _ => .error .incorrectType

/-- Identifiers. -/
def id : ScalarType where
  name := "ID"
  description := some "The `ID` scalar type represents a unique identifier, serialized as a string."
  serialize := serializeId
  parseValue := parseId
  parseLiteral := parseId

/-- Input of `Timestamp`. -/
def parseTimestamp : Value → Except ScalarError Value
  | .number (.int n) => if DateTime.isInRange n then .ok (.int n) else .error .incorrectValue
  | .number (.float _) => .error .incorrectValue
  | .string s =>
      match DateTime.parse s with
      | .ok n => .ok (.int n)
      | .error error => .error (.custom error.message)
  | _ => .error .incorrectType

/-- Output of `Timestamp`. -/
def serializeTimestamp (value : Value) : Except String Value :=
  match parseTimestamp value with
  | .ok result => .ok result
  | .error _ => cannot "Timestamp cannot represent value" value

/-- Instants. -/
def timestamp : ScalarType where
  name := "Timestamp"
  description := some "A point in time, as the number of milliseconds since the unix epoch."
  serialize := serializeTimestamp
  parseValue := parseTimestamp
  parseLiteral := parseTimestamp

/-- Values of any form. -/
def json : ScalarType := { new "JSON" with description := some "Arbitrary JSON value." }

/-- The scalars that every schema has. -/
def builtins : List ScalarType := [int, float, string, boolean, id]

/-- The scalars that a schema may ask for. -/
def extras : List ScalarType := [timestamp, json]

end ScalarType

end GraphQL
