import GraphQL.Value.Text

/-!
# Scalar types

A scalar is a name with three conversions: of a resolver's value into the response, of a variable's
value and of a literal into the value that resolvers see.
-/

namespace GraphQL

/-- Why a scalar rejects a value. -/
inductive ScalarError where
  /-- The value is of the wrong kind altogether. -/
  | incorrectType
  /-- The value is of the right kind but not acceptable. -/
  | incorrectValue
  | custom (message : String)
deriving DecidableEq, Repr

/-- The message of a rejection. -/
def ScalarError.message : ScalarError → String
  | .incorrectType => "incorrect value type"
  | .incorrectValue => "incorrect value"
  | .custom message => message

/-- A scalar type. -/
structure ScalarType where
  name : String
  description : Option String
  /-- Turns a resolver's value into a response value, or says why it cannot. -/
  serialize : Value → Except String Value
  /-- Reads the value of a variable. -/
  parseValue : Value → Except ScalarError Value
  /-- Reads a literal of the operation. -/
  parseLiteral : Value → Except ScalarError Value

namespace ScalarType

/-- A scalar that passes every value through. -/
def new (name : String) : ScalarType := ⟨name, none, .ok, .ok, .ok⟩

/-- The names of the scalars that every schema has. -/
def builtinNames : List String := ["Int", "Float", "String", "Boolean", "ID"]

/-- Whether a scalar has the name of one that every schema has. -/
def isBuiltin (scalar : ScalarType) : Bool := builtinNames.contains scalar.name

end ScalarType

end GraphQL
