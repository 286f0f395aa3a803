import GraphQL.Coroutine
import GraphQL.FieldValue
import GraphQL.Filed
import GraphQL.Scalar.Basic
import GraphQL.TypeRef

/-!
# Type definitions

The types of a schema as data. What runs when a field is resolved is not part of a definition; a
schema keeps that beside it.

Fields, arguments and enum values are added to a type one by one, each under its own name, so a type has
them as `Filed`: what is found under a name is a definition of that name, and no name is there twice.
-/

namespace GraphQL

/-- An argument of a field, or a field of an input object. -/
structure InputValueDefinition where
  name : String
  description : Option String
  type : TypeRef
  /-- The value used when none is given; null is a value. -/
  fallback : Option Value

/-- A field of an object or interface type. -/
structure FieldDefinition where
  name : String
  description : Option String
  type : TypeRef
  arguments : Filed InputValueDefinition.name

/-- Tells whether a raw value belongs to an object type. -/
abbrev TypePredicate := FieldValue → Call Bool

/-- An object type. -/
structure ObjectType where
  name : String
  description : Option String
  fields : Filed FieldDefinition.name
  interfaces : List String
  isTypeOf : Option TypePredicate

/-- The field of the given name. -/
def ObjectType.field? (object : ObjectType) (name : String) : Option FieldDefinition :=
  Entries.get? object.fields.entries name

/-- An interface type. -/
structure InterfaceType where
  name : String
  description : Option String
  fields : Filed FieldDefinition.name

/-- A union type. -/
structure UnionType where
  name : String
  description : Option String
  members : List String

/-- A value of an enum type with the value that resolvers see in its place. -/
structure EnumValue where
  name : String
  description : Option String
  value : Value

/-- An enum value that resolvers see as a string. -/
def EnumValue.new (name : String) : EnumValue := ⟨name, none, .string name⟩

/-- An enum type. -/
structure EnumType where
  name : String
  description : Option String
  values : Filed EnumValue.name

namespace EnumType

/-- The internal value of a name. -/
def parse? (type : EnumType) (name : String) : Option Value :=
  (Entries.get? type.values.entries name).map EnumValue.value

/-- The name of an internal value. A text that is no value's internal value may be the name itself. -/
def serialize? (type : EnumType) (value : Value) : Option String :=
  match (Entries.values type.values.entries).find? fun candidate => Value.same candidate.value value with
  | some found => some found.name
  | none =>
      match value with
      | .enum name | .string name => (Entries.get? type.values.entries name).map fun _ => name
      | _ => none

end EnumType

/-- An input object type. -/
structure InputObjectType where
  name : String
  description : Option String
  fields : Filed InputValueDefinition.name

/-- A type of a schema. -/
inductive TypeDefinition where
  | scalar (type : ScalarType)
  | object (type : ObjectType)
  | interface (type : InterfaceType)
  | union (type : UnionType)
  | enum (type : EnumType)
  | inputObject (type : InputObjectType)

namespace TypeDefinition

/-- The name of a type. -/
def name : TypeDefinition → String
  | .scalar type => type.name
  | .object type => type.name
  | .interface type => type.name
  | .union type => type.name
  | .enum type => type.name
  | .inputObject type => type.name

/-- The name of the kind of a type. -/
def kindName : TypeDefinition → String
  | .scalar _ => "Scalar"
  | .object _ => "Object"
  | .interface _ => "Interface"
  | .union _ => "Union"
  | .enum _ => "Enum"
  | .inputObject _ => "InputObject"

/-- The description of a type. -/
def description : TypeDefinition → Option String
  | .scalar type => type.description
  | .object type => type.description
  | .interface type => type.description
  | .union type => type.description
  | .enum type => type.description
  | .inputObject type => type.description

/-- Whether values of the type have no fields. -/
def isLeaf : TypeDefinition → Bool
  | .scalar _ | .enum _ => true
  | _ => false

/-- Whether values of the type belong to one of several object types. -/
def isAbstract : TypeDefinition → Bool
  | .interface _ | .union _ => true
  | _ => false

/-- Whether this is an object type. -/
def isObject : TypeDefinition → Bool
  | .object _ => true
  | _ => false

/-- Whether variables and arguments may be of the type. -/
def isInput : TypeDefinition → Bool
  | .scalar _ | .enum _ | .inputObject _ => true
  | _ => false

/-- Whether fields may be of the type. -/
def isOutput : TypeDefinition → Bool
  | .inputObject _ => false
  | _ => true

/-- The type as an object type. -/
def object? : TypeDefinition → Option ObjectType
  | .object type => some type
  | _ => none

/-- The fields of an object or interface type. -/
def fields? : TypeDefinition → Option (Entries FieldDefinition)
  | .object type => some type.fields.entries
  | .interface type => some type.fields.entries
  | _ => none

/-- A field of an object or interface type. -/
def field? (type : TypeDefinition) (name : String) : Option FieldDefinition :=
  type.fields?.bind fun fields => Entries.get? fields name

end TypeDefinition

end GraphQL
