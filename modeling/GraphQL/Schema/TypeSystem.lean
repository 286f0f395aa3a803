import GraphQL.Schema.Definition

/-!
# Type systems

The types of a schema by name, its root operation types, and which object types an interface or a
union stands for.
-/

namespace GraphQL

/-- The types of a schema. -/
structure TypeSystem where
  types : Entries TypeDefinition
  queryName : String
  mutationName : Option String
  subscriptionName : Option String
  /-- The names of the object types of every interface and union. -/
  possible : Entries (List String)

namespace TypeSystem

/-- The type of the given name. -/
def type? (system : TypeSystem) (name : String) : Option TypeDefinition :=
  Entries.get? system.types name

/-- The type inside all wrappers of a reference. -/
def namedType? (system : TypeSystem) (ty : TypeRef) : Option TypeDefinition := system.type? ty.name

/-- The object type of the given name. -/
def object? (system : TypeSystem) (name : String) : Option ObjectType :=
  (system.type? name).bind TypeDefinition.object?

/-- A field of an object or interface type. -/
def field? (system : TypeSystem) (typeName fieldName : String) : Option FieldDefinition :=
  (system.type? typeName).bind (·.field? fieldName)

/-- The root type of queries. -/
def queryType? (system : TypeSystem) : Option ObjectType := system.object? system.queryName

/-- The root type of mutations, if there are any. -/
def mutationType? (system : TypeSystem) : Option ObjectType :=
  system.mutationName.bind system.object?

/-- The root type of subscriptions, if there are any. -/
def subscriptionType? (system : TypeSystem) : Option ObjectType :=
  system.subscriptionName.bind system.object?

/-- The names of the object types that an interface or union stands for. -/
def possibleNames (system : TypeSystem) (abstractType : String) : List String :=
  (Entries.get? system.possible abstractType).getD []

/-- The object types that an interface or union stands for. -/
def possibleTypes (system : TypeSystem) (abstractType : String) : List ObjectType :=
  (system.possibleNames abstractType).filterMap system.object?

/-- Whether an interface or union stands for the object type of the given name. -/
def isPossibleType (system : TypeSystem) (abstractType objectType : String) : Bool :=
  (system.possibleNames abstractType).contains objectType

/-- Whether the named type of a reference satisfies a predicate. -/
def namedTypeIs (system : TypeSystem) (p : TypeDefinition → Bool) (ty : TypeRef) : Bool :=
  (system.namedType? ty).any p

/-- Whether the named type of a reference is a scalar or an enum. -/
def isLeafType (system : TypeSystem) (ty : TypeRef) : Bool :=
  system.namedTypeIs TypeDefinition.isLeaf ty

/-- Whether the named type of a reference is an interface or a union. -/
def isAbstractType (system : TypeSystem) (ty : TypeRef) : Bool :=
  system.namedTypeIs TypeDefinition.isAbstract ty

/-- Whether a reference is an object type without any wrapper. -/
def isObjectType (system : TypeSystem) (ty : TypeRef) : Bool :=
  !ty.wrapping.isWrapped && system.namedTypeIs TypeDefinition.isObject ty

end TypeSystem

end GraphQL
