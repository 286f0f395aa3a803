import GraphQL.Scalar.Builtin
import GraphQL.Schema.Basic

/-!
# Building schemas

A builder collects types, callbacks and settings in any order; `SchemaBuilder.finish` checks them
against each other and makes the schema. Every schema starts out with the scalars of
`ScalarType.builtins`, which a type of the same name replaces.
-/

namespace GraphQL

/-- Why a builder makes no schema. -/
inductive SchemaError where
  | duplicateType (name : String)
  | unknownType (name location : String)
  | notAnOutputType (name location : String)
  | notAnInputType (name location : String)
  | invalidRootType (name : String)
  | invalidUnionMember (union member : String)
  | invalidInterface (object interface : String)
  | missingInterfaceField (object interface field : String)
  | unknownField (typeName field : String)
deriving DecidableEq, Repr

namespace SchemaError

/-- The name of the kind of an error. -/
def kindName : SchemaError → String
  | .duplicateType _ => "DuplicateType"
  | .unknownType _ _ => "UnknownType"
  | .notAnOutputType _ _ => "NotAnOutputType"
  | .notAnInputType _ _ => "NotAnInputType"
  | .invalidRootType _ => "InvalidRootType"
  | .invalidUnionMember _ _ => "InvalidUnionMember"
  | .invalidInterface _ _ => "InvalidInterface"
  | .missingInterfaceField _ _ _ => "MissingInterfaceField"
  | .unknownField _ _ => "UnknownField"

/-- The message of an error. -/
def message : SchemaError → String
  | .duplicateType name => s!"Type '{name}' is defined more than once"
  | .unknownType name location => s!"Unknown type '{name}' referenced by {location}"
  | .notAnOutputType name location =>
      s!"Type '{name}' used by {location} is an input object and cannot be used as an output type"
  | .notAnInputType name location =>
      s!"Type '{name}' used by {location} is not a scalar, enum or input object and cannot be used as an input type"
  | .invalidRootType name => s!"Root type '{name}' must be an object type"
  | .invalidUnionMember union member =>
      s!"Union '{union}' has a member '{member}' which is not an object type"
  | .invalidInterface object interface =>
      s!"Type '{object}' implements '{interface}' which is not an interface"
  | .missingInterfaceField object interface field =>
      s!"Type '{object}' does not define the field '{field}' of its interface '{interface}'"
  | .unknownField typeName field => s!"Field '{typeName}.{field}' does not exist"

end SchemaError

/-- A type with the callbacks that are declared together with it. -/
structure Registration where
  definition : TypeDefinition
  hooks : TypeHooks

/-- What has been collected for a schema. -/
structure SchemaBuilder where
  types : Entries Registration
  queryName : String
  mutationName : Option String
  subscriptionName : Option String
  /-- The names that types have been registered under. -/
  registered : List String
  /-- The names that types have been registered under again. -/
  duplicates : List String
  /-- Resolvers of fields, by type and field name. -/
  resolvers : List (String × String × Resolver)
  /-- Subscribers of fields, by type and field name. -/
  subscribers : List (String × String × Subscriber)
  /-- Wrappers of the resolvers of fields, by type and field name. -/
  wrappers : List (String × String × (Resolver → Resolver))
  config : Config

namespace SchemaBuilder

/-- Puts scalars into a table of types. -/
def insertScalars (types : Entries Registration) (scalars : List ScalarType) :
    Entries Registration :=
  scalars.foldl (fun types scalar => Entries.insert types scalar.name ⟨.scalar scalar, .none⟩) types

/-- A builder with the given root types and nothing but the scalars that every schema has. -/
def new (query : String) (mutation subscription : Option String) : SchemaBuilder where
  types := insertScalars [] ScalarType.builtins
  queryName := query
  mutationName := mutation
  subscriptionName := subscription
  registered := []
  duplicates := []
  resolvers := []
  subscribers := []
  wrappers := []
  config := .standard

/-- Registers a type. A name can be registered once; scalars of the engine may be replaced. -/
def register (builder : SchemaBuilder) (registration : Registration) : SchemaBuilder :=
  let name := registration.definition.name
  let again := builder.registered.contains name
  { builder with
    types := Entries.insert builder.types name registration
    registered := if again then builder.registered else builder.registered ++ [name]
    duplicates := if again then builder.duplicates ++ [name] else builder.duplicates }

/-- Adds the scalars that a schema may ask for. -/
def withExtraScalars (builder : SchemaBuilder) : SchemaBuilder :=
  { builder with types := insertScalars builder.types ScalarType.extras }

/-- Changes the settings. -/
def withConfig (builder : SchemaBuilder) (config : Config) : SchemaBuilder :=
  { builder with config }

/-- Sets the resolver of a field, in place of one declared with the field. -/
def resolver (builder : SchemaBuilder) (typeName fieldName : String) (resolver : Resolver) :
    SchemaBuilder :=
  { builder with resolvers := builder.resolvers ++ [(typeName, fieldName, resolver)] }

/-- Sets the subscriber of a field, in place of one declared with the field. -/
def subscriber (builder : SchemaBuilder) (typeName fieldName : String) (subscriber : Subscriber) :
    SchemaBuilder :=
  { builder with subscribers := builder.subscribers ++ [(typeName, fieldName, subscriber)] }

/-- Wraps the resolver of a field, once all resolvers are set. A field without one gets the standard
resolver wrapped. -/
def wrapResolver (builder : SchemaBuilder) (typeName fieldName : String)
    (wrapper : Resolver → Resolver) : SchemaBuilder :=
  { builder with wrappers := builder.wrappers ++ [(typeName, fieldName, wrapper)] }

/-- Changes the callbacks of a field, which has to exist. -/
def modifyField (types : Entries Registration) (typeName fieldName : String)
    (f : FieldHooks → FieldHooks) : Except SchemaError (Entries Registration) :=
  match (Entries.get? types typeName).bind (·.definition.field? fieldName) with
  | some _ =>
      .ok (Entries.modify types typeName fun registration =>
        { registration with hooks := registration.hooks.modifyField fieldName f })
  | none => .error (.unknownField typeName fieldName)

/-- Attaches callbacks to fields one after the other. -/
def attach {α : Type} (change : α → FieldHooks → FieldHooks) (types : Entries Registration)
    (callbacks : List (String × String × α)) : Except SchemaError (Entries Registration) :=
  callbacks.foldlM (fun types callback =>
    modifyField types callback.1 callback.2.1 (change callback.2.2)) types

/-- Whether a reference to a type is for output or for input. -/
inductive Usage where
  | output
  | input
deriving DecidableEq, Repr

/-- A reference to a type from somewhere in a type. -/
structure TypeUse where
  usage : Usage
  type : TypeRef
  location : String

/-- The references that the fields of a type hold. -/
def fieldUses (typeName : String) (fields : Entries FieldDefinition) : List TypeUse :=
  (Entries.values fields).flatMap fun field =>
    ⟨.output, field.type, typeName ++ "." ++ field.name⟩ ::
      (Entries.values field.arguments.entries).map fun argument =>
        ⟨.input, argument.type, typeName ++ "." ++ field.name ++ "(" ++ argument.name ++ ":)"⟩

/-- The references that a type holds. -/
def typeUses : TypeDefinition → List TypeUse
  | .object type => fieldUses type.name type.fields.entries
  | .interface type => fieldUses type.name type.fields.entries
  | .inputObject type =>
      (Entries.values type.fields.entries).map fun field =>
        ⟨.input, field.type, type.name ++ "." ++ field.name⟩
  | .scalar _ | .union _ | .enum _ => []

/-- Checks that a reference names a type that can be used as it is. -/
def checkUse (types : Entries TypeDefinition) (use : TypeUse) : Except SchemaError Unit :=
  match Entries.get? types use.type.name, use.usage with
  | none, _ => .error (.unknownType use.type.name use.location)
  | some definition, .output =>
      if definition.isOutput then .ok () else .error (.notAnOutputType use.type.name use.location)
  | some definition, .input =>
      if definition.isInput then .ok () else .error (.notAnInputType use.type.name use.location)

/-- Checks that an object type has the fields of an interface it declares. -/
def checkInterface (types : Entries TypeDefinition) (object : ObjectType) (name : String) :
    Except SchemaError Unit :=
  match Entries.get? types name with
  | some (.interface interface) =>
      match (Entries.keys interface.fields.entries).find? fun field =>
          !Entries.contains object.fields.entries field with
      | some field => .error (.missingInterfaceField object.name name field)
      | none => .ok ()
  | _ => .error (.invalidInterface object.name name)

/-- Checks that a member of a union is an object type. -/
def checkMember (types : Entries TypeDefinition) (union : UnionType) (member : String) :
    Except SchemaError Unit :=
  if (Entries.get? types member).any TypeDefinition.isObject then .ok ()
  else .error (.invalidUnionMember union.name member)

/-- Checks what a type says about object types. -/
def checkMembership (types : Entries TypeDefinition) : TypeDefinition → Except SchemaError Unit
  | .object object => object.interfaces.forM (checkInterface types object)
  | .union union => union.members.forM (checkMember types union)
  | _ => .ok ()

/-- Checks that a root type is an object type. -/
def checkRoot (types : Entries TypeDefinition) (name : String) : Except SchemaError Unit :=
  if (Entries.get? types name).any TypeDefinition.isObject then .ok ()
  else .error (.invalidRootType name)

/-- The names of the object types that declare an interface. -/
def implementors (types : Entries TypeDefinition) (interface : String) : List String :=
  types.filterMap fun entry =>
    match entry.2 with
    | .object object => if object.interfaces.contains interface then some object.name else none
    | _ => none

/-- The names of the object types that each interface and each union stands for. -/
def possibleTypes (types : Entries TypeDefinition) : Entries (List String) :=
  types.filterMap fun entry =>
    match entry.2 with
    | .interface interface => some (interface.name, implementors types interface.name)
    | .union union => some (union.name, union.members.eraseDups)
    | _ => none

/-- The definitions in a table of registrations. -/
def definitions (types : Entries Registration) : Entries TypeDefinition :=
  types.map fun entry => (entry.1, entry.2.definition)

/-- The names of the root types. -/
def roots (builder : SchemaBuilder) : List String :=
  builder.queryName :: builder.mutationName.toList ++ builder.subscriptionName.toList

/-- Checks everything and makes the schema. -/
def finish (builder : SchemaBuilder) : Except SchemaError Schema := do
  if let some name := builder.duplicates.head? then throw (.duplicateType name)
  let definitions := definitions builder.types
  builder.roots.forM (checkRoot definitions)
  let types ← attach (fun resolver hooks => { hooks with resolver := some resolver })
    builder.types builder.resolvers
  let types ← attach (fun subscriber hooks => { hooks with subscriber := some subscriber })
    types builder.subscribers
  let types ← attach
    (fun wrapper hooks => { hooks with resolver := some (wrapper (hooks.resolver.getD .standard)) })
    types builder.wrappers
  ((Entries.values definitions).flatMap typeUses).forM (checkUse definitions)
  (Entries.values definitions).forM (checkMembership definitions)
  return {
    types := {
      types := definitions
      queryName := builder.queryName
      mutationName := builder.mutationName
      subscriptionName := builder.subscriptionName
      possible := possibleTypes definitions }
    hooks := types.map fun entry => (entry.1, entry.2.hooks)
    config := builder.config }

end SchemaBuilder

end GraphQL
