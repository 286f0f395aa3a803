import GraphQL.Document.Basic
import GraphQL.Schema.TypeSystem
import GraphQL.Subscription.Source
import GraphQL.Variables

/-!
# Resolvers

The callbacks of a schema: resolvers produce the raw values of fields, subscribers the event sources
of subscriptions, and type resolvers the object types of values of interface and union types. All of
them see where they are called through `ResolveInfo`.
-/

namespace GraphQL

/-- The coerced arguments of a field. -/
abbrev Arguments := Entries Value

/-- What a callback is told about the field it is called for. -/
structure ResolveInfo where
  fieldName : String
  /-- The selections of the field, which are merged under one response key. -/
  fieldNodes : List Field
  returnType : TypeRef
  parentType : ObjectType
  path : QueryPath
  types : TypeSystem
  fragments : Entries FragmentDefinition
  rootValue : FieldValue
  operation : OperationDefinition
  vars : Variables

/-- What a resolver receives. -/
structure ResolverContext where
  parent : FieldValue
  arguments : Arguments
  info : ResolveInfo
  /-- The value that came with the request. -/
  context : Option Value

/-- Produces the raw value of a field. -/
abbrev Resolver := ResolverContext → Call Resolution

/-- Reads the field from the parent value; a missing one is null. -/
def Resolver.standard : Resolver := fun ctx =>
  .returned [] (.ok ((ctx.parent.field? ctx.info.fieldName).getD .null))

/-- Returns the parent value. -/
def Resolver.payload : Resolver := fun ctx => .returned [] (.ok ctx.parent)

/-- Produces the event source of a subscription field. -/
abbrev Subscriber := ResolverContext → Call (Except ResolverError EventSource)

/-- Leaves out the payloads for which the predicate on payload and arguments fails. -/
def Subscriber.withFilter (keep : FieldValue → Arguments → Call Bool) (subscriber : Subscriber) :
    Subscriber := fun ctx => do
  return (← subscriber ctx).map (.filtered fun payload => keep payload ctx.arguments)

/-- Names the object type of a value of the interface or union type with the given name. -/
abbrev TypeResolver := FieldValue → ResolveInfo → String → Call (Option String)

namespace TypeResolver

/-- The first of the object types whose predicate accepts the value. -/
def firstAccepting (value : FieldValue) : List ObjectType → Call (Option String)
  | [] => .returned [] none
  | object :: rest =>
      match object.isTypeOf with
      | some isTypeOf => (isTypeOf value).bind fun accepted =>
          if accepted then .returned [] (some object.name) else firstAccepting value rest
      | none => firstAccepting value rest

/-- The object type that a value names itself: the type of a data source, or the text under the key
`__typename` of an object. -/
def ownTypeName? (value : FieldValue) : Option String :=
  match value.untyped with
  | .source typeName _ => typeName
  | .plain (.object entries) =>
      match Entries.get? entries "__typename" with
      | some (.string name) => some name
      | _ => none
  | _ => none

/-- Takes, in this order, the type that the value is marked with, the one that it names itself, and
the first possible type whose predicate accepts it. -/
def standard : TypeResolver := fun value info abstractType =>
  match value.typeMarker?.or (ownTypeName? value) with
  | some name => .returned [] (some name)
  | none => firstAccepting value (info.types.possibleTypes abstractType)

end TypeResolver

end GraphQL
