import GraphQL.Coercion.Variables
import GraphQL.Document.Reader
import GraphQL.Middleware
import GraphQL.Response
import GraphQL.Schema.Basic

/-!
# What an execution works with

`ExecutionParams` is what a request adds to the schema and the document. An `ExecutionContext` is made
of all three when the request selects an operation that the schema supports, with variables that
can be coerced; otherwise the errors are all there is to answer.
-/

namespace GraphQL

/-- What a request adds to the schema and the document. -/
structure ExecutionParams where
  rootValue : FieldValue := .null
  /-- A value that is handed to every resolver. -/
  context : Option Value := none
  vars : Variables := .empty
  operationName : Option String := none
  /-- The resolver of fields without one of their own. -/
  fieldResolver : Resolver := .standard
  /-- The type resolver of abstract types without one of their own. -/
  typeResolver : TypeResolver := .standard
  middleware : Middleware := .empty

/-- Why no operation is executed. -/
inductive SelectionError where
  | unknownOperation (name : String)
  | missingOperationName
  | noOperation
  | unsupportedOperation (type : OperationType)
deriving DecidableEq, Repr

namespace SelectionError

/-- The message of an error. -/
def message : SelectionError → String
  | .unknownOperation name => s!"Unknown operation named '{name}'."
  | .missingOperationName =>
      "Must provide operation name if query contains multiple operations."
  | .noOperation => "Must provide an operation."
  | .unsupportedOperation type => s!"Schema is not configured to execute {type.name} operation."

/-- The code of an error. -/
def code : SelectionError → ErrorCode
  | .unsupportedOperation _ => .badRequest
  | _ => .operationSelectionError

/-- The error that clients see. -/
def toGraphQLError (error : SelectionError) : GraphQLError := .new error.message error.code

end SelectionError

/-- What all fields of an execution share. -/
structure ExecutionContext where
  schema : Schema
  fragments : Entries FragmentDefinition
  operation : OperationDefinition
  rootValue : FieldValue
  context : Option Value
  vars : Variables
  fieldResolver : Resolver
  typeResolver : TypeResolver
  middleware : Middleware
  /-- Whether the root value is the payload of an event, which the root field resolves to. -/
  isEvent : Bool

namespace ExecutionContext

/-- The operation of the given name; the name may be left out if there is only one operation, and has
to be if that has none. -/
def selectOperation (operations : Operations) (name : Option String) :
    Except SelectionError OperationDefinition :=
  match operations, name with
  | .anonymous operation, none => .ok operation
  | .anonymous _, some name => .error (.unknownOperation name)
  | .named operations, some name =>
      match Entries.get? operations name with
      | some operation => .ok operation
      | none => .error (.unknownOperation name)
  | .named [], none => .error .noOperation
  | .named [(_, operation)], none => .ok operation
  | .named _, none => .error .missingOperationName

/-- Whether a type system has a root type for operations of the given kind. -/
def supports (types : TypeSystem) : OperationType → Bool
  | .query => true
  | .mutation => types.mutationType?.isSome
  | .subscription => types.subscriptionType?.isSome

/-- Selects a supported operation. -/
def select (schema : Schema) (document : Document) (name : Option String) :
    Except SelectionError OperationDefinition := do
  let operation ← selectOperation document.operations name
  if supports schema.types operation.type then return operation
  else throw (.unsupportedOperation operation.type)

/-- Prepares an execution, or gives the errors of the request. -/
def build (schema : Schema) (document : Document) (params : ExecutionParams) :
    Except Abort (Except (List GraphQLError) ExecutionContext) :=
  match select schema document params.operationName with
  | .error error => .ok (.error [error.toGraphQLError])
  | .ok operation => do
      let vars ← Coercion.coerceVariables schema.types schema.config.maxVariableErrors
        operation.variableDefinitions params.vars
      return vars.map fun vars =>
        { schema, fragments := document.fragments, operation, rootValue := params.rootValue,
          context := params.context, vars, fieldResolver := params.fieldResolver,
          typeResolver := params.typeResolver, middleware := params.middleware, isEvent := false }

/-- The execution of the operation for the payload of an event. -/
def forEvent (ctx : ExecutionContext) (payload : FieldValue) : ExecutionContext :=
  { ctx with rootValue := payload, isEvent := true }

/-- The type that the schema has for operations of the kind. -/
def ownRootType? (ctx : ExecutionContext) : Option ObjectType :=
  match ctx.operation.type with
  | .query => ctx.schema.types.queryType?
  | .mutation => ctx.schema.types.mutationType?
  | .subscription => ctx.schema.types.subscriptionType?

/-- The root type of the operation. Only supported operations are selected, so their own type is there; the
query type would stand in for it. -/
def rootType? (ctx : ExecutionContext) : Option ObjectType :=
  ctx.ownRootType?.or ctx.schema.types.queryType?

end ExecutionContext

end GraphQL
