import GraphQL.Coercion.Arguments
import GraphQL.Execution.Complete

/-!
# Executing fields

A field is executed by coercing its arguments, calling its resolver and completing the raw value.
The fields of an object run side by side, or one after the other; either way the result keeps
document order.
-/

namespace GraphQL

namespace ExecutionContext

/-- Calls a resolver and waits for its result. A panic, at the call or later, is a failure where the
settings say so. -/
def invoke (ctx : ExecutionContext) (resolver : Resolver) (resolverContext : ResolverContext) :
    Run ResolverResult :=
  let run : Run ResolverResult :=
    ((resolver resolverContext).toCoroutine .said).bind fun resolution =>
      resolution.toCoroutine.mapLog .said
  let caught :=
    if ctx.schema.config.catchResolverPanics then run.catchPanic (.error .panicked) else run
  let path := resolverContext.info.path
  (caught.bind fun result => .finish [.settled path] result).prepend
    [.called path resolverContext.parent resolverContext.arguments]

/-- The resolver of a field without the interceptors: its own one, for the root field of an event
the payload, otherwise the one of the request. -/
def baseResolver (ctx : ExecutionContext) (typeName fieldName : String) (atRoot : Bool) : Resolver :=
  match (ctx.schema.fieldHooks typeName fieldName).resolver with
  | some resolver => resolver
  | none => if ctx.isEvent && atRoot then .payload else ctx.fieldResolver

/-- What callbacks are told about a field. -/
def resolveInfo (ctx : ExecutionContext) (object : ObjectType) (definition : FieldDefinition)
    (name : String) (nodes : List Field) (path : QueryPath) : ResolveInfo where
  fieldName := name
  fieldNodes := nodes
  returnType := definition.type
  parentType := object
  path := path
  types := ctx.schema.types
  fragments := ctx.fragments
  rootValue := ctx.rootValue
  operation := ctx.operation
  vars := ctx.vars

/-- Executes a field that its object type defines. Its interceptors are put around its resolver anew; a
request remembers what it has composed (`ComposedChains`), which comes to the same. -/
def executeDefined (ctx : ExecutionContext) (select : Select) (object : ObjectType)
    (parent : FieldValue) (atRoot : Bool) (definition : FieldDefinition) (node : Field)
    (info : ResolveInfo) : Run Completed :=
  let nonNull := definition.type.isNonNull
  match Coercion.coerceArguments ctx.schema.types definition node ctx.vars with
  | .error .endless => .abort [] .endless
  | .error (.invalid error) =>
      (Completed.fail (error.withPath info.path.toErrorPath)).bind (Completed.absorb nonNull)
  | .ok arguments =>
      let resolver := ctx.middleware.wrap object.name node.name
        (ctx.baseResolver object.name node.name atRoot)
      (ctx.invoke resolver ⟨parent, arguments, info, ctx.context⟩).bind fun result =>
        let completed := match result with
          | .error error => Completed.fail (info.located info.path error.toGraphQLError)
          | .ok value => Completion.completeValue ctx select info value
        completed.bind (Completed.absorb nonNull)

/-- The error of a field that its object type does not define. -/
def undefinedField (object : ObjectType) (node : Field) (nodes : List Field) (path : QueryPath) :
    GraphQLError :=
  ((GraphQLError.new s!"Field '{node.name}' is not defined on type '{object.name}'."
    .internalServerError).withLocations (nodes.map FieldNode.location)).withPath path.toErrorPath

/-- Executes the selections under one response key. The first of them stands for all, so there has to be
one; `ExecutionContext.collectFields` makes no group without any. -/
def executeField (ctx : ExecutionContext) (select : Select) (object : ObjectType)
    (parent : FieldValue) (parentPath : QueryPath) (key : String) (nodes : List Field) :
    Run Completed :=
  match nodes with
  | [] => .abort [] .outOfBounds
  | node :: _ =>
      let path := parentPath.field key object.name
      if node.name == "__typename" then .finish [] (.ok (.string object.name))
      else
        match object.field? node.name with
        | none =>
            (Completed.fail (undefinedField object node nodes path)).bind (Completed.absorb false)
        | some definition =>
            ctx.executeDefined select object parent parentPath.isEmpty definition node
              (ctx.resolveInfo object definition node.name nodes path)

/-- Executes fields one after the other, up to the first error that is left to the object. -/
def executeInTurn (execute : String → List Field → Run Completed) :
    FieldGroups → Run (Except GraphQLError (List (String × Value)))
  | [] => .finish [] (.ok [])
  | (key, nodes) :: rest =>
      (execute key nodes).bind fun result =>
        match result with
        | .error error => .finish [] (.error error)
        | .ok value => (executeInTurn execute rest).map (Except.map ((key, value) :: ·))

/-- Executes fields side by side. -/
def executeTogether (execute : String → List Field → Run Completed) (groups : FieldGroups) :
    Run (Except GraphQLError (List (String × Value))) :=
  (Coroutine.joinAll (groups.map fun group =>
    (execute group.1 group.2).map (Except.map fun value => (group.1, value)))).bind gather

/-- Executes the fields of an object. -/
def executeGroups (ctx : ExecutionContext) (select : Select) (serial : Bool) (object : ObjectType)
    (parent : FieldValue) (path : QueryPath) (groups : FieldGroups) : Run Completed :=
  let execute := ctx.executeField select object parent path
  let entries := if serial then executeInTurn execute groups else executeTogether execute groups
  entries.map (Except.map .object)

/-- Executes selection sets that nest at most as deep as the given number. -/
def selectWithin (ctx : ExecutionContext) : Nat → Select
  | 0 => fun _ _ _ _ => .abort [] .endless
  | depth + 1 => fun object selectionSets value path =>
      ctx.executeGroups (selectWithin ctx depth) false object value path
        (ctx.collectFields object selectionSets)

end ExecutionContext

end GraphQL
