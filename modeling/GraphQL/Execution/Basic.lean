import GraphQL.Execution.Field

/-!
# Executing operations

`execute` runs an operation of a document. The result is a coroutine: its first visit is made at
once, and the response is there after it if no resolver had to wait.
-/

namespace GraphQL

mutual

/-- The number of fields in a selection, at any depth. -/
def Selection.fieldCount : Selection → Nat
  | .field node => FieldNode.fieldCount node
  | .spread _ _ => 0
  | .inline _ _ selections => Selection.fieldCounts selections

/-- The number of fields in a selected field, itself included. -/
def FieldNode.fieldCount : FieldNode Selection → Nat
  | ⟨_, _, _, _, selections, _⟩ => Selection.fieldCounts selections + 1

/-- The number of fields in some selections, at any depth. -/
def Selection.fieldCounts : List Selection → Nat
  | [] => 0
  | selection :: rest => selection.fieldCount + Selection.fieldCounts rest

end

namespace ExecutionContext

/-- How many levels of objects are executed when fragments spread each other in a circle, on top of
the number of fields in the document. An execution that goes on below them may go on for ever; any
other one does not depend on the number. -/
def circularDepth : Nat := 4096

/-- How many levels of objects are executed. Without circular fragments selections do not nest
deeper than there are fields in the document. -/
def depthLimit (ctx : ExecutionContext) : Nat :=
  Selection.fieldCounts
    (ctx.operation.selections ++ ctx.fragments.flatMap fun entry => entry.2.selections) +
      circularDepth

/-- Whether the root fields run one after the other. -/
def isSerial (ctx : ExecutionContext) : Bool :=
  ctx.operation.type == .mutation && ctx.schema.config.serialMutations

/-- Executes the operation. An error that no field could absorb makes all data null. The root type is
among the types that a schema is checked for, so it is there. -/
def executeOperation (ctx : ExecutionContext) : Run Value :=
  match ctx.rootType? with
  | none => .abort [] .unreachable
  | some root =>
      (ctx.executeGroups (ctx.selectWithin ctx.depthLimit) ctx.isSerial root ctx.rootValue .empty
        (ctx.collectFields root [ctx.operation.selections])).bind fun result =>
          match result with
          | .ok data => .finish [] data
          | .error error => .finish [.recorded error] .null

/-- Makes the response of an execution from its data and the errors that it records, after the given
ones. -/
def respondWith (expose : Bool) (recorded : List GraphQLError) : Run Value → Run Response
  | .finish log data =>
      .finish log
        ((Response.mk data (recorded ++ log.filterMap Event.error?)).withExposedCauses expose)
  | .abort log why => .abort log why
  | .suspend log rest =>
      .suspend log (respondWith expose (recorded ++ log.filterMap Event.error?) rest)

/-- Executes the operation and makes the response. -/
def respond (ctx : ExecutionContext) : Run Response :=
  respondWith ctx.schema.config.exposeErrorCauses [] ctx.executeOperation

end ExecutionContext

/-- Executes an operation of a document. A request that cannot be executed is answered at once. -/
def execute (schema : Schema) (document : Document) (params : ExecutionParams) : Run Response :=
  match ExecutionContext.build schema document params with
  | .error why => .abort [] why
  | .ok (.error errors) => .finish [] (.requestError errors)
  | .ok (.ok ctx) => ctx.respond

end GraphQL
