import GraphQL.Proofs.Coercion.ConformingArguments
import GraphQL.Proofs.Execution.EventLogs
import GraphQL.Proofs.Execution.Panics

/-!
# Why fields fail

A place of a response fails for one of five reasons, and whatever an execution logs as a failure is
accounted for by one of them. Each reason fixes the code of the error and where the error points to; what
resolvers and arguments contribute is kept as it is, so that more can be said about it where more is
known of the schema.

## Main definitions

* `TypeSystem.Holds`, `ResolveInfo.IsDeclared` — an object type of the schema, and a field of one;
* `FieldFailure ctx error` — the error is one of a field, for one of the reasons;
* `Event.Explained` — a failure in a log is one of a field.

## Main results

* `FieldFailure.path_isSome`, `FieldFailure.not_isRequestFatal` — the error of a field has a path, and is
  none that keeps an operation from being executed;
* `respond_explained` — whatever fails in an execution fails for one of the reasons.
-/

namespace GraphQL

/-- The object type is one of the type system. -/
def TypeSystem.Holds (types : TypeSystem) (object : ObjectType) : Prop :=
  ∃ name, types.object? name = some object

/-- The callback is told about a field that an object type of the type system defines. -/
def ResolveInfo.IsDeclared (info : ResolveInfo) (types : TypeSystem) : Prop :=
  ∃ object name definition, types.Holds object ∧ object.field? name = some definition ∧
    info.returnType = definition.type

/-- The error of a field whose type is none that fields may have. -/
def ResolveInfo.outputTypeError (info : ResolveInfo) (path : QueryPath) : GraphQLError :=
  info.located path (.new
    s!"Field {info.fieldLabel} has a type {info.returnType.name} which cannot be used as an output type."
    .internalServerError)

/-- The error is that of a field, or of a place inside the value of a field. -/
inductive FieldFailure (ctx : ExecutionContext) : GraphQLError → Prop
  /-- The object type does not define the field. -/
  | undefined (object : ObjectType) (node : Field) (nodes : List Field) (path : QueryPath) :
      FieldFailure ctx (ExecutionContext.undefinedField object node nodes path)
  /-- An argument of a field of the schema cannot be coerced. -/
  | argument {object : ObjectType} {definition : FieldDefinition} {node : Field}
      {error : GraphQLError} (path : QueryPath) (hobject : ctx.schema.types.Holds object)
      (hdefinition : object.field? node.name = some definition)
      (h : Coercion.coerceArguments ctx.schema.types definition node ctx.vars =
        .error (.invalid error)) :
      FieldFailure ctx (error.withPath path.toErrorPath)
  /-- The resolver of the field, behind all interceptors, has ended with an error. -/
  | resolver (info : ResolveInfo) (error : ResolverError) :
      FieldFailure ctx (info.located info.path error.toGraphQLError)
  /-- The value does not fit the type of its place. -/
  | completion (info : ResolveInfo) (path : QueryPath) (message : String) (code : ErrorCode)
      (hcode : code = .valueCompletionError ∨ code = .typeResolutionError) :
      FieldFailure ctx (info.located path (.new message code))
  /-- The type of a field of the schema is none that fields may have. -/
  | outputType {info : ResolveInfo} (path : QueryPath)
      (hdeclared : info.IsDeclared ctx.schema.types)
      (h : ctx.schema.types.namedTypeIs TypeDefinition.isOutput info.returnType = false) :
      FieldFailure ctx (info.outputTypeError path)

namespace FieldFailure

variable {ctx : ExecutionContext} {error : GraphQLError}

/-- **The error of a field has a path.** -/
theorem path_isSome (h : FieldFailure ctx error) : error.path.isSome := by
  cases h <;> rfl

/-- **No error of a field keeps the operation from being executed.** -/
theorem not_isRequestFatal (h : FieldFailure ctx error) : error.isRequestFatal = false := by
  cases h with
  | undefined object node nodes path => rfl
  | argument path hobject hdefinition h =>
    -- An argument error has a code of its own, whatever is wrong with the argument.
    have hcode := Coercion.code_of_coerceArguments h
    rw [GraphQLError.isRequestFatal, GraphQLError.withPath, hcode]
    rfl
  | resolver info error => rfl
  | completion info path message code hcode =>
    rcases hcode with rfl | rfl
    · rfl
    · rfl
  | outputType path hdeclared h => rfl

end FieldFailure

/-- A failure, if the event is one, is that of a field. -/
def Event.Explained (ctx : ExecutionContext) : Event → Prop
  | .failed error => FieldFailure ctx error
  | .called _ _ _ | .settled _ | .said _ | .recorded _ => True

open Event

variable {ctx : ExecutionContext}

theorem said_explained (text : String) : (Event.said text).Explained ctx := trivial

theorem recorded_explained (error : GraphQLError) : (Event.recorded error).Explained ctx := trivial

theorem fail_explained {error : GraphQLError} (h : FieldFailure ctx error) :
    (Completed.fail error).Logs (Explained ctx) := fail_logs h

/-! ### Values -/

/-- Nested selections fail for the reasons of fields, on the object types of the schema. -/
def SelectExplained (ctx : ExecutionContext) (select : Select) : Prop :=
  ∀ object selectionSets value path, ctx.schema.types.Holds object →
    (select object selectionSets value path).Logs (Explained ctx)

namespace Completion

variable {select : Select} {info : ResolveInfo} {path : QueryPath}

theorem fail_completion_explained (message : String) {code : ErrorCode}
    (hcode : code = .valueCompletionError ∨ code = .typeResolutionError) :
    (info.fail path message code).Logs (Explained ctx) :=
  fail_explained (.completion info path message code hcode)

theorem requireValue_explained (nonNull : Bool) (completed : Completed) :
    (requireValue nonNull info path completed).Logs (Explained ctx) := by
  unfold requireValue
  split
  · split
    · exact fail_completion_explained _ (.inl rfl)
    · exact .nothing _
  · exact .nothing _

theorem completeScalar_explained (scalar : ScalarType) (value : FieldValue) :
    (completeScalar scalar info path value).Logs (Explained ctx) := by
  simp only [completeScalar]
  split
  · exact .nothing _
  · exact fail_completion_explained _ (.inl rfl)

theorem completeEnum_explained (type : EnumType) (value : FieldValue) :
    (completeEnum type info path value).Logs (Explained ctx) := by
  unfold completeEnum
  split
  · exact .nothing _
  · exact fail_completion_explained _ (.inl rfl)

section Values

variable (hselect : SelectExplained ctx select)
include hselect

theorem completeObject_explained {object : ObjectType} (value : FieldValue)
    (hobject : ctx.schema.types.Holds object) :
    (completeObject select object info path value).Logs (Explained ctx) := by
  unfold completeObject
  refine Coroutine.Logs.bind ?_ fun accepted => ?_
  · cases object.isTypeOf with
    | none => exact .nothing true
    | some isTypeOf => exact Coroutine.logs_toCoroutine _ said_explained
  · cases accepted with
    | true => exact hselect object (info.fieldNodes.map FieldNode.selections) value path hobject
    | false => exact fail_completion_explained _ (.inl rfl)

theorem completeAbstract_explained (abstractType : String) (value : FieldValue) :
    (completeAbstract ctx select abstractType info path value).Logs (Explained ctx) := by
  refine Coroutine.Logs.bind (Coroutine.logs_toCoroutine _ said_explained) fun name => ?_
  split
  · -- The object type that stands for the abstract one is one of the schema.
    exact completeObject_explained hselect value (ExecutionContext.object?_of_concreteType ‹_›)
  · exact fail_completion_explained _ (.inr rfl)

theorem completeNamed_explained (hdeclared : info.IsDeclared ctx.schema.types)
    (value : FieldValue) :
    (completeNamed ctx select info.returnType.name info path value).Logs (Explained ctx) := by
  -- A type that is no output type can be no type of a field of the schema: the error reports it.
  have hunusable (h : ctx.schema.types.namedTypeIs TypeDefinition.isOutput info.returnType = false) :
      (Completed.fail (info.outputTypeError path)).Logs (Explained ctx) :=
    fail_explained (.outputType path hdeclared h)
  unfold completeNamed
  unfold TypeSystem.namedTypeIs TypeSystem.namedType? at hunusable
  split
  next scalar hscalar => exact completeScalar_explained scalar value
  next type htype => exact completeEnum_explained type value
  next object hobject =>
    refine completeObject_explained hselect value ⟨info.returnType.name, ?_⟩
    rw [TypeSystem.object?, hobject]
    rfl
  next => exact completeAbstract_explained hselect _ value
  next => exact completeAbstract_explained hselect _ value
  -- An input type, or a type that the schema does not have, is unusable for a field.
  next hinput => exact hunusable (by rw [hinput]; rfl)
  next hmissing => exact hunusable (by rw [hmissing]; rfl)

/-- **Values of any type.** The induction is on the list wrappers of the type. -/
theorem completeLayers_explained (hdeclared : info.IsDeclared ctx.schema.types)
    (innerRequired : Bool) (wrappers : List ListWrapping) (value : FieldValue) :
    (completeLayers ctx select info.returnType.name innerRequired info wrappers path value).Logs
      (Explained ctx) := by
  induction wrappers generalizing path value with
  | nil =>
    rw [completeLayers]
    -- No list wrapper is left.
    split
    · exact requireValue_explained innerRequired _
    · exact (completeNamed_explained hselect hdeclared value).bind
        (requireValue_explained innerRequired)
  | cons wrapper inner ih =>
    -- The outermost list.
    rw [completeLayers]
    split
    · exact requireValue_explained _ _
    · split
      · refine Coroutine.Logs.bind (.joinAll fun run hmem => ?_)
          (gatherItems_logs recorded_explained _)
        obtain ⟨i, hi, rfl⟩ := List.mem_mapIdx.mp hmem
        exact ih _
      · exact fail_completion_explained _ (.inl rfl)

end Values

end Completion

/-! ### Fields and selections -/

namespace ExecutionContext

variable {select : Select}

section Fields

variable (hselect : SelectExplained ctx select)
include hselect

theorem executeDefined_explained {object : ObjectType} {definition : FieldDefinition} {node : Field}
    {info : ResolveInfo} (parent : FieldValue) (atRoot : Bool)
    (hobject : ctx.schema.types.Holds object)
    (hdefinition : object.field? node.name = some definition)
    (hinfo : info.returnType = definition.type) :
    (ctx.executeDefined select object parent atRoot definition node info).Logs (Explained ctx) := by
  unfold executeDefined
  split
  · -- Arguments that cannot be coerced because types include each other for ever.
    intro event hmem
    exact absurd hmem List.not_mem_nil
  next error harguments =>
    have hfailure : FieldFailure ctx (error.withPath info.path.toErrorPath) :=
      .argument info.path hobject hdefinition harguments
    exact (fail_explained hfailure).bind (absorb_logs recorded_explained _)
  -- The resolver is called, and what it returns is completed to the type of the definition.
  · refine Coroutine.Logs.bind (invoke_logs trivial trivial said_explained) fun result => ?_
    refine Coroutine.Logs.bind ?_ (absorb_logs recorded_explained _)
    have hdeclared : info.IsDeclared ctx.schema.types :=
      ⟨object, node.name, definition, hobject, hdefinition, hinfo⟩
    cases result with
    | error error => exact fail_explained (.resolver info error)
    | ok value => exact Completion.completeLayers_explained hselect hdeclared _ _ value

/-- **Fields of objects of the schema** fail for the reasons of fields. -/
theorem executeField_explained {object : ObjectType} (parent : FieldValue) (path : QueryPath)
    (key : String) (nodes : List Field) (hobject : ctx.schema.types.Holds object) :
    (ctx.executeField select object parent path key nodes).Logs (Explained ctx) := by
  unfold executeField
  split
  -- An empty group breaks the run down before it logs anything.
  · exact fun event hmem => absurd hmem List.not_mem_nil
  next node others =>
    simp only
    split
    -- The name of the type is known without a call.
    · exact .nothing _
    · split
      next hundefined =>
        exact (fail_explained (.undefined object node (node :: others) _)).bind
          (absorb_logs recorded_explained _)
      next definition hdefinition =>
        exact executeDefined_explained hselect parent _ hobject hdefinition rfl

theorem executeGroups_explained (serial : Bool) {object : ObjectType} (parent : FieldValue)
    (path : QueryPath) (groups : FieldGroups) (hobject : ctx.schema.types.Holds object) :
    (ctx.executeGroups select serial object parent path groups).Logs (Explained ctx) :=
  executeGroups_logs serial object parent path
    (fun group _ => executeField_explained hselect parent path group.1 group.2 hobject)
    recorded_explained

end Fields

/-- **Nested selections.** The induction is on the depth that is left. -/
theorem selectWithin_explained (depth : Nat) : SelectExplained ctx (ctx.selectWithin depth) := by
  induction depth with
  | zero =>
    intro object selectionSets value path _ event hmem
    exact absurd hmem List.not_mem_nil
  | succ depth ih =>
    intro object selectionSets value path hobject
    exact executeGroups_explained ih false value path _ hobject

/-- The root type of an operation is an object type of the schema. -/
theorem holds_of_rootType? {root : ObjectType} (h : ctx.rootType? = some root) :
    ctx.schema.types.Holds root := by
  rcases Option.or_eq_some_iff.mp h with hown | ⟨-, hquery⟩
  -- The operation may have a root type of its own kind, which is an object type of the schema.
  · unfold ownRootType? at hown
    cases htype : ctx.operation.type with
    | query =>
      rw [htype] at hown
      exact ⟨_, hown⟩
    | mutation | subscription =>
      rw [htype] at hown
      obtain ⟨name, -, hobject⟩ := Option.bind_eq_some_iff.mp hown
      exact ⟨name, hobject⟩
  -- All else is executed as a query.
  · exact ⟨_, hquery⟩

/-- **Whatever fails in an execution fails for one of the reasons**, also if it breaks down. -/
theorem respond_explained (ctx : ExecutionContext) : ctx.respond.Logs (Explained ctx) := by
  have hoperation : ctx.executeOperation.Logs (Explained ctx) :=
    executeOperation_logs (fun root hroot => executeGroups_explained (selectWithin_explained _)
      ctx.isSerial ctx.rootValue .empty _ (holds_of_rootType? hroot)) recorded_explained
  intro event hmem
  rw [respond, respondWith_log] at hmem
  exact hoperation event hmem

/-- The failures that an execution logs are errors of fields. -/
theorem fieldFailure_of_mem {error : GraphQLError} (h : error ∈ Event.failures ctx.respond.log) :
    FieldFailure ctx error := by
  obtain ⟨event, hmem, hfailure⟩ := List.mem_filterMap.mp h
  have hexplained := ctx.respond_explained event hmem
  cases event with
  | failed other =>
    obtain rfl : other = error := Option.some.inj hfailure
    exact hexplained
  | called | settled | said | recorded => exact nomatch hfailure

end ExecutionContext

end GraphQL
