import GraphQL.Execution.Basic
import GraphQL.Proofs.Coercion.Variables
import GraphQL.Proofs.Execution.Answer
import GraphQL.Proofs.Execution.Breakdowns
import GraphQL.Proofs.Execution.NullPropagation
import GraphQL.Proofs.Wrapping.Lists

/-!
# Executions that do not panic

Panics of resolvers and interceptors are caught where the settings say so. What may still panic are the
callbacks that tell object types apart, which are called outside of any field, and the variables of a
request, whose types come from the document.

* `Schema.CallbacksReturn` — the callbacks that are not guarded return;
* `callbacksAvoid_isPanic`, `respond_neverPanics` — then an operation that is executed does not panic,
  whatever its resolvers and interceptors do;
* `TypeOverflow` — the document declares a variable of a type with too many lists, and coercion of the
  variables gets there;
* `execute_panicked_iff` — that is the only way for an execution to panic.
-/

namespace GraphQL

/-- The callbacks that tell object types apart return whenever they are called. -/
structure Schema.CallbacksReturn (schema : Schema) (typeResolver : TypeResolver) : Prop where
  /-- The predicates of object types. -/
  predicates : ∀ name object isTypeOf, schema.types.object? name = some object →
    object.isTypeOf = some isTypeOf → ∀ value, (isTypeOf value).Returns
  /-- The type resolvers of interfaces and unions. -/
  typeResolvers : ∀ name resolveType, (schema.typeHooks name).resolveType = some resolveType →
    ∀ value info, info.types = schema.types → (resolveType value info name).Returns
  /-- The type resolver of the request. -/
  default : ∀ name value info, info.types = schema.types → (typeResolver value info name).Returns

/-- Asking one object type after the other returns if each of their predicates does. -/
theorem TypeResolver.firstAccepting_returns {objects : List ObjectType} {value : FieldValue}
    (h : ∀ object ∈ objects, ∀ isTypeOf, object.isTypeOf = some isTypeOf →
      (isTypeOf value).Returns) : (firstAccepting value objects).Returns := by
  induction objects with
  | nil => exact ⟨_, _, rfl⟩
  | cons object rest ih =>
    have hrest := ih fun other hmem => h other (List.mem_cons_of_mem object hmem)
    rw [firstAccepting]
    split
    -- The predicate is asked first, and the others only if it does not accept.
    next isTypeOf hpredicate =>
      obtain ⟨log, accepted, haccepted⟩ := h object List.mem_cons_self isTypeOf hpredicate
      rw [haccepted, Call.bind]
      cases accepted with
      | true => exact ⟨_, _, rfl⟩
      | false =>
        obtain ⟨log', result, hresult⟩ := hrest
        rw [if_neg Bool.false_ne_true, hresult]
        exact ⟨_, _, rfl⟩
    next => exact hrest

/-- The standard type resolver returns if the predicates of the object types do. -/
theorem TypeResolver.standard_returns {schema : Schema}
    (h : ∀ name object isTypeOf, schema.types.object? name = some object →
      object.isTypeOf = some isTypeOf → ∀ value, (isTypeOf value).Returns)
    {info : ResolveInfo} (hinfo : info.types = schema.types) (name : String) (value : FieldValue) :
    (standard value info name).Returns := by
  rw [standard]
  split
  next => exact ⟨_, _, rfl⟩
  next =>
    refine firstAccepting_returns fun object hmem isTypeOf hpredicate => ?_
    obtain ⟨objectName, -, hobject⟩ := List.mem_filterMap.mp hmem
    exact h objectName object isTypeOf (hinfo ▸ hobject) hpredicate value

namespace ExecutionContext

open Coroutine

variable {ctx : ExecutionContext}

/-- **A panic of a resolver or of an interceptor is caught**, at the call and later. -/
theorem invoke_avoids_isPanic (hcatch : ctx.schema.config.catchResolverPanics = true)
    (resolver : Resolver) (resolverContext : ResolverContext) :
    (ctx.invoke resolver resolverContext).Avoids Abort.IsPanic := by
  rw [invoke]
  refine avoids_prepend_iff.mpr (Avoids.bind ?_ fun _ _ => .finish _ _)
  rw [if_pos hcatch]
  exact avoids_isPanic_catchPanic _ _

/-- Callbacks that return, and resolvers whose panics are caught, do not break down in a panic. -/
theorem callbacksAvoid_isPanic (hcallbacks : ctx.schema.CallbacksReturn ctx.typeResolver)
    (hcatch : ctx.schema.config.catchResolverPanics = true) : ctx.CallbacksAvoid Abort.IsPanic where
  predicates name object isTypeOf hobject hpredicate value :=
    (hcallbacks.predicates name object isTypeOf hobject hpredicate value).avoids _
  typeResolvers name value info hinfo := by
    refine Call.Returns.avoids ?_ _
    cases hhook : (ctx.schema.typeHooks name).resolveType with
    | some resolveType => exact hcallbacks.typeResolvers name resolveType hhook value info hinfo
    | none => exact hcallbacks.default name value info hinfo
  resolvers _ _ _ resolverContext := invoke_avoids_isPanic hcatch _ resolverContext
  arguments _ _ _ := by rintro ⟨message, hpanic⟩; cases hpanic

/-- **An operation that is executed does not panic**, if it has a root type. The induction is on the depth to
which its selections are executed. -/
theorem respond_neverPanics {root : ObjectType} (hroot : ctx.rootType? = some root)
    (hcallbacks : ctx.schema.CallbacksReturn ctx.typeResolver)
    (hcatch : ctx.schema.config.catchResolverPanics = true) : ctx.respond.NeverPanics := by
  have havoid := callbacksAvoid_isPanic hcallbacks hcatch
  have hselect : ∀ depth nodes, SelectAvoids Abort.IsPanic (ctx.selectWithin depth) nodes := by
    intro depth
    induction depth with
    -- To be cut off is to break down, but it is no panic.
    | zero =>
      refine fun nodes object value path => avoids_abort_iff.mpr ?_
      rintro ⟨message, hpanic⟩
      cases hpanic
    | succ depth ih =>
      exact fun nodes object value path =>
        executeGroups_avoids havoid object _ (fun group _ => ih group.2) false value path
  -- The root type is there, so that its absence is no panic to be excluded.
  have hnone : ctx.rootType? = none → ¬ Abort.IsPanic .unreachable :=
    fun hnone => absurd (hroot.symm.trans hnone) (Option.some_ne_none root)
  refine neverPanics_iff_avoids.mpr (respond_avoids hnone fun root _ => ?_)
  exact executeGroups_avoids havoid root _ (fun group _ => hselect _ group.2) _ _ .empty

end ExecutionContext

/-! ### Variables of a type with too many lists -/

variable {schema : Schema} {document : Document} {params : ExecutionParams} {ctx : ExecutionContext}
  {message : String}

/-- The selected operation declares a variable of a type with too many lists, and coercion gets to it:
before it there are fewer errors than may be reported. -/
def TypeOverflow (schema : Schema) (document : Document) (params : ExecutionParams) : Prop :=
  ∃ operation before declared after coerced errors,
    ExecutionContext.select schema document params.operationName = .ok operation ∧
    operation.variableDefinitions = before ++ declared :: after ∧
    Wrapping.maxLists < declared.type.listDepth ∧
    Coercion.coerceEachVariable schema.types schema.config.maxVariableErrors before params.vars
      .empty [] = .ok (coerced, errors) ∧
    errors.length < schema.config.maxVariableErrors

/-- Preparing an execution panics exactly if a type overflows. -/
theorem build_eq_panicked_iff :
    ExecutionContext.build schema document params = .error (.panicked message) ↔
      message = Wrapping.overflowMessage ∧ TypeOverflow schema document params := by
  rw [ExecutionContext.build_eq_abort_iff, TypeOverflow]
  -- Of the coercions only that of a type that overflows panics, and it does so with its own
  -- message.
  simp only [Coercion.coerceVariables_eq_panicked_iff]
  constructor
  · rintro ⟨operation, hselect, rfl, before, declared, after, hsplit, htype, coerced, errors, hbefore,
      hroom⟩
    exact ⟨rfl, operation, before, declared, after, coerced, errors, hselect, hsplit,
      TypeRef.ofSyntax?_eq_none_iff.mp htype, hbefore, hroom⟩
  · rintro ⟨rfl, operation, before, declared, after, coerced, errors, hselect, hsplit, htype, hbefore,
      hroom⟩
    exact ⟨operation, hselect, rfl, before, declared, after, hsplit,
      TypeRef.ofSyntax?_eq_none_iff.mpr htype, coerced, errors, hbefore, hroom⟩

/-- An execution that is prepared is one of the schema, with the type resolver of the request. -/
theorem ExecutionContext.of_build
    (h : ExecutionContext.build schema document params = .ok (.ok ctx)) :
    ctx.schema = schema ∧ ctx.typeResolver = params.typeResolver := by
  obtain ⟨operation, vars, -, -, rfl⟩ := ExecutionContext.build_eq_ok_iff.mp h
  exact ⟨rfl, rfl⟩

/-- **An execution panics exactly if a type overflows**, whatever the resolvers and interceptors do. -/
theorem execute_panicked_iff {builder : SchemaBuilder} (hfinish : builder.finish = .ok schema)
    (hcallbacks : schema.CallbacksReturn params.typeResolver)
    (hcatch : schema.config.catchResolverPanics = true) :
    (execute schema document params).outcome = .error (.panicked message) ↔
      message = Wrapping.overflowMessage ∧ TypeOverflow schema document params := by
  rw [← build_eq_panicked_iff, execute]
  -- Where an execution is prepared it does not panic, so that only the preparation can.
  cases hbuild : ExecutionContext.build schema document params with
  | error why => exact ⟨fun h => congrArg _ (Except.error.inj h), fun h =>
      congrArg _ (Except.error.inj h)⟩
  | ok result =>
    cases result with
    | error errors => simp [Coroutine.outcome]
    | ok ctx =>
      obtain ⟨root, hroot⟩ := ExecutionContext.exists_rootType_of_build hfinish hbuild
      obtain ⟨rfl, hresolver⟩ := ExecutionContext.of_build hbuild
      rw [← hresolver] at hcallbacks
      simpa using ExecutionContext.respond_neverPanics hroot hcallbacks hcatch message

end GraphQL
