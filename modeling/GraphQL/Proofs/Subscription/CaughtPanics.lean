import GraphQL.Proofs.Resolver.FailingPanics
import GraphQL.Proofs.Subscription.SameAnswers
import GraphQL.Proofs.Subscription.Visits

/-!
# Caught panics

Where panics of resolvers are caught, a panic is a failure of its field. A request whose composed resolvers
panic at some calls, at once or later, is answered as one whose composed resolvers fail there instead in
the same visit, with the error that a panic counts as.

The comparison is made for one call first. A call that panics and one that fails with the error of a
panic log the same in the same visits, and once panics are caught their outcomes are equal too. All
else of an execution goes by the outcome and the visits of calls, so contexts that differ in nothing
else have the same answers.

* `composedResolver` — what is called for a field, interceptors included;
* `FailsInstead`, `FailsInstead.answeredAlike` — requests whose resolvers fail where others panic;
* `ExecutionParams.failing` — any calls of a request may fail instead;
* `caught_panics_are_failures` — hence panics of any calls can be replaced.
-/

namespace GraphQL

open ExecutionContext

/-- What a request calls for a field: the resolver of the field, or else the payload at the root of an
event and the one of the request elsewhere, behind all interceptors. -/
def composedResolver (schema : Schema) (params : ExecutionParams) (typeName fieldName : String)
    (ofEvent : Bool) : Resolver :=
  params.middleware.wrap typeName fieldName
    ((schema.fieldHooks typeName fieldName).resolver.getD
      (if ofEvent then .payload else params.fieldResolver))

/-- A resolver is called for a field of an object type. -/
def ResolverContext.IsFor (ctx : ResolverContext) (typeName fieldName : String) : Prop :=
  ctx.info.parentType.name = typeName ∧ ctx.info.fieldName = fieldName

/-- Two requests that have all but resolvers and interceptors in common, of which the second one fails at
some of the calls at which the first one panics. -/
structure FailsInstead (schema schema' : Schema) (params params' : ExecutionParams) : Prop
    extends SameButCallbacks schema schema' params params' where
  subscriber : ∀ typeName fieldName,
    (schema.fieldHooks typeName fieldName).subscriber = (schema'.fieldHooks typeName fieldName).subscriber
  resolver : ∀ typeName fieldName ofEvent (ctx : ResolverContext), ctx.IsFor typeName fieldName →
    Call.FailsInstead (composedResolver schema params typeName fieldName ofEvent ctx)
      (composedResolver schema' params' typeName fieldName ofEvent ctx)

section Contexts

variable (schema : Schema) (document : Document) (params : ExecutionParams)
  (operation : OperationDefinition) (vars : Variables)

/-- A request that is executed itself calls its composed resolvers. -/
theorem wrap_ofRequest (typeName fieldName : String) (atRoot : Bool) :
    let ctx := ofRequest schema document params operation vars
    ctx.middleware.wrap typeName fieldName (ctx.baseResolver typeName fieldName atRoot) =
      composedResolver schema params typeName fieldName false := by
  dsimp only [composedResolver, baseResolver, ofRequest]
  cases (schema.fieldHooks typeName fieldName).resolver <;> rfl

/-- So do events, for which the payload is the resolver at the root. -/
theorem wrap_forEvent (payload : FieldValue) (typeName fieldName : String) (atRoot : Bool) :
    let ctx := (ofRequest schema document params operation vars).forEvent payload
    ctx.middleware.wrap typeName fieldName (ctx.baseResolver typeName fieldName atRoot) =
      composedResolver schema params typeName fieldName atRoot := by
  dsimp only [composedResolver, baseResolver, forEvent, ofRequest]
  cases (schema.fieldHooks typeName fieldName).resolver <;> rfl

end Contexts

/-- **A call that fails where another one panics** is the same for an execution that catches panics. -/
theorem ExecutionContext.SameRequest.invoke_eq_of_failsInstead {ctx ctx' : ExecutionContext}
    (h : ctx.SameRequest ctx') (hcatch : ctx.schema.config.catchResolverPanics = true)
    {resolver resolver' : Resolver} {resolverContext : ResolverContext}
    (hcall : Call.FailsInstead (resolver resolverContext) (resolver' resolverContext)) :
    ctx.invoke resolver resolverContext = ctx'.invoke resolver' resolverContext := by
  rw [invoke, invoke, ← h.config, if_pos hcatch, if_pos hcatch, hcall.caught_eq]

/-- **Requests whose resolvers fail where others panic** are answered alike if panics are caught. -/
theorem FailsInstead.answeredAlike {schema schema' : Schema} {params params' : ExecutionParams}
    (h : FailsInstead schema schema' params params') (hcatch : schema.config.catchResolverPanics = true)
    (document : Document) : AnsweredAlike schema schema' document params params' := by
  refine h.toSameButCallbacks.answeredAlike document fun operation vars => ?_
  have hrequest := h.sameRequest document operation vars
  refine hrequest.startsAlike h.subscriber (fun typeName fieldName atRoot ctx htype hfield => ?_)
    fun payload typeName fieldName atRoot ctx htype hfield => ?_
  -- The request itself calls no resolver of an event, and its events do at the root.
  · refine hrequest.invoke_eq_of_failsInstead hcatch ?_
    rw [wrap_ofRequest, wrap_ofRequest]
    exact h.resolver typeName fieldName false ctx ⟨htype, hfield⟩
  · refine (hrequest.forEvent payload).invoke_eq_of_failsInstead hcatch ?_
    rw [wrap_forEvent, wrap_forEvent]
    exact h.resolver typeName fieldName atRoot ctx ⟨htype, hfield⟩

/-! ### Replacing panics -/

/-- An outermost interceptor for all fields, inside of which stand those of some middleware. It lets calls of
the given kind fail where they panic. -/
def Middleware.failing (middleware : Middleware) (fails : ResolverContext → Bool) : Interceptor :=
  fun resolver ctx =>
    let call := middleware.wrap ctx.info.parentType.name ctx.info.fieldName resolver ctx
    if fails ctx then call.failing else call

/-- The same request, with failures instead of panics at calls of the given kind. -/
def ExecutionParams.failing (params : ExecutionParams) (fails : ResolverContext → Bool) : ExecutionParams :=
  { params with middleware := .ofList [params.middleware.failing fails] }

/-- The composed resolvers of the request with failures. -/
theorem composedResolver_failing {schema : Schema} {params : ExecutionParams}
    {fails : ResolverContext → Bool} {typeName fieldName : String} {ctx : ResolverContext}
    (hctx : ctx.IsFor typeName fieldName) (ofEvent : Bool) :
    composedResolver schema (params.failing fails) typeName fieldName ofEvent ctx =
      if fails ctx then (composedResolver schema params typeName fieldName ofEvent ctx).failing
      else composedResolver schema params typeName fieldName ofEvent ctx := by
  -- The interceptor looks up those inside of it by what it is told about the field.
  obtain ⟨rfl, rfl⟩ := hctx
  rw [composedResolver, Middleware.wrap_eq_nest]
  rfl

theorem failsInstead_failing (schema : Schema) (params : ExecutionParams)
    (fails : ResolverContext → Bool) : FailsInstead schema schema params (params.failing fails) where
  types := rfl
  config := rfl
  resolveType _ := rfl
  rootValue := rfl
  context := rfl
  vars := rfl
  operationName := rfl
  typeResolver := rfl
  subscriber _ _ := rfl
  resolver typeName fieldName ofEvent ctx hctx := by
    rw [composedResolver_failing hctx]
    split
    · exact Call.failsInstead_failing _
    · exact .same _

/-- **Caught panics are failures.** Where panics are caught, a request is answered as any other one that
fails where it panics: with the same visits, logs and responses, for executions and for the response
streams of subscriptions. And for any calls there is such a request, which does not panic at these calls and
does the same at all others. -/
theorem caught_panics_are_failures {schema : Schema} (hcatch : schema.config.catchResolverPanics = true)
    (document : Document) (params : ExecutionParams) :
    (∀ schema' params', FailsInstead schema schema' params params' →
      AnsweredAlike schema schema' document params params') ∧
    ∀ fails : ResolverContext → Bool, ∃ params',
      FailsInstead schema schema params params' ∧
      ∀ typeName fieldName ofEvent (ctx : ResolverContext), ctx.IsFor typeName fieldName →
        (fails ctx = true →
          (composedResolver schema params' typeName fieldName ofEvent ctx).NeverPanics) ∧
        (fails ctx = false → composedResolver schema params' typeName fieldName ofEvent ctx =
          composedResolver schema params typeName fieldName ofEvent ctx) := by
  refine ⟨fun _ _ h => h.answeredAlike hcatch document, fun fails =>
    ⟨params.failing fails, failsInstead_failing schema params fails,
      fun typeName fieldName ofEvent ctx hctx => ⟨fun hfails => ?_, fun hfails => ?_⟩⟩⟩
  · rw [composedResolver_failing hctx, if_pos hfails]
    exact Call.failing_neverPanics _
  · rw [composedResolver_failing hctx, hfails]
    exact if_neg Bool.false_ne_true

/-- A request without interceptors that brings along another resolver, which fails where the one of the
request panics. -/
theorem failsInstead_of_fieldResolver (schema : Schema) {params : ExecutionParams} {fieldResolver : Resolver}
    (hmiddleware : params.middleware = .empty)
    (h : ∀ ctx, Call.FailsInstead (params.fieldResolver ctx) (fieldResolver ctx)) :
    FailsInstead schema schema params { params with fieldResolver } where
  types := rfl
  config := rfl
  resolveType _ := rfl
  rootValue := rfl
  context := rfl
  vars := rfl
  operationName := rfl
  typeResolver := rfl
  subscriber _ _ := rfl
  resolver typeName fieldName ofEvent ctx _ := by
    rw [composedResolver, composedResolver, hmiddleware]
    -- It is called where neither the field nor an event has a resolver.
    cases (schema.fieldHooks typeName fieldName).resolver with
    | some resolver => exact .same _
    | none =>
      cases ofEvent with
      | true => exact .same _
      | false => exact h ctx

namespace TickSample

/-- The time is asked for twice. -/
def twoClocks : Document :=
  ⟨.anonymous ⟨.query, [], [], [.field ⟨some "first", "now", [], [], [], ⟨1, 3⟩⟩,
    .field ⟨some "second", "now", [], [], [], ⟨1, 14⟩⟩], ⟨1, 1⟩⟩, []⟩

/-- A resolver that waits for another visit under one response key. -/
def clock (atOnce : Call Resolution) (later : Coroutine String ResolverResult) : Resolver := fun ctx =>
  if ctx.info.fieldNodes.any fun node => node.label == some "second" then
    .returned ["asked"] (.pending (.suspend ["waiting"] later))
  else atOnce

/-- A clock that panics, at once or later. -/
def breaking : Resolver := clock (.panicked ["asked"] "broken") (.abort ["tick"] (.panicked "stopped"))

/-- A clock that fails instead. -/
def stopping : Resolver :=
  clock (.returned ["asked"] (.ready (.error .panicked))) (.finish ["tick"] (.error .panicked))

/-- A schema of clocks, and of ticks that never come. -/
def clocks : Schema := schema fun _ => .returned [] (.ok (.topics []))

/-- The error of a clock that panics. -/
def clockError (key : String) (column : Nat) : GraphQLError :=
  ((GraphQLError.new "Resolver panicked" .resolverError).withLocations [⟨1, column⟩]).withPath
    [.field key]

end TickSample

/-- A clock that panics at once under one key and in the next visit under another one: each key has its
error, as from a clock that fails. -/
theorem caught_panics_are_failures_sample :
    TickSample.clocks.config.catchResolverPanics = true ∧
    FailsInstead TickSample.clocks TickSample.clocks { fieldResolver := TickSample.breaking }
      { fieldResolver := TickSample.stopping } ∧
    execute TickSample.clocks TickSample.twoClocks { fieldResolver := TickSample.breaking } =
      execute TickSample.clocks TickSample.twoClocks { fieldResolver := TickSample.stopping } ∧
    (execute TickSample.clocks TickSample.twoClocks { fieldResolver := TickSample.stopping }).polls = 1 ∧
    (execute TickSample.clocks TickSample.twoClocks { fieldResolver := TickSample.stopping }).outcome =
      .ok ⟨.object [("first", .null), ("second", .null)],
        [TickSample.clockError "first" 3, TickSample.clockError "second" 14]⟩ := by
  have hfails : FailsInstead TickSample.clocks TickSample.clocks
      { fieldResolver := TickSample.breaking } { fieldResolver := TickSample.stopping } := by
    refine failsInstead_of_fieldResolver _ rfl fun ctx => ?_
    unfold TickSample.breaking TickSample.stopping TickSample.clock
    dsimp only
    -- One clock panics later, where the other one fails later, and one at once, where the other one
    -- does.
    split
    · exact .pending _ (.suspend _ (.panicked _ _))
    · exact .panicked _ _
  have hcatch : TickSample.clocks.config.catchResolverPanics = true := rfl
  have hsame := (caught_panics_are_failures hcatch TickSample.twoClocks
    { fieldResolver := TickSample.breaking }).1 _ _ hfails
  exact ⟨hcatch, hfails, hsame.execute, rfl, rfl⟩

end GraphQL
