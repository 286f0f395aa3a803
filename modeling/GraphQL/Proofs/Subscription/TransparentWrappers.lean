import GraphQL.Proofs.Execution.SameRequests
import GraphQL.Proofs.Schema.WrappedResolvers
import GraphQL.Proofs.Subscription.PointwiseImage
import GraphQL.Proofs.Subscription.SameStreams

/-!
# Wrappers that make no difference

A wrapper that gives back the resolver that it is given leaves the schema as it is if the field has a
resolver. A field without one has the standard resolver afterwards. Executions see no difference where it
is the standard resolver that the field would have had from the request, but they do where the request
has another one, and where the field is the root field of an event, which resolves to the payload.

* `ExecutionContext.SelectsAtRoot` — the fields that a payload is handed to;
* `baseResolver_wrapResolver` — the resolvers of all fields, before any interceptor;
* `respond_wrapResolver`, `startsAlike_wrapResolver` — operations and streams of responses;
* `wrapResolver_transparent` — no request has other responses;
* `wrapResolver_not_transparent` — two that have.
-/

namespace GraphQL

namespace ExecutionContext

/-- The same request to a schema in which the resolver of a field is wrapped. -/
def wrapResolver (ctx : ExecutionContext) (typeName fieldName : String)
    (wrapper : Resolver → Resolver) : ExecutionContext :=
  { ctx with schema := ctx.schema.wrapResolver typeName fieldName wrapper }

/-- The operation selects a field of its root type. -/
def SelectsAtRoot (ctx : ExecutionContext) (typeName fieldName : String) : Prop :=
  ∃ root, ctx.rootType? = some root ∧ root.name = typeName ∧
    ∃ group ∈ ctx.collectFields root [ctx.operation.selections],
      ∃ node ∈ group.2.head?, node.name = fieldName

variable {ctx : ExecutionContext} {typeName fieldName : String} {wrapper : Resolver → Resolver}

/-- The same fields are selected for all events. -/
theorem selectsAtRoot_forEvent (payload : FieldValue) :
    (ctx.forEvent payload).SelectsAtRoot typeName fieldName ↔ ctx.SelectsAtRoot typeName fieldName := by
  -- A collection does not depend on the root value.
  have hcollect : ∀ root, (ctx.forEvent payload).collectFields root [ctx.operation.selections] =
      ctx.collectFields root [ctx.operation.selections] := fun root =>
    @collectFields_congr (ctx.forEvent payload) ctx rfl rfl rfl root _
  simp only [SelectsAtRoot, ← hcollect]
  rfl

theorem sameRequest_wrapResolver : ctx.SameRequest (ctx.wrapResolver typeName fieldName wrapper) where
  types := rfl
  config := rfl
  resolveType other := (Schema.resolveType_wrapResolver other).symm
  fragments := rfl
  operation := rfl
  rootValue := rfl
  context := rfl
  vars := rfl
  typeResolver := rfl
  isEvent := rfl

section Transparent

variable (hwrapper : ∀ resolver, wrapper resolver = resolver) (hstandard : ctx.fieldResolver = .standard)
include hwrapper hstandard

/-- **All fields have the resolvers that they had**, other than the wrapped one at the root of an
event. -/
theorem baseResolver_wrapResolver {other name : String} {atRoot : Bool}
    (hevent : (ctx.isEvent && atRoot) = true → ¬ (typeName = other ∧ fieldName = name)) :
    ctx.baseResolver other name atRoot =
      (ctx.wrapResolver typeName fieldName wrapper).baseResolver other name atRoot := by
  rw [baseResolver, baseResolver, wrapResolver, Schema.fieldHooks_wrapResolver]
  by_cases hfield : (typeName = other ∧ fieldName = name) ∧
      (Entries.get? ctx.schema.hooks typeName).isSome = true
  · -- The wrapped field: either it has a resolver, or the request has the standard one for it.
    rw [if_pos hfield, FieldHooks.wrap, hwrapper]
    cases (ctx.schema.fieldHooks other name).resolver with
    | some resolver => rfl
    | none =>
      have hrequest : ¬ (ctx.isEvent && atRoot) = true := fun hroot => hevent hroot hfield.1
      simp only [if_neg hrequest, hstandard, Option.getD_none]
  -- Every other field is looked up as before.
  · rw [if_neg hfield]

/-- **Operations** have the responses that they had. -/
theorem respond_wrapResolver (hevent : ctx.isEvent = true → ¬ ctx.SelectsAtRoot typeName fieldName) :
    ctx.respond = (ctx.wrapResolver typeName fieldName wrapper).respond := by
  refine sameRequest_wrapResolver.respond_eq
    (fun root hroot group hgroup node hnode => ?_) fun other name => ?_
  · refine sameRequest_wrapResolver.resolvesSame (congrArg (ctx.middleware.wrap root.name node.name)
      (baseResolver_wrapResolver hwrapper hstandard ?_))
    rintro hroot' ⟨rfl, rfl⟩
    exact hevent (Bool.and_eq_true_iff.mp hroot').1 ⟨root, hroot, rfl, group, hgroup, node, hnode, rfl⟩
  · refine sameRequest_wrapResolver.resolvesSame (congrArg (ctx.middleware.wrap other name)
      (baseResolver_wrapResolver hwrapper hstandard ?_))
    rw [Bool.and_false]
    exact fun hfalse => Bool.noConfusion hfalse

/-- Subscriptions have the sources that they had, and answer their events as before. -/
theorem startsAlike_wrapResolver (hrequest : ctx.isEvent = false)
    (hroot : ctx.operation.type = .subscription → ¬ ctx.SelectsAtRoot typeName fieldName) :
    ctx.StartsAlike (ctx.wrapResolver typeName fieldName wrapper) where
  operation := rfl
  config := rfl
  respond := respond_wrapResolver hwrapper hstandard fun hevent =>
    -- A request is not executed for an event, so that no field is left out.
    absurd (hrequest.symm.trans hevent) Bool.false_ne_true
  eventSource := sameRequest_wrapResolver.eventSource_eq fun other name =>
    (Schema.subscriber_wrapResolver other name).symm
  events htype := {
    config := rfl
    -- An event is: its root fields are those that the hypothesis keeps away from the wrapped one.
    respond := fun payload => by
      have hpayload : (ctx.forEvent payload).fieldResolver = .standard := hstandard
      exact respond_wrapResolver hwrapper hpayload fun _ hselects =>
        hroot htype ((selectsAtRoot_forEvent payload).mp hselects) }

end Transparent

end ExecutionContext

open ExecutionContext

/-- Requests to both schemas have all but the resolver in common. -/
theorem SameButCallbacks.wrapResolver (schema : Schema) (params : ExecutionParams)
    (typeName fieldName : String) (wrapper : Resolver → Resolver) :
    SameButCallbacks schema (schema.wrapResolver typeName fieldName wrapper) params params where
  types := rfl
  config := rfl
  resolveType other := (Schema.resolveType_wrapResolver other).symm
  rootValue := rfl
  context := rfl
  vars := rfl
  operationName := rfl
  typeResolver := rfl

section Requests

variable {schema : Schema} {document : Document} {params : ExecutionParams}
  {typeName fieldName : String} {wrapper : Resolver → Resolver}
  (hwrapper : ∀ resolver, wrapper resolver = resolver) (hstandard : params.fieldResolver = .standard)
include hwrapper hstandard

/-- **Requests are executed as before.** -/
theorem execute_wrapResolver :
    execute (schema.wrapResolver typeName fieldName wrapper) document params =
      execute schema document params := by
  have hsame := SameButCallbacks.wrapResolver schema params typeName fieldName wrapper
  refine (hsame.execute_eq document fun operation vars => ?_).symm
  have hfieldResolver : (ofRequest schema document params operation vars).fieldResolver = .standard :=
    hstandard
  -- A request that is executed itself is no event.
  exact respond_wrapResolver hwrapper hfieldResolver fun hevent => Bool.noConfusion hevent

/-- **Streams of responses start as before** if no event is resolved by the wrapped field. -/
theorem subscribe_wrapResolver_alike
    (hroot : ∀ ctx, build schema document params = .ok (.ok ctx) →
      ctx.operation.type = .subscription → ¬ ctx.SelectsAtRoot typeName fieldName) :
    (ResponseStream.subscribe schema document params).Alike
      (.subscribe (schema.wrapResolver typeName fieldName wrapper) document params) := by
  have hsame := SameButCallbacks.wrapResolver schema params typeName fieldName wrapper
  refine .unstarted (hsame.build_related document fun operation vars hbuild => ?_)
  exact startsAlike_wrapResolver hwrapper hstandard rfl (hroot _ hbuild)

end Requests

/-- **A wrapper that gives back the resolver that it is given makes no difference** to which builders make
a schema. If the field has a resolver it makes no difference to the schema either; otherwise the standard
resolver is that of the field afterwards. Hence it makes none to requests with the standard resolver for
such fields: whatever operation they execute, with the same visits, calls and responses, and whatever
events they are answered for, if none of these is resolved by the field. -/
theorem wrapResolver_transparent {builder : SchemaBuilder} {typeName fieldName : String}
    {wrapper : Resolver → Resolver}
    (hfield : SchemaBuilder.HasField (SchemaBuilder.definitions builder.types) (typeName, fieldName))
    (hwrapper : ∀ resolver, wrapper resolver = resolver) :
    (∀ error, builder.finish = .error error →
      (builder.wrapResolver typeName fieldName wrapper).finish = .error error) ∧
    ∀ schema, builder.finish = .ok schema →
      ∃ wrapped, (builder.wrapResolver typeName fieldName wrapper).finish = .ok wrapped ∧
        ((schema.fieldHooks typeName fieldName).resolver.isSome → wrapped = schema) ∧
        (wrapped.fieldHooks typeName fieldName).resolver =
          some ((schema.fieldHooks typeName fieldName).resolver.getD .standard) ∧
        ∀ document params, params.fieldResolver = .standard →
          execute wrapped document params = execute schema document params ∧
          ((∀ ctx, build schema document params = .ok (.ok ctx) →
              ctx.operation.type = .subscription → ¬ ctx.SelectsAtRoot typeName fieldName) →
            (∀ hubs, ((ResponseStream.subscribe wrapped document params).visits hubs).map
                Visit.observed =
              ((ResponseStream.subscribe schema document params).visits hubs).map Visit.observed) ∧
            ∀ wanted hub, (ResponseStream.subscribe wrapped document params).collect wanted hub =
              (ResponseStream.subscribe schema document params).collect wanted hub) := by
  -- The schema that the builder makes is wrapped, if it makes one.
  rw [SchemaBuilder.finish_wrapResolver hfield]
  refine ⟨fun error herror => by rw [herror]; rfl, fun schema hschema => ?_⟩
  rw [hschema]
  refine ⟨_, rfl, fun hsome => ?_, ?_, fun document params hstandard => ⟨?_, fun hroot => ?_⟩⟩
  -- The resolver of the field is wrapped in place.
  · obtain ⟨resolver, hresolver⟩ := Option.isSome_iff_exists.mp hsome
    exact Schema.wrapResolver_eq_self hresolver (hwrapper resolver)
  -- The field is there, as it is wrapped in the builder.
  · rw [Schema.fieldHooks_wrapResolver,
      if_pos ⟨⟨rfl, rfl⟩, SchemaBuilder.hooks_isSome_of_finish hschema hfield⟩, FieldHooks.wrap, hwrapper]
  -- A request is never executed for an event, so that nothing more is asked of it.
  · exact execute_wrapResolver hwrapper hstandard
  -- The two streams start alike, and are visited alike from then on.
  · have halike := subscribe_wrapResolver_alike hwrapper hstandard hroot
    exact ⟨fun hubs => (halike.visits_eq hubs).symm, fun wanted hub =>
      (halike.collectFrom_eq wanted [] [] hub).symm⟩

namespace TickSample

/-- A wrapper that only calls the resolver that it is given. -/
def calling (resolver : Resolver) : Resolver := fun resolverContext => resolver resolverContext

/-- A subscriber of ticks. -/
def feedTicks : Subscriber := fun _ => .returned [] (.ok feed)

/-- A field resolver with the same value for every field. -/
def seven : Resolver := fun _ => .returned [] (.ok (.plain (.number (.int 7))))

/-- No event is resolved by the field of queries. -/
theorem not_selectsAtRoot_now {ctx : ExecutionContext}
    (h : build (TickSample.schema feedTicks) ticks {} = .ok (.ok ctx)) :
    ¬ ctx.SelectsAtRoot "Query" "now" := by
  obtain rfl := Except.ok.inj (Except.ok.inj h)
  rintro ⟨root, hroot, hname, -⟩
  obtain rfl : subscription = root := Option.some.inj hroot
  exact absurd hname (by decide)

end TickSample

/-- The resolver of a field of queries is wrapped: neither the query for it nor a subscription to ticks
sees a difference. -/
theorem wrapResolver_transparent_sample :
    SchemaBuilder.HasField (SchemaBuilder.definitions (TickSample.builder TickSample.feedTicks).types)
      ("Query", "now") ∧
    (∀ resolver, TickSample.calling resolver = resolver) ∧
    ∃ wrapped,
      ((TickSample.builder TickSample.feedTicks).wrapResolver "Query" "now" TickSample.calling).finish =
        .ok wrapped ∧
      execute wrapped TickSample.now {} =
        execute (TickSample.schema TickSample.feedTicks) TickSample.now {} ∧
      (∀ ctx, build (TickSample.schema TickSample.feedTicks) TickSample.ticks {} = .ok (.ok ctx) →
        ctx.operation.type = .subscription → ¬ ctx.SelectsAtRoot "Query" "now") ∧
      ∀ hubs, ((ResponseStream.subscribe wrapped TickSample.ticks {}).visits hubs).map Visit.observed =
        ((ResponseStream.subscribe (TickSample.schema TickSample.feedTicks) TickSample.ticks {}).visits
          hubs).map Visit.observed := by
  have hfield : SchemaBuilder.HasField
      (SchemaBuilder.definitions (TickSample.builder TickSample.feedTicks).types) ("Query", "now") :=
    -- The field is one of the query type.
    ⟨.object TickSample.query, _, rfl, rfl⟩
  have hwrapper : ∀ resolver, TickSample.calling resolver = resolver := fun _ => rfl
  obtain ⟨-, hschema⟩ := wrapResolver_transparent hfield hwrapper
  obtain ⟨wrapped, hwrapped, -, -, hsame⟩ := hschema _ (TickSample.finish_eq TickSample.feedTicks)
  have hroot : ∀ ctx, build (TickSample.schema TickSample.feedTicks) TickSample.ticks {} = .ok (.ok ctx) →
      ctx.operation.type = .subscription → ¬ ctx.SelectsAtRoot "Query" "now" :=
    fun ctx hbuild _ => TickSample.not_selectsAtRoot_now hbuild
  exact ⟨hfield, hwrapper, wrapped, hwrapped, (hsame TickSample.now {} rfl).1, hroot,
    ((hsame TickSample.ticks {} rfl).2 hroot).1⟩

/-- **Fields without a resolver lose the one that they have from elsewhere** when the standard one is
wrapped: that of the request, and the payload at the root of an event. -/
theorem wrapResolver_not_transparent :
    (∃ wrapped,
      ((TickSample.builder TickSample.feedTicks).wrapResolver "Query" "now" TickSample.calling).finish =
        .ok wrapped ∧
      (execute (TickSample.schema TickSample.feedTicks) TickSample.now
        { fieldResolver := TickSample.seven }).outcome = .ok ⟨.object [("now", .number (.int 7))], []⟩ ∧
      (execute wrapped TickSample.now { fieldResolver := TickSample.seven }).outcome =
        .ok ⟨.object [("now", .null)], []⟩) ∧
    ∃ wrapped,
      ((TickSample.builder TickSample.feedTicks).wrapResolver "Subscription" "ticks"
        TickSample.calling).finish = .ok wrapped ∧
      ((ResponseStream.subscribe (TickSample.schema TickSample.feedTicks) TickSample.ticks {}).visits
        [.empty]).map Visit.response? = [some (TickSample.tick 1)] ∧
      ((ResponseStream.subscribe wrapped TickSample.ticks {}).visits [.empty]).map Visit.response? =
        [some ⟨.object [("ticks", .null)], []⟩] :=
  ⟨⟨_, rfl, rfl, rfl⟩, _, rfl, rfl, rfl⟩

end GraphQL
