import GraphQL.Proofs.Execution.Collection
import GraphQL.Proofs.Subscription.Events
import GraphQL.Proofs.Subscription.Visits

/-!
# Subscriptions that are opened

A subscription subscribes to its first root field. `SubscribedField` is that field with everything that
its subscriber is called with, and `Opening` is a request whose subscriber gives a source of events. The
operation is then executed for each event in the context of the request, with the payload of the event
in place of the root value.

* `SubscribedField.eventSource_eq` — the source is what the subscriber gives;
* `ExecutionContext.eventSource_cases` — if no subscriber is called, there is an error to report instead;
* `Opening.exists_unfiltered` — a filter asks its predicate about payloads and the coerced arguments;
* `ExecutionContext.build_withRootValue` — a payload is answered like the root value of a request.
-/

namespace GraphQL

variable {schema : Schema} {document : Document} {params : ExecutionParams} {ctx : ExecutionContext}

/-- The first root field of a subscription, which has a subscriber and arguments that can be coerced. -/
structure SubscribedField (ctx : ExecutionContext) where
  root : ObjectType
  key : String
  node : Field
  nodes : List Field
  others : FieldGroups
  definition : FieldDefinition
  subscriber : Subscriber
  arguments : Arguments
  rootType : ctx.rootType? = some root
  collected : ctx.collectFields root [ctx.operation.selections] = (key, node :: nodes) :: others
  defined : root.field? node.name = some definition
  hasSubscriber : (ctx.schema.fieldHooks root.name node.name).subscriber = some subscriber
  coerced : Coercion.coerceArguments ctx.schema.types definition node ctx.vars = .ok arguments

namespace SubscribedField

/-- The place of the field. -/
def path (field : SubscribedField ctx) : QueryPath := QueryPath.empty.field field.key field.root.name

/-- What the subscriber is called with. -/
def resolverContext (field : SubscribedField ctx) : ResolverContext :=
  ⟨ctx.rootValue, field.arguments,
    ctx.resolveInfo field.root field.definition field.node.name (field.node :: field.nodes) field.path,
    ctx.context⟩

/-- What is made of the answer of the subscriber: its error is reported at the place of the field. -/
def opened (field : SubscribedField ctx) :
    Except ResolverError EventSource → Except GraphQLError (QueryPath × EventSource)
  | .ok source => .ok (field.path, source)
  | .error error => .error
      ((error.toGraphQLError.withLocations ((field.node :: field.nodes).map FieldNode.location)).withPath
        field.path.toErrorPath)

/-- Asking for the event source is the call of the subscriber. -/
theorem eventSource_eq_map (field : SubscribedField ctx) :
    ctx.eventSource = .ok ((field.subscriber field.resolverContext).map field.opened) := by
  obtain ⟨root, key, node, nodes, others, definition, subscriber, arguments, hroot, hcollected,
    hdefined, hsubscriber, hcoerced⟩ := field
  rw [ExecutionContext.eventSource]
  simp only [hroot, hcollected, ExecutionContext.callSubscriber, hdefined, hsubscriber, hcoerced]
  rw [← Call.bind_pure_eq_map]
  refine congrArg (fun next => Except.ok (Call.bind _ next)) (funext fun result => ?_)
  cases result <;> rfl

/-- **The source of a subscription** is what the subscriber of its field gives. -/
theorem eventSource_eq (field : SubscribedField ctx) {texts : List String} {source : EventSource}
    (h : field.subscriber field.resolverContext = .returned texts (.ok source)) :
    ctx.eventSource = .ok (.returned texts (.ok (field.path, source))) := by
  rw [field.eventSource_eq_map, h]
  rfl

end SubscribedField

/-- **Asking for the event source** calls the subscriber of a field, or fails before that: arguments may go on
for ever, and otherwise there is an error to report. Neither is the root type missing nor does a field have
no selections, so it does not panic by itself. -/
theorem ExecutionContext.eventSource_cases {root : ObjectType} (hroot : ctx.rootType? = some root) :
    Nonempty (SubscribedField ctx) ∨ ctx.eventSource = .error .endless ∨
      ∃ error, ctx.eventSource = .ok (.returned [] (.error error)) := by
  rw [eventSource]
  simp only [hroot]
  match hcollected : ctx.collectFields root [ctx.operation.selections] with
  | [] => exact .inr (.inr ⟨_, rfl⟩)
  | (key, []) :: others =>
    -- A field is only collected for one of its selections.
    refine absurd rfl ((ctx.collectFields_grouped root [ctx.operation.selections]).nonempty (key, []) ?_)
    rw [hcollected]
    exact List.mem_cons_self
  -- The first field is subscribed to, if it is defined and has a subscriber.
  | (key, node :: nodes) :: others =>
    dsimp only [callSubscriber]
    cases hdefined : root.field? node.name with
    | none => exact .inr (.inr ⟨_, rfl⟩)
    | some definition =>
      dsimp only
      cases hsubscriber : (ctx.schema.fieldHooks root.name node.name).subscriber with
      | none => exact .inr (.inr ⟨_, rfl⟩)
      | some subscriber =>
        dsimp only
        -- The arguments are coerced before the subscriber is called.
        cases hcoerced : Coercion.coerceArguments ctx.schema.types definition node ctx.vars with
        | error failure =>
          cases failure with
          | endless => exact .inr (.inl rfl)
          | invalid error => exact .inr (.inr ⟨_, rfl⟩)
        | ok arguments =>
          exact .inl ⟨root, key, node, nodes, others, definition, subscriber, arguments, hroot, hcollected,
            hdefined, hsubscriber, hcoerced⟩

/-- A subscription whose subscriber gives a source of events. -/
structure Opening (schema : Schema) (document : Document) (params : ExecutionParams) where
  ctx : ExecutionContext
  field : SubscribedField ctx
  /-- What the subscriber logs. -/
  texts : List String
  source : EventSource
  build : ExecutionContext.build schema document params = .ok (.ok ctx)
  isSubscription : ctx.operation.type = .subscription
  called : field.subscriber field.resolverContext = .returned texts (.ok source)

namespace Opening

/-- The place of the root field. -/
def path (opening : Opening schema document params) : QueryPath := opening.field.path

/-- The stream that waits for the first event. -/
def stream (opening : Opening schema document params) (hub : PubSub) : ResponseStream :=
  .listening ⟨opening.ctx, opening.path, (EventStream.ofSource hub opening.source).1⟩

theorem eventSource_eq (opening : Opening schema document params) :
    opening.ctx.eventSource = .ok (.returned opening.texts (.ok (opening.path, opening.source))) :=
  opening.field.eventSource_eq opening.called

/-- The first visit opens the source and then is a visit of the stream that waits for an event. -/
theorem poll_subscribe (opening : Opening schema document params) (hub : PubSub) :
    (ResponseStream.subscribe schema document params).poll hub =
      ((opening.stream hub).poll (EventStream.ofSource hub opening.source).2).prepend opening.texts :=
  ResponseStream.poll_subscribe_of_source hub opening.build opening.isSubscription
    opening.eventSource_eq

/-- **A filter** leaves the source of the subscriber inside, behind the predicate on payload and coerced
arguments. -/
theorem exists_unfiltered (opening : Opening schema document params)
    {keep : FieldValue → Arguments → Call Bool} {inner : Subscriber}
    (h : opening.field.subscriber = inner.withFilter keep) :
    ∃ unfiltered, inner opening.field.resolverContext = .returned opening.texts (.ok unfiltered) ∧
      opening.source = .filtered (keep · opening.field.arguments) unfiltered := by
  -- The subscriber inside has returned, as the one around it has.
  have hcalled := opening.called
  rw [h, Subscriber.withFilter] at hcalled
  cases hinner : inner opening.field.resolverContext with
  | panicked log message =>
    rw [hinner] at hcalled
    exact nomatch hcalled
  | returned log result =>
    rw [hinner] at hcalled
    obtain ⟨hlog, hresult⟩ := Call.returned.inj hcalled
    rw [List.append_nil] at hlog
    cases result with
    | error error => exact nomatch hresult
    | ok unfiltered => exact ⟨unfiltered, hlog ▸ rfl, (Except.ok.inj hresult).symm⟩

end Opening

/-- **Every payload is answered like a root value**: the context is that of a request which has the
payload as its root value, but for the root field, which resolves to the payload of an event. -/
theorem ExecutionContext.build_withRootValue
    (h : ExecutionContext.build schema document params = .ok (.ok ctx)) (payload : FieldValue) :
    ExecutionContext.build schema document { params with rootValue := payload } =
        .ok (.ok { ctx with rootValue := payload }) ∧
      ctx.isEvent = false := by
  -- The selection of the operation does not look at the root value, and neither does the coercion.
  rw [ExecutionContext.build] at h ⊢
  dsimp only
  cases hselect : ExecutionContext.select schema document params.operationName with
  | error error =>
    rw [hselect] at h
    exact nomatch Except.ok.inj h
  | ok operation =>
    rw [hselect] at h
    cases hvars : Coercion.coerceVariables schema.types schema.config.maxVariableErrors
        operation.variableDefinitions params.vars with
    | error why => simp [hvars, bind, Except.bind] at h
    | ok result =>
      cases result with
      | error errors => simp [hvars, bind, Except.bind, pure, Except.pure, Except.map] at h
      | ok vars =>
        simp only [hvars] at h ⊢
        obtain rfl := Except.ok.inj (Except.ok.inj h)
        exact ⟨rfl, rfl⟩

end GraphQL
