import GraphQL.Document.Reader
import GraphQL.Schema.Builder
import GraphQL.Subscription.Stream

/-!
# Visits of response streams

A stream is visited again and again, and what is published under the triggers of a subscription may
change in between. A run of a stream is therefore given by the state of the publications at each of its
visits, and what is said of all runs holds however publications and visits are interleaved.

* `ResponseStream.visits`, `ResponseStream.after` — the visits of a run, and what they leave;
* `ResponseStream.poll_subscribe_of_source` — the first visit opens the source of a subscription and
  then is a visit of the stream that waits for its first event;
* `ResponseStream.poll_subscribe_induction`, `ResponseStream.poll_listening_induction` — what the first
  visit, and a visit of a stream that waits for an event, can come to.
-/

namespace GraphQL

namespace Visit

/-- The response that a visit finds. -/
def response? (visit : Visit) : Option Response :=
  match visit.found with
  | .ok (.ready response) => some response
  | _ => none

@[simp] theorem prepend_found (texts : List String) (visit : Visit) :
    (visit.prepend texts).found = visit.found := rfl

@[simp] theorem prepend_stream (texts : List String) (visit : Visit) :
    (visit.prepend texts).stream = visit.stream := rfl

@[simp] theorem prepend_hub (texts : List String) (visit : Visit) :
    (visit.prepend texts).hub = visit.hub := rfl

@[simp] theorem prepend_log (texts : List String) (visit : Visit) :
    (visit.prepend texts).log = texts.map .said ++ visit.log := rfl

end Visit

namespace ResponseStream

/-- One visit for each state of the publications. -/
def visits (stream : ResponseStream) : List PubSub → List Visit
  | [] => []
  | hub :: hubs => stream.poll hub :: (stream.poll hub).stream.visits hubs

/-- What is left of a stream after these visits. -/
def after (stream : ResponseStream) : List PubSub → ResponseStream
  | [] => stream
  | hub :: hubs => (stream.poll hub).stream.after hubs

/-- What holds of each visit of a stream with an invariant holds of all visits of a run. -/
theorem forall_visits_of_poll {invariant : ResponseStream → Prop} {goal : Visit → Prop}
    (hstep : ∀ stream hub, invariant stream →
      goal (stream.poll hub) ∧ invariant (stream.poll hub).stream)
    {stream : ResponseStream} (h : invariant stream) (hubs : List PubSub) :
    ∀ visit ∈ stream.visits hubs, goal visit := by
  induction hubs generalizing stream with
  | nil => exact fun _ hmem => absurd hmem List.not_mem_nil
  | cons hub hubs ih =>
    obtain ⟨hgoal, hinvariant⟩ := hstep stream hub h
    exact List.forall_mem_cons.mpr ⟨hgoal, ih hinvariant⟩

section Listening

variable {ctx : ExecutionContext} {path : QueryPath} {events : EventStream} {hub : PubSub}
  {log : List String}

/-- **A visit of a stream that waits for an event** visits its source and replies to what is there. -/
theorem poll_listening_of_returned {visit : EventVisit} (h : events.poll hub = .returned log visit) :
    poll (.listening ⟨ctx, path, events⟩) hub =
      (Subscription.reply ⟨ctx, path, visit.stream⟩ visit.hub visit.found).prepend log := by
  rw [poll, Subscription.poll]
  simp only [h]

/-- If the visit of the source panics, the stream breaks down like an execution that panics. -/
theorem poll_listening_of_panicked {message : String} (h : events.poll hub = .panicked log message) :
    poll (.listening ⟨ctx, path, events⟩) hub =
      Subscription.proceed ⟨ctx, path, events⟩ hub (.abort (log.map .said) (.panicked message)) := by
  rw [poll, Subscription.poll]
  simp only [h]

/-- Everything that a visit of a stream which waits for an event can come to: the source or a filter panics,
or it is waited for further, the source has ended, or there is an event to reply to. -/
theorem poll_listening_induction {motive : Visit → Prop} (ctx : ExecutionContext) (path : QueryPath)
    (events : EventStream) (hub : PubSub)
    (prepend : ∀ texts visit, motive visit → motive (visit.prepend texts))
    (panicked : ∀ log message,
      motive (Subscription.proceed ⟨ctx, path, events⟩ hub (.abort log (.panicked message))))
    (pending : ∀ events hub, motive ⟨[], .ok .pending, .listening ⟨ctx, path, events⟩, hub⟩)
    (ended : ∀ log hub, motive ⟨log, .ok .ended, .ended, hub⟩)
    (error : ∀ events hub (error : ResolverError), motive ⟨[],
      .ok (.ready (ctx.errorResponse (error.toGraphQLError.withPath path.toErrorPath))),
      .listening ⟨ctx, path, events⟩, hub⟩)
    (payload : ∀ events hub payload,
      motive (Subscription.proceed ⟨ctx, path, events⟩ hub (ctx.forEvent payload).respond)) :
    motive (poll (.listening ⟨ctx, path, events⟩) hub) := by
  cases hvisit : events.poll hub with
  | panicked log message =>
    rw [poll_listening_of_panicked hvisit]
    exact panicked _ _
  | returned log visit =>
    rw [poll_listening_of_returned hvisit]
    refine prepend _ _ ?_
    cases visit.found with
    | pending => exact pending _ _
    | ended => exact ended _ _
    | ready event =>
      cases event with
      | error failure => exact error _ _ failure
      | ok value => exact payload _ _ value

end Listening

/-! ### The first visit -/

variable {schema : Schema} {document : Document} {params : ExecutionParams} {ctx : ExecutionContext}

theorem poll_subscribe_of_build_error {why : Abort} (hub : PubSub)
    (h : ExecutionContext.build schema document params = .error why) :
    (subscribe schema document params).poll hub = proceed hub (.abort [] why) := by
  rw [subscribe, poll, start, h]

/-- A request that is refused is answered by its first visit. -/
theorem poll_subscribe_of_refused {errors : List GraphQLError} (hub : PubSub)
    (h : ExecutionContext.build schema document params = .ok (.error errors)) :
    (subscribe schema document params).poll hub =
      proceed hub (.finish [] (.requestError errors)) := by
  rw [subscribe, poll, start, h]

/-- The first visit of a query or mutation starts its execution. -/
theorem poll_subscribe_of_not_subscription (hub : PubSub)
    (h : ExecutionContext.build schema document params = .ok (.ok ctx))
    (htype : ctx.operation.type ≠ .subscription) :
    (subscribe schema document params).poll hub = proceed hub ctx.respond := by
  rw [subscribe, poll, start, h]
  exact if_neg fun heq => htype (eq_of_beq heq)

/-- The first visit of a subscription asks for its event source. -/
theorem poll_subscribe_of_subscription (hub : PubSub)
    (h : ExecutionContext.build schema document params = .ok (.ok ctx))
    (htype : ctx.operation.type = .subscription) :
    (subscribe schema document params).poll hub = startSubscription ctx hub := by
  rw [subscribe, poll, start, h]
  exact if_pos (beq_iff_eq.mpr htype)

/-- **The first visit opens the source of a subscription** and then is a visit of the stream that waits
for the first event. -/
theorem poll_subscribe_of_source {texts : List String} {path : QueryPath} {source : EventSource}
    (hub : PubSub) (h : ExecutionContext.build schema document params = .ok (.ok ctx))
    (htype : ctx.operation.type = .subscription)
    (hsource : ctx.eventSource = .ok (.returned texts (.ok (path, source)))) :
    (subscribe schema document params).poll hub =
      ((listening ⟨ctx, path, (EventStream.ofSource hub source).1⟩).poll
        (EventStream.ofSource hub source).2).prepend texts := by
  rw [poll_subscribe_of_subscription hub h htype, startSubscription, hsource]
  rfl

/-- Everything that the first visit can come to. Something breaks down before there is a response or a
source; or the request is refused; or a query or mutation is executed; or a subscription fails before it has
a source; or the source is opened and visited. -/
theorem poll_subscribe_induction {motive : Visit → Prop} (schema : Schema) (document : Document)
    (params : ExecutionParams) (hub : PubSub)
    (broken : ∀ log why, motive (proceed hub (.abort log why)))
    (refused : ∀ errors, ExecutionContext.build schema document params = .ok (.error errors) →
      motive (proceed hub (.finish [] (.requestError errors))))
    (executed : ∀ ctx, ExecutionContext.build schema document params = .ok (.ok ctx) →
      ctx.operation.type ≠ .subscription → motive (proceed hub ctx.respond))
    (failed : ∀ ctx, ExecutionContext.build schema document params = .ok (.ok ctx) →
      ctx.operation.type = .subscription →
      ∀ log error, ctx.eventSource = .ok (.returned log (.error error)) →
        motive (proceed hub (.finish (log.map .said) (ctx.errorResponse error))))
    (opened : ∀ ctx, ExecutionContext.build schema document params = .ok (.ok ctx) →
      ctx.operation.type = .subscription →
      ∀ log path source, ctx.eventSource = .ok (.returned log (.ok (path, source))) →
        motive (((listening ⟨ctx, path, (EventStream.ofSource hub source).1⟩).poll
          (EventStream.ofSource hub source).2).prepend log)) :
    motive ((subscribe schema document params).poll hub) := by
  cases hbuild : ExecutionContext.build schema document params with
  | error why =>
    rw [poll_subscribe_of_build_error hub hbuild]
    exact broken [] why
  | ok result =>
    cases result with
    | error errors =>
      rw [poll_subscribe_of_refused hub hbuild]
      exact refused errors hbuild
    | ok ctx =>
      by_cases htype : ctx.operation.type = .subscription
      · cases hsource : ctx.eventSource with
        | error why =>
          rw [poll_subscribe_of_subscription hub hbuild htype, startSubscription, hsource]
          exact broken [] why
        | ok call =>
          cases call with
          | panicked log message =>
            rw [poll_subscribe_of_subscription hub hbuild htype, startSubscription, hsource]
            exact broken _ (.panicked message)
          | returned log result =>
            cases result with
            | error error =>
              rw [poll_subscribe_of_subscription hub hbuild htype, startSubscription, hsource]
              exact failed ctx hbuild htype log error hsource
            | ok found =>
              rw [poll_subscribe_of_source hub hbuild htype hsource]
              exact opened ctx hbuild htype log found.1 found.2 hsource
      · rw [poll_subscribe_of_not_subscription hub hbuild htype]
        exact executed ctx hbuild htype

end ResponseStream

/-! ### A subscription to ticks -/

namespace TickSample

/-- Something to ask for, as every schema needs. -/
def query : ObjectType where
  name := "Query"
  description := none
  fields := .ofList [⟨"now", none, .named "Int", .empty⟩]
  interfaces := []
  isTypeOf := none

/-- Ticks, which are numbers. -/
def subscription : ObjectType where
  name := "Subscription"
  description := none
  fields := .ofList [⟨"ticks", none, .named "Int", .empty⟩]
  interfaces := []
  isTypeOf := none

/-- The types above, with a subscriber for the ticks. -/
def builder (subscriber : Subscriber) : SchemaBuilder :=
  ((SchemaBuilder.new "Query" none (some "Subscription")).register ⟨.object query, .none⟩).register
    ⟨.object subscription, ⟨[("ticks", ⟨none, some subscriber⟩)], none⟩⟩

/-- The schema that the builder makes. -/
def schema (subscriber : Subscriber) : Schema :=
  (builder subscriber).finish.toOption.getD ⟨⟨[], "", none, none, []⟩, [], .standard⟩

theorem finish_eq (subscriber : Subscriber) :
    (builder subscriber).finish = .ok (schema subscriber) := rfl

/-- An operation without a name that selects a single field, in the given column. -/
def document (type : OperationType) (declared : List VariableDefinition) (name : String)
    (column : Nat) : Document :=
  ⟨.anonymous ⟨type, declared, [], [.field ⟨none, name, [], [], [], ⟨1, column⟩⟩], ⟨1, 1⟩⟩, []⟩

/-- The subscription to ticks. -/
def ticks : Document := document .subscription [] "ticks" 16

end TickSample

end GraphQL
