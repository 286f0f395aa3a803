import GraphQL.Proofs.Execution.ErrorConservation
import GraphQL.Proofs.Middleware.Chains
import GraphQL.Proofs.Subscription.Opening
import GraphQL.Proofs.Subscription.Release
import GraphQL.Proofs.Subscription.Transcripts

/-!
# Subscriptions are pointwise images of their events

The responses to a subscription are the replies to the events of its source, one each and in order, where
a reply depends on its event alone. `IsPointwiseImage` says what this amounts to, of streams that are
visited to their end and of streams that are given up after any number of visits, however publications
and visits are interleaved; `subscription_isPointwiseImage` proves it of every subscription whose
subscriber gives a source of events, and that a query or mutation has the one response of its execution.

That one event is answered at a time is an invariant of visits (`ResponseStream.keepsPace_poll`), and so
is that the source is released once (`ResponseStream.pays_poll`, `ResponseStream.keeps_poll`). That the
chains of interceptors, which all events share, carry nothing from one event to another is
`ComposedChains.wrapAll_eq`.
-/

namespace GraphQL

namespace ExecutionContext

/-- If every event can be replied to, the replies are all there is. -/
theorem replies_of_answers {ctx : ExecutionContext} {path : QueryPath} {events : List Occurrence}
    {responses : List Response} (h : ctx.Answers path events responses) :
    ctx.replies path events = (responses, .ended) := by
  induction h with
  | nil => rfl
  | cons hreply _ ih => rw [replies, hreply, replyThen, ih]

/-- If an event cannot be replied to, the replies are those to the events before it. -/
theorem replies_of_breakdown {ctx : ExecutionContext} {path : QueryPath} {before : List Occurrence}
    {responses : List Response} {event : Occurrence} {why : Abort}
    (h : ctx.Answers path before responses) (hevent : ctx.answerTo path event = .error why)
    (later : List Occurrence) :
    ctx.replies path (before ++ event :: later) = (responses, .aborted why) := by
  induction h with
  | nil => rw [List.nil_append, replies, hevent, replyThen]
  | cons hreply _ ih => rw [List.cons_append, replies, hreply, replyThen, ih]

/-- **The reply to an error** has no data and that error alone, at the place of the root field. -/
theorem exists_reply_to_error (ctx : ExecutionContext) (path : QueryPath) (error : ResolverError) :
    ∃ shown, ctx.answerTo path (.event (.error error)) = .ok ⟨.null, [shown]⟩ ∧
      shown.report = (error.message, .resolverError, some path.toErrorPath, []) := by
  rw [answerTo, errorResponse, Response.withExposedCauses]
  split
  · exact ⟨_, rfl, GraphQLError.report_exposeCause _⟩
  · exact ⟨_, rfl, rfl⟩

end ExecutionContext

namespace ResponseStream

/-- The state of a subscription after some visits: the events that have been answered, and the one that
is being answered, if there is one. -/
structure InStep (ctx : ExecutionContext) (path : QueryPath) (stream : ResponseStream)
    (hubs : List PubSub) (answered current : List Occurrence) : Prop where
  /-- Nothing else has been taken from the source. -/
  taken : stream.taken hubs = answered ++ current
  /-- There is one response to each event that has been answered, in order. -/
  answers : ctx.Answers path answered (stream.responses hubs)
  /-- At most one event is being answered. -/
  pace : KeepsPace ctx path (stream.after hubs) current
  /-- No event is taken while another one is being answered. -/
  patient : current ≠ [] → ∀ hub, (stream.after hubs).taken? hub = none
  /-- What is taken next is the first event that is offered, and the others are left. -/
  next : ∀ hub, ∃ left,
    (stream.after hubs).offers hub = ((stream.after hubs).taken? hub).toList ++ left ∧
      Leaves left ((stream.after hubs).poll hub)

/-- A subscription that has been opened is in step after any number of visits. -/
theorem exists_inStep (ctx : ExecutionContext) (path : QueryPath) (events : EventStream)
    (hubs : List PubSub) :
    ∃ answered current, InStep ctx path (.listening ⟨ctx, path, events⟩) hubs answered current := by
  have hopened : KeepsPace ctx path (.listening ⟨ctx, path, events⟩) [] := .listening events
  obtain ⟨answered, current, htaken, hanswers, hpace⟩ := exists_current hopened hubs
  exact ⟨answered, current, htaken, hanswers, hpace, hpace.taken?_eq_none, exists_left hpace⟩

end ResponseStream

open ResponseStream

section Images

variable {schema : Schema} {document : Document} {params : ExecutionParams}

/-- **What it means that a subscription is the pointwise image of its events.** -/
structure IsPointwiseImage (opening : Opening schema document params) : Prop where
  /-- If every event of a source has a reply, the replies are the responses. -/
  replies : ∀ {events responses} (hub : PubSub), opening.source.events? = some events →
    opening.ctx.Answers opening.path events responses →
    ∃ log, collect everything (subscribe schema document params) hub = ⟨log, responses, .ended, hub⟩
  /-- If an event has none, the responses are the replies to the events before it. -/
  breakdown : ∀ {before after event responses why} (hub : PubSub),
    opening.source.events? = some (before ++ event :: after) →
    opening.ctx.Answers opening.path before responses →
    opening.ctx.answerTo opening.path event = .error why →
    ∃ log, collect everything (subscribe schema document params) hub =
      ⟨log, responses, .aborted why, hub⟩
  /-- A payload is replied to as in a request of its own, in which the root field resolves to it. -/
  payload : ∀ payload, ∃ fresh,
    ExecutionContext.build schema document { params with rootValue := payload } = .ok (.ok fresh) ∧
      opening.ctx.answerTo opening.path (.event (.ok payload)) =
        ({ fresh with isEvent := true } : ExecutionContext).respond.outcome
  /-- The reply to an error has no data and that error alone, at the place of the root field. -/
  error : ∀ error, ∃ shown,
    opening.ctx.answerTo opening.path (.event (.error error)) = .ok ⟨.null, [shown]⟩ ∧
      shown.report = (error.message, .resolverError, some [.field opening.field.key], [])
  /-- The chains of interceptors that all events share are those of each event alone. -/
  chains : ∀ requests, ComposedChains.OneResolverEach requests →
    (ComposedChains.new opening.ctx.middleware).wrapAll requests =
      requests.map (·.chain opening.ctx.middleware)
  /-- A filter leaves out the payloads for which its predicate on the payload and the coerced arguments
  fails, and no errors. If the predicate panics, so does the visit that asks it. -/
  filter : ∀ {keep inner}, opening.field.subscriber = Subscriber.withFilter keep inner →
    ∃ unfiltered, inner opening.field.resolverContext = .returned opening.texts (.ok unfiltered) ∧
      opening.source.events? = unfiltered.events?.map
        (List.filterMap (Occurrence.through (keep · opening.field.arguments))) ∧
      ∀ hub hub', (opening.stream hub).offers hub' =
        ((EventStream.ofSource hub unfiltered).1.offers hub').filterMap
          (Occurrence.through (keep · opening.field.arguments))
  /-- The first visit opens the source. Before that there is nothing to release. -/
  start : ∀ hub, (subscribe schema document params).poll hub =
      ((opening.stream hub).poll (EventStream.ofSource hub opening.source).2).prepend opening.texts ∧
    (subscribe schema document params).close hub = ([], hub)
  /-- After any number of visits there is one response to each event that has been answered, and the
  next event is not taken before that. -/
  inStep : ∀ hub hubs, ∃ answered current,
    InStep opening.ctx opening.path (opening.stream hub) hubs answered current
  /-- The events of a source are taken in their order. -/
  inOrder : ∀ {events} (hub : PubSub) hubs, opening.source.events? = some events →
    (opening.stream hub).taken hubs <+: events
  /-- After any number of visits a stream that is open holds its source, and one that has ended does not
  and changes nothing any more. -/
  released : ∀ hub hubs hub', ((opening.stream hub).after hubs).events?.isSome = false →
    ((opening.stream hub).after hubs).poll hub' = ⟨[], .ok .ended, .ended, hub'⟩ ∧
      ((opening.stream hub).after hubs).close hub' = ([], hub')
  /-- What a script logs when it is released is logged once, behind everything else, if the stream is
  given up after any number of visits. -/
  farewell : ∀ {steps farewell} (hub : PubSub) hubs hub',
    opening.source.script? = some (steps, farewell) →
    (opening.stream hub).wholeLog hubs hub' =
      (opening.stream hub).silenced.wholeLog hubs hub' ++ farewell.map .said
  /-- Publications are kept for a stream from the first visit on. -/
  subscribed : ∀ hub, opening.source.script? = none →
    ((EventStream.ofSource hub opening.source).2.inbox? hub.nextId).isSome
  /-- They are kept as long as the stream is open, and no longer: not after the visit that ends it, and
  not after it is given up. -/
  publications : ∀ hub hubs hub', opening.source.script? = none →
    ((opening.stream hub).after hubs).events?.isSome →
    Keeps hub.nextId hub' (((opening.stream hub).after hubs).poll hub') ∧
      (((opening.stream hub).after hubs).close hub').2.inbox? hub.nextId = none

namespace Opening

variable (opening : Opening schema document params)

/-- The transcript of a subscription whose events are fixed in advance. -/
theorem exists_log {events : List Occurrence} (hub : PubSub)
    (h : opening.source.events? = some events) :
    ∃ log, collect everything (subscribe schema document params) hub =
      ⟨log, (opening.ctx.replies opening.path events).1, (opening.ctx.replies opening.path events).2,
        hub⟩ := by
  rw [EventSource.events?_eq] at h
  obtain ⟨⟨steps, farewell⟩, hscript, rfl⟩ := Option.map_eq_some_iff.mp h
  obtain ⟨log, hcollect⟩ := collect_script hub opening.build opening.isSubscription
    opening.eventSource_eq hscript
  exact ⟨_, hcollect⟩

/-- A subscription that has just been opened is in step with its events. -/
theorem keepsPace (hub : PubSub) : KeepsPace opening.ctx opening.path (opening.stream hub) [] :=
  .listening _

theorem exists_keepsPace_after (hub : PubSub) (hubs : List PubSub) :
    ∃ current, KeepsPace opening.ctx opening.path ((opening.stream hub).after hubs) current := by
  obtain ⟨-, current, -, -, hpace⟩ := exists_current (opening.keepsPace hub) hubs
  exact ⟨current, hpace⟩

/-- What is offered at first are the events of the source. -/
theorem offers_stream {events : List Occurrence} (hub : PubSub)
    (h : opening.source.events? = some events) :
    (opening.stream hub).TakesFrom none opening.source.keeps ∧ (opening.stream hub).offers hub = events := by
  rw [EventSource.events?_eq] at h
  obtain ⟨⟨steps, farewell⟩, hscript, rfl⟩ := Option.map_eq_some_iff.mp h
  rw [stream, EventStream.ofSource_of_script hscript]
  exact ⟨takesFrom_listening ⟨rfl, rfl⟩, rfl⟩

/-- What is owed at first is the farewell of the source. -/
theorem owed_stream {steps : List FeedStep} {farewell : List String} (hub : PubSub)
    (h : opening.source.script? = some (steps, farewell)) :
    (opening.stream hub).owed = farewell.map .said := by
  rw [stream, EventStream.ofSource_of_script h]
  rfl

/-- Publications are taken from a subscription of its own. -/
theorem takesFrom_stream (hub : PubSub) (h : opening.source.script? = none) :
    (opening.stream hub).TakesFrom (some hub.nextId) opening.source.keeps := by
  rw [stream, EventStream.ofSource_of_no_script h]
  exact takesFrom_listening ⟨rfl, rfl⟩

/-- **A subscription is the pointwise image of its events.** Each part is taken from the module that
shows it: replies in order, the pace, filters and what a breakdown leaves out; here they are put
together for one opened subscription. -/
theorem isPointwiseImage : IsPointwiseImage opening where
  replies hub hevents hanswers := by
    -- Whoever takes everything gets the replies to the events, which are their answers.
    obtain ⟨log, hcollect⟩ := opening.exists_log hub hevents
    rw [ExecutionContext.replies_of_answers hanswers] at hcollect
    exact ⟨log, hcollect⟩
  breakdown hub hevents hanswers hevent := by
    -- The event that has no answer is the last one that is replied to.
    obtain ⟨log, hcollect⟩ := opening.exists_log hub hevents
    rw [ExecutionContext.replies_of_breakdown hanswers hevent] at hcollect
    exact ⟨log, hcollect⟩
  payload payload :=
    ⟨_, (ExecutionContext.build_withRootValue opening.build payload).1, rfl⟩
  error error := opening.ctx.exists_reply_to_error opening.path error
  chains requests hone := ComposedChains.wrapAll_eq opening.ctx.middleware hone
  filter hsubscriber := by
    obtain ⟨unfiltered, hinner, hsource⟩ := opening.exists_unfiltered hsubscriber
    refine ⟨unfiltered, hinner, congrArg EventSource.events? hsource, fun hub hub' => ?_⟩
    -- The filter is the outermost one of the source, and is the last one to be asked.
    have hoffers : (opening.stream hub).offers hub' =
        (EventStream.ofSource hub opening.source).1.offers hub' := rfl
    rw [hoffers, hsource, EventStream.offers_ofSource_filtered]
  start hub := ⟨opening.poll_subscribe hub, rfl⟩
  inStep hub hubs := exists_inStep _ _ _ hubs
  inOrder hub hubs hevents := by
    -- A script offers its own events, and they are taken from its front.
    obtain ⟨hscript, hoffers⟩ := opening.offers_stream hub hevents
    rw [← hoffers]
    exact taken_initial (opening.keepsPace hub) hscript hub hubs
  released hub hubs hub' hclosed := by
    -- A closed stream has ended, so that it gives no more response and logs nothing.
    obtain ⟨current, hpace⟩ := opening.exists_keepsPace_after hub hubs
    rw [eq_ended_of_closed hpace hclosed]
    exact ⟨rfl, rfl⟩
  farewell hub hubs hub' hscript := by
    rw [← opening.owed_stream hub hscript]
    exact wholeLog_eq (opening.keepsPace hub) hubs hub'
  subscribed hub hscript := EventStream.isSome_inbox?_ofSource hscript hub
  publications hub hubs hub' hscript hopen := by
    -- The stream is open and still takes from the subscription that it opened.
    obtain ⟨current, hpace⟩ := opening.exists_keepsPace_after hub hubs
    have htakes := takesFrom_after (opening.keepsPace hub) (opening.takesFrom_stream hub hscript) hubs
    exact ⟨keeps_poll hpace hopen htakes hub', inbox?_close_of_takesFrom hopen htakes hub'⟩

end Opening

/-- **A subscription is the ordered pointwise image of its events**, and a query or mutation has the one
response of its execution. -/
theorem subscription_isPointwiseImage :
    (∀ opening : Opening schema document params, IsPointwiseImage opening) ∧
    ∀ hub, (∀ ctx, ExecutionContext.build schema document params = .ok (.ok ctx) →
        ctx.operation.type ≠ .subscription) →
      collect everything (subscribe schema document params) hub =
        match (execute schema document params).outcome with
        | .ok response => ⟨(execute schema document params).log, [response], .ended, hub⟩
        | .error why => ⟨(execute schema document params).log, [], .aborted why, hub⟩ :=
  ⟨Opening.isPointwiseImage, collect_single⟩

end Images

/-! ### Odd ticks -/

namespace TickSample

/-- Some ticks, with a pause and an error among them. -/
def feed : EventSource :=
  .feed [.event (.ok (.plain (.number (.int 1)))), .wait, .event (.error (.new "lost")),
    .event (.ok (.plain (.number (.int 2)))), .event (.ok (.plain (.number (.int 3))))] ["released"]

/-- Whether a tick is an odd number. -/
def isOdd (payload : FieldValue) (_ : Arguments) : Call Bool :=
  match payload with
  | .plain (.number (.int n)) => pure (n % 2 == 1)
  | _ => pure false

/-- The subscriber of odd ticks. -/
def oddTicks : Subscriber := Subscriber.withFilter isOdd fun _ => .returned [] (.ok feed)

/-- The subscriber of what is published as a tick. -/
def publishedTicks : Subscriber := fun _ => .returned [] (.ok (.topics ["tick"]))

/-- The execution of the subscription to ticks. -/
def context (subscriber : Subscriber) : ExecutionContext :=
  ⟨TickSample.schema subscriber, [],
    ⟨.subscription, [], [], [.field ⟨none, "ticks", [], [], [], ⟨1, 16⟩⟩], ⟨1, 1⟩⟩, .null, none, .empty,
    .standard, .standard, .empty, false⟩

/-- The field that it subscribes to. -/
def field (subscriber : Subscriber) : SubscribedField (context subscriber) where
  root := subscription
  key := "ticks"
  node := ⟨none, "ticks", [], [], [], ⟨1, 16⟩⟩
  nodes := []
  others := []
  definition := ⟨"ticks", none, .named "Int", .empty⟩
  subscriber := subscriber
  arguments := []
  rootType := rfl
  collected := rfl
  defined := rfl
  hasSubscriber := rfl
  coerced := rfl

/-- The subscription to ticks, if the subscriber gives a source. -/
def opening (subscriber : Subscriber) (source : EventSource)
    (h : ∀ ctx, subscriber ctx = .returned [] (.ok source)) :
    Opening (TickSample.schema subscriber) ticks {} where
  ctx := context subscriber
  field := field subscriber
  texts := []
  source := source
  build := rfl
  isSubscription := rfl
  called := h _

/-- The subscription to odd ticks. -/
def oddOpening : Opening (TickSample.schema oddTicks) ticks {} :=
  opening oddTicks (.filtered (isOdd · []) feed) fun _ => rfl

/-- The subscription to what is published. -/
def publishedOpening : Opening (TickSample.schema publishedTicks) ticks {} :=
  opening publishedTicks (.topics ["tick"]) fun _ => rfl

/-- The response to a tick. -/
def tick (n : Int) : Response := ⟨.object [("ticks", .number (.int n))], []⟩

/-- The response to the error among the ticks. -/
def lost : Response :=
  ⟨.null, [(ResolverError.toGraphQLError (.new "lost")).withPath [.field "ticks"]]⟩

/-- A query to the same schema. -/
def now : Document := document .query [] "now" 3

end TickSample

/-- Odd ticks are answered until they end, and release their source whenever that is; publications are
given up with the stream; and a query is answered once. -/
theorem subscription_isPointwiseImage_sample :
    (∃ log, collect everything (subscribe (TickSample.schema TickSample.oddTicks) TickSample.ticks {})
      .empty = ⟨log, [TickSample.tick 1, TickSample.lost, TickSample.tick 3], .ended, .empty⟩) ∧
    (∀ hubs hub, (TickSample.oddOpening.stream .empty).wholeLog hubs hub =
      (TickSample.oddOpening.stream .empty).silenced.wholeLog hubs hub ++ [.said "released"]) ∧
    (∀ hub, ((TickSample.publishedOpening.stream .empty).close hub).2.inbox? 0 = none) ∧
    ∃ log, collect everything (subscribe (TickSample.schema TickSample.oddTicks) TickSample.now {})
      .empty = ⟨log, [⟨.object [("now", .null)], []⟩], .ended, .empty⟩ := by
  have himage := subscription_isPointwiseImage.1 TickSample.oddOpening
  -- The answers of the three events are computed.
  have hreplies : TickSample.oddOpening.ctx.Answers TickSample.oddOpening.path
      [.event (.ok (.plain (.number (.int 1)))), .event (.error (.new "lost")),
        .event (.ok (.plain (.number (.int 3))))]
      [TickSample.tick 1, TickSample.lost, TickSample.tick 3] := .cons rfl (.cons rfl (.cons rfl .nil))
  have hpublished := subscription_isPointwiseImage.1 TickSample.publishedOpening
  refine ⟨himage.replies .empty rfl hreplies, fun hubs hub => himage.farewell .empty hubs hub rfl,
    fun hub => (hpublished.publications .empty [] hub rfl rfl).2,
    (execute (TickSample.schema TickSample.oddTicks) TickSample.now {}).log, ?_⟩
  -- The request is a query, so that it is answered as it is executed.
  refine (subscription_isPointwiseImage.2 .empty fun ctx hbuild => ?_).trans rfl
  obtain rfl := Except.ok.inj (Except.ok.inj hbuild)
  exact nofun

end GraphQL
