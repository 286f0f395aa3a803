import GraphQL.Proofs.Document.PlainFields
import GraphQL.Proofs.Execution.Panics
import GraphQL.Proofs.Subscription.Breakdowns
import GraphQL.Proofs.Subscription.RequestErrors

/-!
# Panics that reach the caller

With panics of resolvers caught, and callbacks that tell object types apart and return, three things can
still panic: a variable of a type with too many lists, the subscriber of a subscription, and the source of
its events with the filters around it. The last two are called without a guard, the subscriber by the first
visit of the stream of responses and the source by every visit that waits for an event.

* `SubscriberPanics`, `SourcePanics` — what it means that one of the two does;
* `panic_iff_overflow_subscriber_or_source` — nothing else makes an execution or a stream of responses
  panic, and each of these does;
* `panics_reach_the_caller` — the first two happen.

That an execution does not panic is `ExecutionContext.respond_neverPanics`. What is left to do is to follow
the visits of a stream. A stream with a single response breaks down as its execution does
(`ResponseStream.outcome_of_visit`), and a subscription in the reply to an event, which by `answerTo` panics
only if the event is a panic of the source (`ExecutionContext.answerTo_eq_panicked_iff`).
-/

namespace GraphQL

open ResponseStream

variable {schema : Schema} {document : Document} {params : ExecutionParams} {ctx : ExecutionContext}
  {message : String}

/-! ### What panics -/

/-- The subscriber panics that the first visit of a subscription calls. -/
def SubscriberPanics (schema : Schema) (document : Document) (params : ExecutionParams)
    (message : String) : Prop :=
  ∃ (ctx : ExecutionContext) (field : SubscribedField ctx) (log : List String),
    ExecutionContext.build schema document params = .ok (.ok ctx) ∧ ctx.operation.type = .subscription ∧
      field.subscriber field.resolverContext = .panicked log message

/-- The source that is opened for a subscription panics. In a script the panic is reached if everything
before it can be replied to; a panic of the script and one of a filter on its events are the same to it. For
publications, a filter panics on a payload that can be published. -/
def SourcePanics (schema : Schema) (document : Document) (params : ExecutionParams)
    (message : String) : Prop :=
  ∃ opening : Opening schema document params,
    (∃ before after responses, opening.source.events? = some (before ++ .panic message :: after) ∧
        opening.ctx.Answers opening.path before responses) ∨
      opening.source.triggers ≠ [] ∧ ∃ payload log, opening.source.keeps payload = .panicked log message

/-! ### Replies -/

namespace ExecutionContext

/-- **The reply to an event panics exactly if the event is a panic.** -/
theorem answerTo_eq_panicked_iff {root : ObjectType} (hroot : ctx.rootType? = some root)
    (hcallbacks : ctx.schema.CallbacksReturn ctx.typeResolver)
    (hcatch : ctx.schema.config.catchResolverPanics = true) (path : QueryPath) (event : Occurrence) :
    ctx.answerTo path event = .error (.panicked message) ↔ event = .panic message := by
  cases event with
  | panic message' =>
    constructor
    · intro h
      obtain rfl := Abort.panicked.inj (Except.error.inj h)
      rfl
    · intro h
      obtain rfl := Occurrence.panic.inj h
      rfl
  | event result =>
    -- What is left are events, and these are executed with all panics caught.
    refine iff_of_false (fun hpanics => ?_) (by rintro ⟨⟩)
    cases result with
    | error error => cases hpanics
    | ok payload =>
      have hevent : (ctx.forEvent payload).rootType? = some root := hroot
      exact respond_neverPanics hevent hcallbacks hcatch message hpanics

end ExecutionContext

/-! ### Streams with a single response -/

namespace ResponseStream

/-- While a single response is made, a visit breaks down only as the whole run does. The induction
is on the visits: each leaves the rest of the run, which ends as the run does, or a stream that has
ended and finds nothing. -/
theorem outcome_of_visit {run : Run Response} {hubs : List PubSub} {visit : Visit} {why : Abort}
    (hmem : visit ∈ (answering run).visits hubs) (hwhy : visit.found = .error why) :
    run.outcome = .error why := by
  -- A stream that has ended finds nothing that could break down.
  have hended (hubs : List PubSub) :
      ∀ visit ∈ ResponseStream.ended.visits hubs, visit.found ≠ .error why := by
    have hstep : ∀ stream hub, ResponseStream.ended = stream →
        (stream.poll hub).found ≠ .error why ∧ ResponseStream.ended = (stream.poll hub).stream := by
      rintro _ hub rfl
      exact ⟨by rintro ⟨⟩, rfl⟩
    exact forall_visits_of_poll hstep rfl hubs
  induction hubs generalizing run with
  | nil => exact absurd hmem List.not_mem_nil
  | cons hub hubs ih =>
    cases run with
    | finish log response =>
      rcases List.mem_cons.mp hmem with rfl | hlater
      · cases hwhy
      · exact absurd hwhy (hended hubs visit hlater)
    | abort log why' =>
      rcases List.mem_cons.mp hmem with rfl | hlater
      · exact congrArg _ (Except.error.inj hwhy)
      · exact absurd hwhy (hended hubs visit hlater)
    | suspend log rest =>
      rcases List.mem_cons.mp hmem with rfl | hlater
      · cases hwhy
      · have hrest : visit ∈ (answering rest).visits hubs := hlater
        exact (ih hrest : rest.outcome = .error why)

/-- Streams whose first visit is the same are visited alike after that. -/
theorem visits_eq_of_poll_eq {stream stream' : ResponseStream} {hub hub' : PubSub}
    (h : stream.poll hub = stream'.poll hub') (hubs : List PubSub) :
    stream.visits (hub :: hubs) = stream'.visits (hub' :: hubs) := by
  rw [visits, visits, h]

/-- If the first visit goes on with a run, no visit breaks down but as the run does. -/
theorem outcome_of_visit_of_proceed {stream : ResponseStream} {hub : PubSub} {run : Run Response}
    (hpoll : stream.poll hub = proceed hub run) {hubs : List PubSub} {visit : Visit} {why : Abort}
    (hmem : visit ∈ stream.visits (hub :: hubs)) (hwhy : visit.found = .error why) :
    run.outcome = .error why := by
  have hsame : stream.poll hub = (answering run).poll hub := hpoll
  rw [visits_eq_of_poll_eq hsame] at hmem
  exact outcome_of_visit hmem hwhy

end ResponseStream

/-! ### Streams of subscriptions -/

namespace Opening

variable (opening : Opening schema document params)

/-- The visits of a subscription find what the visits of the opened stream find. -/
theorem exists_visit_of_subscribe {hub : PubSub} {hubs : List PubSub} {visit : Visit}
    (hmem : visit ∈ (subscribe schema document params).visits (hub :: hubs)) :
    ∃ visit' ∈ (opening.stream hub).visits ((EventStream.ofSource hub opening.source).2 :: hubs),
      visit'.found = visit.found := by
  rw [visits, opening.poll_subscribe hub] at hmem
  rcases List.mem_cons.mp hmem with rfl | hlater
  · exact ⟨_, List.mem_cons_self, rfl⟩
  · exact ⟨visit, List.mem_cons_of_mem _ hlater, rfl⟩

/-- **A visit of an opened subscription that panics** has come to a panic of its source. Executing
an event does not panic, as all callbacks return or are caught, so that the event itself was a
panic; where it came from depends on the kind of the source. -/
theorem sourcePanics_of_visit (hcallbacks : schema.CallbacksReturn params.typeResolver)
    (hcatch : schema.config.catchResolverPanics = true) {hub : PubSub} (hhub : hub.Consistent)
    {hubs : List PubSub} {visit : Visit}
    (hmem : visit ∈ (opening.stream hub).visits ((EventStream.ofSource hub opening.source).2 :: hubs))
    (hpanics : visit.found = .error (.panicked message)) : SourcePanics schema document params message := by
  obtain ⟨answered, event, responses, htaken, hanswers, hanswer⟩ :=
    exists_breakdown (opening.keepsPace hub) hmem hpanics
  rw [List.nil_append] at htaken
  -- Nothing but the event itself can have panicked.
  obtain ⟨hschema, hresolver⟩ := ExecutionContext.of_build opening.build
  obtain ⟨root, hroot⟩ := ExecutionContext.exists_rootType_of_subscription opening.build
    opening.isSubscription
  rw [← hschema, ← hresolver] at hcallbacks
  rw [← hschema] at hcatch
  obtain rfl := (ExecutionContext.answerTo_eq_panicked_iff hroot hcallbacks hcatch _ _).mp hanswer
  refine ⟨opening, ?_⟩
  cases hscript : opening.source.script? with
  | some script =>
    -- A script offers its own events, so that what has been taken is the first part of them.
    have hevents := opening.source.events?_eq
    rw [hscript, Option.map_some] at hevents
    obtain ⟨htakes, hoffers⟩ := opening.offers_stream hub hevents
    obtain ⟨later, hlater⟩ := taken_initial (opening.keepsPace hub) htakes hub
      ((EventStream.ofSource hub opening.source).2 :: hubs)
    refine .inl ⟨answered, later, responses, ?_, hanswers⟩
    rw [hevents, ← hoffers, ← hlater, htaken, List.append_assoc]
    rfl
  | none =>
    -- The source subscribes to triggers: something has been published, and a filter has panicked on it.
    refine .inr ⟨fun hnone => ?_, ?_⟩
    · rw [opening.taken_of_no_triggers hhub hscript hnone hubs] at htaken
      exact absurd htaken.symm (List.append_ne_nil_of_right_ne_nil _ (List.cons_ne_nil _ _))
    · have hmem : .panic message ∈
          (opening.stream hub).taken ((EventStream.ofSource hub opening.source).2 :: hubs) := by
        rw [htaken]
        exact List.mem_append_right answered (List.mem_singleton_self _)
      exact filter_panics_of_taken (opening.keepsPace hub) (opening.takesFrom_stream hub hscript) hmem

end Opening

/-! ### First visits -/

/-- **A visit of a subscription that panics** has come to a panic of the subscriber or of the source.
The cases are those of asking for the source: whatever fails on the way is answered, or has no end, but
does not panic by itself. -/
theorem of_visits_panicked_of_subscription (hcallbacks : schema.CallbacksReturn params.typeResolver)
    (hcatch : schema.config.catchResolverPanics = true) {ctx : ExecutionContext}
    (hbuild : ExecutionContext.build schema document params = .ok (.ok ctx))
    (htype : ctx.operation.type = .subscription) {hub : PubSub} (hhub : hub.Consistent)
    {hubs : List PubSub} {visit : Visit}
    (hmem : visit ∈ (subscribe schema document params).visits (hub :: hubs))
    (hpanics : visit.found = .error (.panicked message)) :
    SubscriberPanics schema document params message ∨ SourcePanics schema document params message := by
  -- The first visit asks for the source, and all that comes of it follows from what the subscriber
  -- does.
  have hpoll := poll_subscribe_of_subscription hub hbuild htype
  have hgoesOn {run : Run Response} (hstart : startSubscription ctx hub = proceed hub run) :
      run.outcome = .error (.panicked message) :=
    outcome_of_visit_of_proceed (hpoll.trans hstart) hmem hpanics
  obtain ⟨root, hroot⟩ := ExecutionContext.exists_rootType_of_subscription hbuild htype
  rcases ExecutionContext.eventSource_cases hroot with ⟨⟨field⟩⟩ | hendless | ⟨error, herror⟩
  -- There is a field with a subscriber, which panics, fails or returns a source.
  · cases hcalled : field.subscriber field.resolverContext with
    | panicked log message' =>
      have hstart : startSubscription ctx hub =
          proceed hub (.abort (log.map .said) (.panicked message')) := by
        rw [startSubscription, field.eventSource_eq_map, hcalled]
        rfl
      obtain rfl := Abort.panicked.inj (Except.error.inj (hgoesOn hstart))
      exact .inl ⟨ctx, field, log, hbuild, htype, hcalled⟩
    | returned texts result =>
      cases result with
      | error error =>
        have hanswered : ∃ response, startSubscription ctx hub =
            proceed hub (.finish (texts.map .said) response) := by
          rw [startSubscription, field.eventSource_eq_map, hcalled]
          exact ⟨_, rfl⟩
        obtain ⟨response, hstart⟩ := hanswered
        cases hgoesOn hstart
      | ok source =>
        -- The source is opened, so that a visit of its stream has come to the panic.
        let opening : Opening schema document params :=
          ⟨ctx, field, texts, source, hbuild, htype, hcalled⟩
        obtain ⟨visit', hmem', hfound⟩ := opening.exists_visit_of_subscribe hmem
        exact .inr (opening.sourcePanics_of_visit hcallbacks hcatch hhub hmem' (hfound.trans hpanics))
  -- Arguments that end in no value break the run down, but do not panic.
  · have hstart : startSubscription ctx hub = proceed hub (.abort [] .endless) := by
      rw [startSubscription, hendless]
    cases hgoesOn hstart
  · have hanswered : ∃ response, startSubscription ctx hub = proceed hub (.finish [] response) := by
      rw [startSubscription, herror]
      exact ⟨_, rfl⟩
    obtain ⟨response, hstart⟩ := hanswered
    cases hgoesOn hstart

/-- **A visit that panics** has found a type that overflows, or has called a subscriber or a source
that panics. A request that is no subscription is executed once, and panics as its execution does. -/
theorem of_visits_panicked {builder : SchemaBuilder} (hfinish : builder.finish = .ok schema)
    (hcallbacks : schema.CallbacksReturn params.typeResolver)
    (hcatch : schema.config.catchResolverPanics = true) {hubs : List PubSub}
    (hhubs : ∀ hub ∈ hubs, hub.Consistent) {visit : Visit}
    (hmem : visit ∈ (subscribe schema document params).visits hubs)
    (hpanics : visit.found = .error (.panicked message)) :
    (message = Wrapping.overflowMessage ∧ TypeOverflow schema document params) ∨
      SubscriberPanics schema document params message ∨ SourcePanics schema document params message := by
  cases hubs with
  | nil => exact absurd hmem List.not_mem_nil
  | cons hub hubs =>
    by_cases hsubscription : ∃ ctx, ExecutionContext.build schema document params = .ok (.ok ctx) ∧
        ctx.operation.type = .subscription
    · obtain ⟨ctx, hbuild, htype⟩ := hsubscription
      exact .inr (of_visits_panicked_of_subscription hcallbacks hcatch hbuild htype
        (hhubs hub List.mem_cons_self) hmem hpanics)
    -- All else is executed once, which panics only if a type overflows.
    · have hsingle : ∀ ctx, ExecutionContext.build schema document params = .ok (.ok ctx) →
          ctx.operation.type ≠ .subscription :=
        fun ctx hbuild htype => hsubscription ⟨ctx, hbuild, htype⟩
      have houtcome := outcome_of_visit_of_proceed (poll_subscribe_single hub hsingle) hmem hpanics
      exact .inl ((execute_panicked_iff hfinish hcallbacks hcatch).mp houtcome)

/-! ### Each of them does -/

/-- A type that overflows makes the first visit panic, and so does a subscriber. -/
theorem first_visit_panics
    (h : (message = Wrapping.overflowMessage ∧ TypeOverflow schema document params) ∨
      SubscriberPanics schema document params message) (hub : PubSub) :
    ((subscribe schema document params).poll hub).found = .error (.panicked message) := by
  rcases h with hoverflow | ⟨ctx, field, log, hbuild, htype, hcalled⟩
  · rw [poll_subscribe_of_build_error hub (build_eq_panicked_iff.mpr hoverflow)]
    rfl
  · rw [poll_subscribe_of_subscription hub hbuild htype, startSubscription, field.eventSource_eq_map, hcalled]
    rfl

/-- A source that panics makes some visit panic: of a script, one of those that are made to collect all
responses, and of publications, the one after the payload has been published. -/
theorem exists_visit_of_sourcePanics (h : SourcePanics schema document params message) :
    ∃ hubs, (∀ hub ∈ hubs, hub.Consistent) ∧
      ∃ visit ∈ (subscribe schema document params).visits hubs, visit.found = .error (.panicked message) := by
  obtain ⟨opening, ⟨before, after, responses, hevents, hanswers⟩ | ⟨hsome, payload, log, hkeep⟩⟩ := h
  -- The script is taken up to the panic by whoever collects all responses.
  · obtain ⟨log, hcollect⟩ := opening.isPointwiseImage.breakdown .empty hevents hanswers rfl
    have hrun : (subscribe schema document params).IsRun .empty []
      (collect everything (subscribe schema document params) .empty) := isRun_collectFrom everything
    obtain ⟨hubs, -, haborted, hhubs⟩ := hrun
    exact ⟨hubs, hhubs PubSub.empty_consistent, haborted _ (by rw [hcollect])⟩
  -- The payload is published after the first visit, and the second visit asks the filter about it.
  · obtain ⟨trigger, htrigger⟩ := List.exists_mem_of_ne_nil _ hsome
    obtain ⟨hhub, hpanics⟩ := opening.panics_on_published PubSub.empty_consistent htrigger hkeep
    refine ⟨[.empty, _], ?_, _, List.mem_cons_of_mem _ (List.mem_singleton_self _), hpanics⟩
    exact List.forall_mem_cons.mpr ⟨PubSub.empty_consistent, List.forall_mem_singleton.mpr hhub⟩

/-- **Panics come from variables with too many lists, from subscribers and from event sources with their
filters, and from nothing else**, whatever resolvers and interceptors do, at the call or later. -/
theorem panic_iff_overflow_subscriber_or_source {builder : SchemaBuilder}
    (hfinish : builder.finish = .ok schema) (hcallbacks : schema.CallbacksReturn params.typeResolver)
    (hcatch : schema.config.catchResolverPanics = true) (message : String) :
    ((execute schema document params).outcome = .error (.panicked message) ↔
      message = Wrapping.overflowMessage ∧ TypeOverflow schema document params) ∧
    ((∃ hubs, (∀ hub ∈ hubs, hub.Consistent) ∧
        ∃ visit ∈ (subscribe schema document params).visits hubs,
          visit.found = .error (.panicked message)) ↔
      (message = Wrapping.overflowMessage ∧ TypeOverflow schema document params) ∨
        SubscriberPanics schema document params message ∨
          SourcePanics schema document params message) := by
  refine ⟨execute_panicked_iff hfinish hcallbacks hcatch, ?_, fun h => ?_⟩
  · rintro ⟨hubs, hhubs, visit, hmem, hpanics⟩
    exact of_visits_panicked hfinish hcallbacks hcatch hhubs hmem hpanics
  · rcases h with hoverflow | hsubscriber | hsource
    · exact ⟨[.empty], List.forall_mem_singleton.mpr PubSub.empty_consistent, _,
        List.mem_singleton_self _, first_visit_panics (.inl hoverflow) .empty⟩
    · exact ⟨[.empty], List.forall_mem_singleton.mpr PubSub.empty_consistent, _,
        List.mem_singleton_self _, first_visit_panics (.inr hsubscriber) .empty⟩
    · exact exists_visit_of_sourcePanics hsource

namespace TickSample

/-- A subscriber that panics. -/
def failing : Subscriber := fun _ => .panicked [] "no clock"

theorem parse_ticks : Document.parse "subscription { ticks }" = .ok ticks :=
  Document.parse_eq_of_outline? ⟨.subscription, [], ("ticks", 16), []⟩ (by decide +kernel)

/-- A query that declares a variable of numbers in twelve lists. -/
def deep : Document :=
  TickSample.document .query
    [⟨"x", Nat.repeat (.list · false) 12 (.named "Int" false), [], none, ⟨1, 7⟩⟩] "now" 42

theorem parse_deep : Document.parse "query($x: [[[[[[[[[[[[Int]]]]]]]]]]]]) { now }" = .ok deep :=
  Document.parse_eq_of_outline?
    ⟨.query, [(("x", 7), Nat.repeat (.list · false) 12 (.named "Int" false))], ("now", 42), []⟩
    (by decide +kernel)

/-- No object type of the schema has a predicate, and no type is abstract. So there are no callbacks
of types at all, and the standard type resolver asks none. -/
theorem callbacksReturn (subscriber : Subscriber) :
    (TickSample.schema subscriber).CallbacksReturn .standard := by
  -- The types are the built-in scalars and the two root types.
  have hpredicates : ∀ name object isTypeOf,
      (TickSample.schema subscriber).types.object? name = some object →
      object.isTypeOf = some isTypeOf → ∀ value, (isTypeOf value).Returns := by
    intro name object isTypeOf hobject hpredicate
    obtain ⟨definition, hdefinition, hsame⟩ := Option.bind_eq_some_iff.mp hobject
    have hmem : definition ∈ Entries.values (TickSample.schema subscriber).types.types :=
      List.mem_map_of_mem (Entries.get?_mem hdefinition)
    have hvalues : Entries.values (TickSample.schema subscriber).types.types =
      ScalarType.builtins.map .scalar ++ [.object query, .object subscription] := rfl
    rw [hvalues] at hmem
    rcases List.mem_append.mp hmem with hscalar | hroot
    · obtain ⟨scalar, -, rfl⟩ := List.mem_map.mp hscalar
      exact nomatch hsame
    · simp only [List.mem_cons, List.not_mem_nil, or_false] at hroot
      rcases hroot with rfl | rfl <;> obtain rfl := Option.some.inj hsame <;> exact nomatch hpredicate
  refine ⟨hpredicates, fun name resolveType h => ?_, fun name value info hinfo =>
    TypeResolver.standard_returns hpredicates hinfo name value⟩
  -- No type is resolved, so that no hook can be one that panics.
  rw [Schema.typeHooks] at h
  cases hhooks : Entries.get? (TickSample.schema subscriber).hooks name with
  | none => rw [hhooks] at h; exact nomatch h
  | some hooks =>
    rw [hhooks] at h
    have hmem : hooks.resolveType ∈
        ((Entries.values (TickSample.schema subscriber).hooks).map TypeHooks.resolveType) :=
      List.mem_map_of_mem (List.mem_map_of_mem (Entries.get?_mem hhooks))
    have hnone : (Entries.values (TickSample.schema subscriber).hooks).map TypeHooks.resolveType =
      List.replicate 7 none := rfl
    rw [hnone] at hmem
    exact nomatch (List.eq_of_mem_replicate hmem).symm.trans h

/-- A subscriber whose source panics in the first visit. -/
def stopped : Subscriber := fun _ => .returned [] (.ok (.feed [.panic "clock stopped"] []))

/-- A subscriber of ticks behind a filter that panics on the first one. -/
def unfiltered : Subscriber :=
  Subscriber.withFilter (fun _ _ => .panicked [] "no parity") fun _ => .returned [] (.ok feed)

end TickSample

/-- A subscriber, a source or a filter of ticks panics, so a visit does. -/
theorem panic_iff_overflow_subscriber_or_source_sample :
    (∀ subscriber, (TickSample.builder subscriber).finish = .ok (TickSample.schema subscriber) ∧
      (TickSample.schema subscriber).CallbacksReturn .standard) ∧
    SubscriberPanics (TickSample.schema TickSample.failing) TickSample.ticks {} "no clock" ∧
    (∃ hubs, (∀ hub ∈ hubs, hub.Consistent) ∧
      ∃ visit ∈ (subscribe (TickSample.schema TickSample.failing) TickSample.ticks {}).visits hubs,
        visit.found = .error (.panicked "no clock")) ∧
    SourcePanics (TickSample.schema TickSample.unfiltered) TickSample.ticks {} "no parity" ∧
    ∃ hubs, (∀ hub ∈ hubs, hub.Consistent) ∧
      ∃ visit ∈ (subscribe (TickSample.schema TickSample.unfiltered) TickSample.ticks {}).visits hubs,
        visit.found = .error (.panicked "no parity") := by
  -- The subscriber panics when it is called.
  have hsubscriber : SubscriberPanics (TickSample.schema TickSample.failing) TickSample.ticks {}
      "no clock" := ⟨_, TickSample.field TickSample.failing, [], rfl, rfl, rfl⟩
  -- The script of the source panics before it has given any event.
  have hsource : SourcePanics (TickSample.schema TickSample.unfiltered) TickSample.ticks {}
      "no parity" :=
    ⟨TickSample.opening TickSample.unfiltered _ fun _ => rfl, .inl ⟨[], _, [], rfl, .nil⟩⟩
  have hcallbacks := TickSample.callbacksReturn
  exact ⟨fun subscriber => ⟨TickSample.finish_eq subscriber, hcallbacks subscriber⟩,
    hsubscriber, (panic_iff_overflow_subscriber_or_source (TickSample.finish_eq TickSample.failing)
      (hcallbacks TickSample.failing) rfl "no clock").2.mpr (.inr (.inl hsubscriber)),
    hsource, (panic_iff_overflow_subscriber_or_source (TickSample.finish_eq TickSample.unfiltered)
      (hcallbacks TickSample.unfiltered) rfl "no parity").2.mpr (.inr (.inr hsource))⟩

/-- **Panics reach the caller**, of `execute` with a variable in twelve lists and of a subscription
with such a subscriber, source or filter, although panics are caught and every other callback returns. -/
theorem panics_reach_the_caller :
    (∀ subscriber, (TickSample.builder subscriber).finish = .ok (TickSample.schema subscriber) ∧
      (TickSample.schema subscriber).config.catchResolverPanics = true ∧
      (TickSample.schema subscriber).CallbacksReturn .standard) ∧
    Document.parse "query($x: [[[[[[[[[[[[Int]]]]]]]]]]]]) { now }" = .ok TickSample.deep ∧
    (execute (TickSample.schema TickSample.failing) TickSample.deep {}).outcome =
      .error (.panicked Wrapping.overflowMessage) ∧
    Document.parse "subscription { ticks }" = .ok TickSample.ticks ∧
    ((subscribe (TickSample.schema TickSample.failing) TickSample.ticks {}).poll .empty).found =
      .error (.panicked "no clock") ∧
    ((subscribe (TickSample.schema TickSample.stopped) TickSample.ticks {}).poll .empty).found =
      .error (.panicked "clock stopped") ∧
    ((subscribe (TickSample.schema TickSample.unfiltered) TickSample.ticks {}).poll .empty).found =
      .error (.panicked "no parity") :=
  ⟨fun subscriber => ⟨TickSample.finish_eq subscriber, rfl, TickSample.callbacksReturn subscriber⟩,
    TickSample.parse_deep, rfl, TickSample.parse_ticks, rfl, rfl, rfl⟩

end GraphQL
