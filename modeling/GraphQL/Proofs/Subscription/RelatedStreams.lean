import GraphQL.Proofs.Execution.RelatedExecutions
import GraphQL.Proofs.Subscription.RequestErrors

/-!
# Streams of responses whose callbacks differ in their errors

The response streams of two schemas with related callbacks are visited side by side, for the same states
of the publications. The relation of the streams is an invariant of their visits: each visit finds related
responses, and leaves related streams and the same publications.

Streams are not finite objects, so that they cannot be compared by recursion. What is shown instead
is that one visit keeps the relation, for each state that a stream may be in; runs and collections
follow by induction on the states of the publications, or on the distance to the end.

* `Response.Related` — responses with equal data and related errors;
* `ExecutionContext.Related.respond`, `ExecutionContext.Related.eventSource` — what a stream asks for;
* `EventStream.Related.poll` — a visit of the event source;
* `ResponseStream.Related.poll` — a visit of the stream of responses;
* `ResponseStream.Related.visits`, `ResponseStream.Related.collectFrom` — hence runs of both streams.
-/

namespace GraphQL

variable {C : ResolverError → ResolverError → Prop} {expose : Bool}

/-! ### Responses -/

/-- Two responses are the same, or made of equal data and related errors. -/
inductive Response.Related (C : ResolverError → ResolverError → Prop) (expose : Bool) :
    Response → Response → Prop
  | same (response : Response) : Related C expose response response
  | made (data : Value) {errors errors' : List GraphQLError}
      (h : List.Forall₂ (GraphQLError.Reported C) errors errors') :
      Related C expose ((mk data errors).withExposedCauses expose)
        ((mk data errors').withExposedCauses expose)

/-- What a callback returns never keeps a request from being executed. -/
theorem GraphQLError.Reported.isRequestFatal_eq {error error' : GraphQLError} (h : Reported C error error') :
    error.isRequestFatal = error'.isRequestFatal := by
  cases h with
  | same => rfl
  | callback => rfl

theorem Response.isRequestError_withExposedCauses (response : Response) (expose : Bool) :
    (response.withExposedCauses expose).isRequestError = response.isRequestError := by
  unfold withExposedCauses isRequestError
  split
  · rw [List.any_map]
    exact congrArg _ (funext GraphQLError.isRequestFatal_exposeCause)
  · rfl

/-- Either both requests were executed or none. -/
theorem Response.Related.isRequestError_eq {response response' : Response}
    (h : Response.Related C expose response response') :
    response.isRequestError = response'.isRequestError := by
  cases h with
  | same => rfl
  | made data h =>
    rw [isRequestError_withExposedCauses, isRequestError_withExposedCauses]
    induction h with
    | nil => rfl
    | cons hfirst _ ih => exact congrArg₂ (· || ·) hfirst.isRequestFatal_eq ih

namespace ExecutionContext.Related

variable {ctx ctx' : ExecutionContext} (h : ctx.Related C ctx')
include h

/-- Operations have related responses. -/
theorem respond (hpanic : C .panicked .panicked) :
    Coroutine.Lockstep (Event.Related (GraphQLError.Reported C))
      (Response.Related C ctx.schema.config.exposeErrorCauses) ctx.respond ctx'.respond := by
  rw [ExecutionContext.respond, ExecutionContext.respond, ← h.config]
  exact respondWith_related _ .same (fun data _ _ herrors => .made data herrors) .nil
    (h.executeOperation hpanic)

theorem errorResponse {error error' : GraphQLError} (herror : GraphQLError.Reported C error error') :
    Response.Related C ctx.schema.config.exposeErrorCauses (ctx.errorResponse error)
      (ctx'.errorResponse error') := by
  rw [ExecutionContext.errorResponse, ExecutionContext.errorResponse, ← h.config]
  exact .made .null (.cons herror .nil)

/-- What is found for a subscription: the same place and related sources, or related errors. -/
abbrev SourcesRelated (C : ResolverError → ResolverError → Prop) :
    Call (Except GraphQLError (QueryPath × EventSource)) →
      Call (Except GraphQLError (QueryPath × EventSource)) → Prop :=
  Call.Related (ExceptRel (GraphQLError.Reported C)
    (Coroutine.Lockstep.Both Eq (EventSource.Related C)))

/-- Related subscribers are called with the same arguments. These are coerced from the document and
the types, which both sides share; only what the subscribers return may differ, in what their errors
say. -/
theorem callSubscriber (root : ObjectType) (key : String) (node : Field) (nodes : List Field) :
    ExceptRel Eq (SourcesRelated C) (ctx.callSubscriber root key node nodes)
      (ctx'.callSubscriber root key node nodes) := by
  unfold ExecutionContext.callSubscriber
  cases root.field? node.name with
  | none => exact .ok (.returned [] (.error (.same _)))
  | some definition =>
    -- The two schemas name related subscribers, or neither names one.
    have hsubscriber := h.schema.subscriber root.name node.name
    revert hsubscriber
    generalize (ctx.schema.fieldHooks root.name node.name).subscriber = subscriber
    generalize (ctx'.schema.fieldHooks root.name node.name).subscriber = subscriber'
    intro hsubscriber
    cases hsubscriber with
    | none => exact .ok (.returned [] (.error (.same _)))
    | some hrelated =>
      -- The arguments are the same on both sides, as the types and the variables are.
      simp only [← h.types, ← h.vars, ← h.rootValue, ← h.context, ← h.resolveInfo_eq]
      cases Coercion.coerceArguments ctx.schema.types definition node ctx.vars with
      | error failure =>
        cases failure with
        | endless => exact .error rfl
        | invalid error => exact .ok (.returned [] (.error (.same _)))
      | ok arguments =>
        refine .ok ((hrelated _).bind fun result result' hresult => ?_)
        -- What the subscribers return differs only in what their errors say.
        cases hresult with
        | error herror => exact .returned [] (.error (.callback herror _ _))
        | ok hsource => exact .returned [] (.ok ⟨rfl, hsource⟩)

/-- Subscriptions are asked for related sources. -/
theorem eventSource : ExceptRel Eq (SourcesRelated C) ctx.eventSource ctx'.eventSource := by
  unfold ExecutionContext.eventSource
  rw [← h.rootType?_eq]
  cases ctx.rootType? with
  | none => exact .error rfl
  | some root =>
    simp only [← h.collectFields_eq, ← h.operation]
    split
    · exact .ok (.returned [] (.error (.same _)))
    · exact .error rfl
    · exact h.callSubscriber root _ _ _

end ExecutionContext.Related

/-- **Requests with related callbacks are executed alike**, or refused with the same errors. -/
theorem execute_related (hpanic : C .panicked .panicked) {schema schema' : Schema}
    (hschema : schema.Related C schema') {params params' : ExecutionParams}
    (hparams : params.Related C params') (document : Document) :
    Coroutine.Lockstep (Event.Related (GraphQLError.Reported C))
      (Response.Related C schema.config.exposeErrorCauses) (execute schema document params)
      (execute schema' document params') := by
  rw [execute, execute]
  obtain ⟨why, hbuild, hbuild'⟩ | ⟨errors, hbuild, hbuild'⟩ | ⟨ctx, ctx', hbuild, hbuild', rfl, hctx⟩ :=
    ExecutionContext.build_related hschema hparams document
  · rw [hbuild, hbuild']
    exact .abort .nil why
  · rw [hbuild, hbuild']
    exact .pure (.same _)
  · rw [hbuild, hbuild']
    exact hctx.respond hpanic

/-! ### Event sources -/

/-- Two visits find related items, or both of them find none. -/
inductive Poll.Related {α β : Type} (R : α → β → Prop) : Poll α → Poll β → Prop
  | ready {item : α} {item' : β} (h : R item item') : Related R (.ready item) (.ready item')
  | pending : Related R .pending .pending
  | ended : Related R .ended .ended

/-- A weaker relation of items. -/
theorem Poll.Related.imp {α β : Type} {R S : α → β → Prop}
    (hrelated : ∀ item item', R item item' → S item item')
    {found : Poll α} {found' : Poll β} (h : found.Related R found') : found.Related S found' := by
  cases h with
  | ready h => exact .ready (hrelated _ _ h)
  | pending => exact .pending
  | ended => exact .ended

/-- Two open sources whose scripts are related, or the same subscription. -/
inductive EventOrigin.Related (C : ResolverError → ResolverError → Prop) :
    EventOrigin → EventOrigin → Prop
  | feed {steps steps' : List FeedStep} (h : List.Forall₂ (FeedStep.Related C) steps steps')
      (farewell : List String) : Related C (.feed steps farewell) (.feed steps' farewell)
  | subscription (id : Nat) : Related C (.subscription id) (.subscription id)

/-- Two open sources with the same filter. -/
structure EventStream.Related (C : ResolverError → ResolverError → Prop) (stream stream' : EventStream) :
    Prop where
  origin : stream.origin.Related C stream'.origin
  keep : stream.keep = stream'.keep

/-- Two visits of sources find related events and leave the same publications. -/
structure EventVisit.Related (C : ResolverError → ResolverError → Prop) (visit visit' : EventVisit) :
    Prop where
  found : visit.found.Related (ResolverResult.Related C) visit'.found
  stream : visit.stream.Related C visit'.stream
  hub : visit.hub = visit'.hub

namespace EventStream

/-- Related sources are opened to related streams, and change the publications in the same way. -/
theorem ofSource_related (hub : PubSub) {source source' : EventSource}
    (h : EventSource.Related C source source') :
    (ofSource hub source).1.Related C (ofSource hub source').1 ∧
      (ofSource hub source).2 = (ofSource hub source').2 := by
  induction h with
  | feed hsteps farewell => exact ⟨⟨.feed hsteps farewell, rfl⟩, rfl⟩
  | topics triggers => exact ⟨⟨.subscription _, rfl⟩, rfl⟩
  | filtered keep _ ih =>
    obtain ⟨⟨horigin, hkeep⟩, hhub⟩ := ih
    refine ⟨⟨horigin, ?_⟩, hhub⟩
    rw [ofSource, ofSource]
    simp only [hkeep]

/-- Related scripts are followed in the same way. Errors pass all filters, whatever they are, and payloads
are the same, so that the filters are asked about the same. -/
theorem followScript_related (keep : EventFilter) {steps steps' : List FeedStep}
    (h : List.Forall₂ (FeedStep.Related C) steps steps') :
    Call.Related (Coroutine.Lockstep.Both (Poll.Related (ResolverResult.Related C))
      (List.Forall₂ (FeedStep.Related C))) (followScript keep steps) (followScript keep steps') := by
  induction h with
  | nil => exact .returned [] ⟨.ended, .nil⟩
  | cons hfirst hrest ih =>
    cases hfirst with
    | wait => exact .returned [] ⟨.pending, hrest⟩
    | say text => exact ih.prepend [text]
    | panic message => exact .panicked [] message
    | @event result result' hresult =>
      -- A filter is asked about payloads only, and these are the same.
      have hpasses : result.passes keep = result'.passes keep := by
        cases hresult with
        | error _ => rfl
        | ok hvalue => rw [hvalue]
      rw [followScript, followScript, ← hpasses]
      -- It answers the same on both sides. What it drops is passed over on both sides.
      refine (Call.related_self _).bind ?_
      rintro passes _ rfl
      split
      · exact .returned [] ⟨.ready hresult, hrest⟩
      · exact ih

namespace Related

variable {stream stream' : EventStream} (h : EventStream.Related C stream stream') (hub : PubSub)
include h

/-- **Related sources are visited alike.** -/
theorem poll : Call.Related (EventVisit.Related C) (stream.poll hub) (stream'.poll hub) := by
  obtain ⟨origin, keep⟩ := stream
  -- Related streams have one filter and either related scripts or one subscription of the hub.
  obtain ⟨origin', _⟩ := stream'
  obtain ⟨horigin, rfl⟩ := h
  cases horigin with
  | feed hsteps farewell =>
    refine (followScript_related keep hsteps).bind ?_
    rintro ⟨found, left⟩ ⟨found', left'⟩ ⟨hfound, hleft⟩
    exact .returned [] ⟨hfound, ⟨.feed hleft farewell, rfl⟩, rfl⟩
  | subscription id =>
    have hsame : EventStream.Related C ⟨.subscription id, keep⟩ ⟨.subscription id, keep⟩ :=
      ⟨.subscription id, rfl⟩
    -- The hub is shared, so that the same payloads are taken from it.
    refine (Call.related_self (takePayloads keep (hub.queue id))).bind ?_
    rintro ⟨taken, left⟩ _ rfl
    cases taken with
    | some payload => exact .returned [] ⟨.ready (.ok rfl), hsame, rfl⟩
    -- Nothing is queued: whether more can come depends on the hub alone.
    | none =>
      refine .returned [] ⟨?_, hsame, rfl⟩
      dsimp only [PubSub.idle]
      cases hub.isListening id with
      | true => exact .pending
      | false => exact .ended

theorem close_eq : stream.close hub = stream'.close hub := by
  obtain ⟨origin, keep⟩ := stream
  obtain ⟨origin', keep'⟩ := stream'
  cases h.origin <;> rfl

theorem size_eq : stream.size hub = stream'.size hub := by
  obtain ⟨origin, keep⟩ := stream
  obtain ⟨origin', keep'⟩ := stream'
  cases h.origin with
  | feed hsteps _ => exact hsteps.length_eq
  | subscription _ => rfl

end Related

end EventStream

/-! ### Streams of responses -/

/-- Two responses in the making that take the same visits and are related. -/
abbrev AnswersRelated (C : ResolverError → ResolverError → Prop) (expose : Bool) :
    Run Response → Run Response → Prop :=
  Coroutine.Lockstep (Event.Related (GraphQLError.Reported C)) (Response.Related C expose)

/-- Two subscriptions with related callbacks and sources, to the same field. -/
structure Subscription.Related (C : ResolverError → ResolverError → Prop) (expose : Bool)
    (subscription subscription' : Subscription) : Prop where
  ctx : subscription.ctx.Related C subscription'.ctx
  path : subscription.path = subscription'.path
  events : subscription.events.Related C subscription'.events
  exposes : subscription.ctx.schema.config.exposeErrorCauses = expose

/-- Two streams in the same state, whose parts are related. -/
inductive ResponseStream.Related (C : ResolverError → ResolverError → Prop) (expose : Bool) :
    ResponseStream → ResponseStream → Prop
  | unstarted {schema schema' : Schema} (hschema : schema.Related C schema')
      (hexpose : schema.config.exposeErrorCauses = expose) (document : Document)
      {params params' : ExecutionParams} (hparams : params.Related C params') :
      Related C expose (.unstarted schema document params) (.unstarted schema' document params')
  | answering {run run' : Run Response} (h : AnswersRelated C expose run run') :
      Related C expose (.answering run) (.answering run')
  | listening {subscription subscription' : Subscription}
      (h : subscription.Related C expose subscription') :
      Related C expose (.listening subscription) (.listening subscription')
  | responding {subscription subscription' : Subscription}
      (h : subscription.Related C expose subscription') {run run' : Run Response}
      (hrun : AnswersRelated C expose run run') :
      Related C expose (.responding subscription run) (.responding subscription' run')
  | ended : Related C expose .ended .ended

/-- Two visits that find related responses and leave related streams and the same publications. -/
structure Visit.Related (C : ResolverError → ResolverError → Prop) (expose : Bool) (visit visit' : Visit) :
    Prop where
  log : List.Forall₂ (Event.Related (GraphQLError.Reported C)) visit.log visit'.log
  found : Coroutine.SameOutcome (Poll.Related (Response.Related C expose)) visit.found visit'.found
  stream : visit.stream.Related C expose visit'.stream
  hub : visit.hub = visit'.hub

/-- The same events are logged. -/
theorem Event.related_self {E : GraphQLError → GraphQLError → Prop} (log : List Event) :
    List.Forall₂ (Event.Related E) log log :=
  List.forall₂_same.mpr fun event _ => .same event

theorem Visit.Related.prepend {visit visit' : Visit} (h : visit.Related C expose visit')
    (texts : List String) : (visit.prepend texts).Related C expose (visit'.prepend texts) :=
  ⟨List.rel_append (Event.related_self _) h.log, h.found, h.stream, h.hub⟩

/-- The responses that the visits find, if they find any. -/
theorem Visit.Related.response? {visit visit' : Visit} (h : visit.Related C expose visit') :
    List.Forall₂ (Response.Related C expose) visit.response?.toList visit'.response?.toList := by
  obtain ⟨log, found, stream, hub⟩ := visit
  obtain ⟨log', found', stream', hub'⟩ := visit'
  cases h.found with
  | breakdown why => exact .nil
  | result hfound =>
    cases hfound with
    | ready hresponse => exact .cons hresponse .nil
    | pending => exact .nil
    | ended => exact .nil

namespace Subscription.Related

variable {subscription subscription' : Subscription} (h : subscription.Related C expose subscription')
  (hub : PubSub)
include h

/-- The responses to an event go on. A breakdown closes the sources alike. -/
theorem proceed {run run' : Run Response} (hrun : AnswersRelated C expose run run') :
    (subscription.proceed hub run).Related C expose (subscription'.proceed hub run') := by
  cases hrun with
  | finish hlog hresponse => exact ⟨hlog, .result (.ready hresponse), .listening h, rfl⟩
  | suspend hlog hrest => exact ⟨hlog, .result .pending, .responding h hrest, rfl⟩
  | abort hlog why =>
    simp only [Subscription.proceed, h.events.close_eq hub]
    exact ⟨List.rel_append hlog (Event.related_self _), .breakdown why, .ended, rfl⟩

/-- An event is answered by related responses, whether it is a payload or an error. A payload is
executed in contexts that are related as before, and an error is reported in both; at the end of the
source both are closed in the same hub. -/
theorem reply (hpanic : C .panicked .panicked) {found found' : Poll ResolverResult}
    (hfound : found.Related (ResolverResult.Related C) found') :
    (subscription.reply hub found).Related C expose (subscription'.reply hub found') := by
  cases hfound with
  | ready hresult =>
    cases hresult with
    -- The same payload, executed in related contexts.
    | @ok payload _ hpayload =>
      obtain rfl := hpayload
      have hrun := (h.ctx.forEvent payload).respond hpanic
      have hexpose : (subscription.ctx.forEvent payload).schema.config.exposeErrorCauses = expose :=
        h.exposes
      rw [hexpose] at hrun
      exact h.proceed hub hrun
    | @error error error' herror =>
      -- An error of the source becomes a response that is executed no further.
      have hreported : GraphQLError.Reported C
          (error.toGraphQLError.withPath subscription.path.toErrorPath)
          (error'.toGraphQLError.withPath subscription'.path.toErrorPath) := by
        rw [← h.path]
        exact .callback herror [] _
      have hresponse := h.ctx.errorResponse hreported
      rw [h.exposes] at hresponse
      exact ⟨.nil, .result (.ready hresponse), .listening h, rfl⟩
  | pending => exact ⟨.nil, .result .pending, .listening h, rfl⟩
  | ended =>
    -- Both sources are closed, in the same hub.
    rw [Subscription.reply, Subscription.reply, h.events.close_eq hub]
    exact ⟨Event.related_self _, .result .ended, .ended, rfl⟩

end Subscription.Related

namespace ResponseStream

/-- The only response goes on. -/
theorem proceed_related (hub : PubSub) {run run' : Run Response} (hrun : AnswersRelated C expose run run') :
    (proceed hub run).Related C expose (proceed hub run') := by
  cases hrun with
  | finish hlog hresponse => exact ⟨hlog, .result (.ready hresponse), .ended, rfl⟩
  | suspend hlog hrest => exact ⟨hlog, .result .pending, .answering hrest, rfl⟩
  | abort hlog why => exact ⟨hlog, .breakdown why, .ended, rfl⟩

/-- A stream that waits for an event visits its source, and replies to what is there. -/
theorem poll_listening_related (hpanic : C .panicked .panicked) {subscription subscription' : Subscription}
    (h : subscription.Related C expose subscription') (hub : PubSub) :
    ((listening subscription).poll hub).Related C expose ((listening subscription').poll hub) := by
  obtain ⟨ctx, path, events⟩ := subscription
  obtain ⟨ctx', path', events'⟩ := subscription'
  have hcalls := h.events.poll hub
  rw [poll, poll, Subscription.poll, Subscription.poll]
  -- Only the visits of the two sources matter, and they are related.
  dsimp only
  revert hcalls
  generalize events.poll hub = call
  generalize events'.poll hub = call'
  intro hcalls
  cases hcalls with
  | panicked log message =>
    exact h.proceed hub (.abort (Event.related_self _) (.panicked message))
  | @returned log visit visit' hvisit =>
    -- What is left of the subscriptions is related as they were.
    have hafter : Subscription.Related C expose ⟨ctx, path, visit.stream⟩ ⟨ctx', path', visit'.stream⟩ :=
      { h with events := hvisit.stream }
    simp only [← hvisit.hub]
    exact (hafter.reply _ hpanic hvisit.found).prepend log

/-- The source of a subscription is opened. Only what the subscribers return matters, and it is
related: both break down, both answer an error, or both open a source and visit it for the first
time. -/
theorem startSubscription_related (hpanic : C .panicked .panicked) {ctx ctx' : ExecutionContext}
    (h : ctx.Related C ctx') (hexpose : ctx.schema.config.exposeErrorCauses = expose) (hub : PubSub) :
    (startSubscription ctx hub).Related C expose (startSubscription ctx' hub) := by
  have hsource := h.eventSource
  rw [startSubscription, startSubscription]
  revert hsource
  generalize ctx.eventSource = source
  generalize ctx'.eventSource = source'
  -- Only what the subscribers return matters, and it is related.
  intro hsource
  cases hsource with
  | @error why _ hwhy =>
    obtain rfl := hwhy
    exact proceed_related hub (.abort .nil why)
  | ok hcall =>
    cases hcall with
    | panicked log message => exact proceed_related hub (.abort (Event.related_self _) (.panicked message))
    | returned log hfound =>
      cases hfound with
      | error herror =>
        have hresponse := h.errorResponse herror
        rw [hexpose] at hresponse
        exact proceed_related hub (.finish (Event.related_self _) hresponse)
      | @ok found found' hfound =>
        obtain ⟨path, source⟩ := found
        obtain ⟨_, source'⟩ := found'
        -- The source of the one subscription is opened as that of the other is.
        obtain ⟨rfl, hsource⟩ := hfound
        have hopened := EventStream.ofSource_related hub hsource
        simp only
        revert hopened
        generalize EventStream.ofSource hub source = opened
        generalize EventStream.ofSource hub source' = opened'
        obtain ⟨events, opened⟩ := opened
        obtain ⟨events', _⟩ := opened'
        rintro ⟨hevents, rfl⟩
        -- Both subscriptions then visit their sources, which are related.
        have hsubscribed : Subscription.Related C expose ⟨ctx, path, events⟩ ⟨ctx', path, events'⟩ :=
          ⟨h, rfl, hevents, hexpose⟩
        exact (poll_listening_related hpanic hsubscribed opened).prepend log

/-- The first visit of a stream, after which it is started. -/
theorem start_related (hpanic : C .panicked .panicked) {schema schema' : Schema}
    (hschema : schema.Related C schema') {params params' : ExecutionParams}
    (hparams : params.Related C params') (document : Document) (hub : PubSub) :
    (start schema document params hub).Related C schema.config.exposeErrorCauses
      (start schema' document params' hub) := by
  rw [start, start]
  -- The two requests are refused alike, or give related contexts.
  obtain ⟨why, hbuild, hbuild'⟩ | ⟨errors, hbuild, hbuild'⟩ | ⟨ctx, ctx', hbuild, hbuild', rfl, hctx⟩ :=
    ExecutionContext.build_related hschema hparams document
  · rw [hbuild, hbuild']
    exact proceed_related hub (.abort .nil why)
  · rw [hbuild, hbuild']
    exact proceed_related hub (.pure (.same _))
  · rw [hbuild, hbuild']
    -- One of them is a subscription exactly if the other is.
    simp only [← hctx.operation]
    split
    · exact startSubscription_related hpanic hctx rfl hub
    · exact proceed_related hub (hctx.respond hpanic)

/-- **Related streams are visited alike**, and stay related. -/
theorem Related.poll (hpanic : C .panicked .panicked) {stream stream' : ResponseStream}
    (h : stream.Related C expose stream') (hub : PubSub) :
    (stream.poll hub).Related C expose (stream'.poll hub) := by
  cases h with
  | unstarted hschema hexpose document hparams =>
    obtain rfl := hexpose
    exact start_related hpanic hschema hparams document hub
  | answering hrun => exact proceed_related hub hrun
  | listening h => exact poll_listening_related hpanic h hub
  | responding h hrun => exact h.proceed hub hrun
  | ended => exact ⟨.nil, .result .ended, .ended, rfl⟩

/-- **Runs of related streams** find related responses and leave the same publications. The induction is
on the visits. -/
theorem Related.visits (hpanic : C .panicked .panicked) {stream stream' : ResponseStream}
    (h : stream.Related C expose stream') (hubs : List PubSub) :
    List.Forall₂ (Visit.Related C expose) (stream.visits hubs) (stream'.visits hubs) := by
  induction hubs generalizing stream stream' with
  | nil => exact .nil
  | cons hub hubs ih =>
    have hvisit := h.poll hpanic hub
    exact .cons hvisit (ih hvisit.stream)

/-! ### Transcripts -/

/-- Related streams have the same events ahead. -/
theorem Related.distance_eq {stream stream' : ResponseStream} (h : stream.Related C expose stream')
    (hub : PubSub) : stream.distance hub = stream'.distance hub := by
  cases h with
  | unstarted => rfl
  | answering hrun => simp [distance, isUnstarted, events?, visitsLeft, hrun.polls_eq]
  | listening h => simp [distance, isUnstarted, events?, visitsLeft, h.events.size_eq hub]
  | responding h hrun =>
    simp [distance, isUnstarted, events?, visitsLeft, h.events.size_eq hub, hrun.polls_eq]
  | ended => rfl

theorem Related.close_eq {stream stream' : ResponseStream} (h : stream.Related C expose stream')
    (hub : PubSub) : stream.close hub = stream'.close hub := by
  cases h with
  | unstarted | answering | ended => rfl
  | listening h | responding h _ => exact h.events.close_eq hub

end ResponseStream

/-- Two transcripts with related responses that end alike, with the same publications. -/
structure ResponseStream.Transcript.Related (C : ResolverError → ResolverError → Prop) (expose : Bool)
    (transcript transcript' : ResponseStream.Transcript) : Prop where
  log : List.Forall₂ (Event.Related (GraphQLError.Reported C)) transcript.log transcript'.log
  responses : List.Forall₂ (Response.Related C expose) transcript.responses transcript'.responses
  ending : transcript.ending = transcript'.ending
  hub : transcript.hub = transcript'.hub

namespace ResponseStream

variable {wanted : List Response → Bool} {log log' : List Event} {collected collected' : List Response}
  {stream stream' : ResponseStream}

theorem Related.stop (h : stream.Related C expose stream')
    (hlog : List.Forall₂ (Event.Related (GraphQLError.Reported C)) log log')
    (hcollected : List.Forall₂ (Response.Related C expose) collected collected') (ending : Ending)
    (hub : PubSub) :
    (stop log collected ending stream hub).Related C expose (stop log' collected' ending stream' hub) := by
  rw [ResponseStream.stop, ResponseStream.stop, h.close_eq]
  exact ⟨List.rel_append hlog (Event.related_self _), hcollected, rfl, rfl⟩

/-- **Related streams are collected alike** by a client whose interest is the same in related
responses. The induction is on how far the first stream is from its end, and related streams come
closer in the same visits. -/
theorem Related.collectFrom (hpanic : C .panicked .panicked)
    (hwanted : ∀ responses responses', List.Forall₂ (Response.Related C expose) responses responses' →
      wanted responses = wanted responses')
    (h : stream.Related C expose stream')
    (hlog : List.Forall₂ (Event.Related (GraphQLError.Reported C)) log log')
    (hcollected : List.Forall₂ (Response.Related C expose) collected collected') (hub : PubSub) :
    (collectFrom wanted log collected stream hub).Related C expose
      (collectFrom wanted log' collected' stream' hub) := by
  induction hdistance : stream.distance hub using wellFounded_closer.induction
    generalizing log log' collected collected' stream stream' hub with
  | h distance ih =>
    -- Both clients want more, or neither does, as their responses are related.
    have hsame := hwanted _ _ hcollected
    by_cases hmore : wanted collected = true
    · have hvisit := h.poll hpanic hub
      have hlogged := List.rel_append hlog hvisit.log
      have hresponses := List.rel_append hcollected hvisit.response?
      have hfound := hvisit.found
      rw [collectFrom_of_wanted hmore, collectFrom_of_wanted (hsame ▸ hmore)]
      dsimp only
      -- Both streams have come the same way closer to their ends.
      rw [← hvisit.hub, ← h.distance_eq hub, ← hvisit.stream.distance_eq, hdistance]
      revert hfound
      -- The visits are related, so that they are over for the same reason.
      generalize (stream.poll hub).found = found
      generalize (stream'.poll hub).found = found'
      intro hfound
      cases hfound with
      | breakdown why => exact hvisit.stream.stop hlogged hresponses _ _
      | result hfound =>
        cases hfound with
        | ended => exact hvisit.stream.stop hlogged hresponses _ _
        | ready _ | pending =>
          dsimp only
          split
          -- Both go on with what they have got so far.
          next hcloser => exact ih _ hcloser hvisit.stream hlogged hresponses _ rfl
          next => exact hvisit.stream.stop hlogged hresponses _ _
    · rw [ResponseStream.collectFrom, ResponseStream.collectFrom, if_neg hmore, if_neg (hsame ▸ hmore)]
      exact h.stop hlog hcollected _ hub

end ResponseStream

end GraphQL
