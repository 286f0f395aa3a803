import GraphQL.Proofs.Subscription.PointwiseImage

/-!
# Subscriptions that break down

The visit that breaks down is one that waits for the reply to some event, and the event has none: so much
can be said of any subscription, whatever it is that cannot be replied to (`exists_breakdown`). The proof
follows the events through the visits. An event is taken when no other one waits for its reply, and it is
the only one that waits until its visit breaks down, so all events before it have been answered.

For panics of the source and its filters this is combined with where such an event can come from. A script
offers its panics in its own order (`taken_initial`), and publications are only panicked on by a filter
(`filter_panics_of_taken`), which is not asked before something has been published
(`Opening.taken_of_no_triggers`).
-/

namespace GraphQL

namespace ResponseStream

variable {ctx : ExecutionContext} {path : QueryPath} {stream : ResponseStream}
  {current : List Occurrence} {why : Abort} {message : String}

/-- **One visit** that breaks down does so with the one event that waits for its reply, and ends the
stream. This is the event that is executed, or the one that the visit takes; there never are two, as
the source is only visited when none is left. -/
theorem breakdown_of_poll (h : KeepsPace ctx path stream current) {hub : PubSub}
    (hwhy : (stream.poll hub).found = .error why) :
    ∃ event, current ++ (stream.taken? hub).toList = [event] ∧ ctx.answerTo path event = .error why ∧
      (stream.poll hub).stream = .ended := by
  -- An event that is executed gives its answer in the visit in which the run is over.
  have hproceed {events : EventStream} {hub : PubSub} {run : Run Response} {payload : FieldValue}
      (hrun : run.outcome = ctx.answerTo path (.event (.ok payload)))
      (hfound : (Subscription.proceed ⟨ctx, path, events⟩ hub run).found = .error why) :
      ctx.answerTo path (.event (.ok payload)) = .error why ∧
        (Subscription.proceed ⟨ctx, path, events⟩ hub run).stream = .ended := by
    cases run with
    | finish log response => cases hfound
    | suspend log rest => cases hfound
    | abort log why' => exact ⟨hrun.symm.trans (congrArg _ (Except.error.inj hfound)), rfl⟩
  cases h with
  | ended => cases hwhy
  | aborted h => cases hwhy
  | responding hrun => exact ⟨_, rfl, hproceed hrun hwhy⟩
  | listening events =>
    rw [taken?, EventStream.taken?]
    -- The source is visited: its filter may panic, and an event that it finds is executed in the
    -- same visit.
    cases hvisit : events.poll hub with
    | panicked log message =>
      rw [poll_listening_of_panicked hvisit] at hwhy ⊢
      exact ⟨.panic message, rfl, congrArg _ (Except.error.inj hwhy), rfl⟩
    | returned log visit =>
      rw [poll_listening_of_returned hvisit] at hwhy ⊢
      dsimp only
      revert hwhy
      cases visit.found with
      | pending => exact fun hwhy => by cases hwhy
      | ended => exact fun hwhy => by cases hwhy
      | ready event =>
        cases event with
        | error error => exact fun hwhy => by cases hwhy
        | ok payload => exact fun hwhy => ⟨_, rfl, hproceed rfl hwhy⟩

/-- **Any number of visits.** If one of them breaks down, what has been taken are events that have been
answered, and then one that has no answer. The induction is on the visits. -/
theorem exists_breakdown {hubs : List PubSub} {visit : Visit} (h : KeepsPace ctx path stream current)
    (hmem : visit ∈ stream.visits hubs) (hwhy : visit.found = .error why) :
    ∃ answered event responses, current ++ stream.taken hubs = answered ++ [event] ∧
      ctx.Answers path answered responses ∧ ctx.answerTo path event = .error why := by
  induction hubs generalizing stream current with
  | nil => exact absurd hmem List.not_mem_nil
  | cons hub hubs ih =>
    rcases List.mem_cons.mp hmem with rfl | hlater
    -- This visit breaks down, and nothing is taken after it.
    · obtain ⟨event, hevent, hanswer, hended⟩ := breakdown_of_poll h hwhy
      refine ⟨[], event, [], ?_, .nil, hanswer⟩
      rw [taken, hended, taken_ended, List.append_nil, hevent]
      rfl
    -- The events of this visit have been answered, and a later visit breaks down.
    · obtain ⟨first, left, hfirst, hanswers, hpace⟩ := keepsPace_poll h hub
      obtain ⟨answered, event, responses, htaken, hanswers', hanswer⟩ := ih hpace hlater
      refine ⟨first ++ answered, event, _, ?_, List.rel_append hanswers hanswers', hanswer⟩
      rw [taken, ← List.append_assoc, hfirst, List.append_assoc, htaken, List.append_assoc]

/-! ### Panics of filters -/

/-- A payload has turned into a panic where a filter has panicked on it. -/
theorem filter_panics_of_through {keep : EventFilter} {payload : FieldValue}
    (h : Occurrence.through keep (.event (.ok payload)) = some (.panic message)) :
    ∃ log, keep payload = .panicked log message := by
  have hpasses : ResolverResult.passes keep (.ok payload) = keep payload := rfl
  rw [Occurrence.through, hpasses] at h
  -- Only a filter that panics turns a payload into anything else.
  cases hkeep : keep payload with
  | panicked log message' =>
    rw [hkeep] at h
    obtain rfl := Occurrence.panic.inj (Option.some.inj h)
    exact ⟨log, rfl⟩
  | returned log passes =>
    rw [hkeep] at h
    cases passes with
    | true => cases Option.some.inj h
    | false => cases h

/-- **Of publications only a filter makes a panic.** The induction is on the visits. -/
theorem filter_panics_of_taken {id : Nat} {keep : EventFilter} {hubs : List PubSub}
    (hpace : KeepsPace ctx path stream current) (h : stream.TakesFrom (some id) keep)
    (hmem : .panic message ∈ stream.taken hubs) : ∃ payload log, keep payload = .panicked log message := by
  induction hubs generalizing stream current with
  | nil => exact absurd hmem List.not_mem_nil
  | cons hub hubs ih =>
    rcases List.mem_append.mp hmem with hfirst | hlater
    · -- What the visit takes has been offered by the subscription.
      obtain ⟨left, hoffers, -⟩ := exists_left hpace hub
      have hoffered : .panic message ∈ stream.offers hub :=
        hoffers ▸ List.mem_append_left left hfirst
      rw [offers] at hoffered
      cases hevents : stream.events? with
      | none =>
        rw [hevents] at hoffered
        exact absurd hoffered List.not_mem_nil
      | some events =>
        obtain ⟨hsubscription, rfl⟩ := h events hevents
        simp only [hevents, EventStream.offers, EventStream.origin_eq hsubscription] at hoffered
        -- An offer of a subscription is a payload that has gone through the filter.
        obtain ⟨event, hevent, hthrough⟩ := List.mem_filterMap.mp hoffered
        obtain ⟨payload, -, rfl⟩ := List.mem_map.mp hevent
        exact ⟨payload, filter_panics_of_through hthrough⟩
    -- A later visit takes from the same subscription, with the same filter.
    · obtain ⟨-, current', -, -, hpace'⟩ := keepsPace_poll hpace hub
      exact ih hpace' (TakesFrom.poll hpace h hub) hlater

end ResponseStream

/-! ### Publications -/

namespace Opening

open ResponseStream

variable {schema : Schema} {document : Document} {params : ExecutionParams}
  (opening : Opening schema document params)

/-- A subscription that is opened listens to its triggers, and nothing is queued for it. -/
theorem inbox?_nextId {hub : PubSub} (hhub : hub.Consistent) (triggers : List String) :
    (hub.subscribe triggers).2.inbox? hub.nextId = some ⟨triggers, []⟩ := by
  rw [PubSub.inbox?_subscribe hhub, if_pos rfl]

/-- The first visit of publications finds nothing yet. -/
theorem poll_ofSource {hub : PubSub} (hhub : hub.Consistent) (h : opening.source.script? = none) :
    (EventStream.ofSource hub opening.source).1.poll (EventStream.ofSource hub opening.source).2 =
      .returned [] ⟨(hub.subscribe opening.source.triggers).2.idle hub.nextId,
        ⟨.subscription hub.nextId, opening.source.keeps⟩,
        (hub.subscribe opening.source.triggers).2.leave hub.nextId []⟩ := by
  have hqueue : (hub.subscribe opening.source.triggers).2.queue hub.nextId = [] := by
    rw [PubSub.queue, inbox?_nextId hhub]
    rfl
  rw [EventStream.ofSource_of_no_script h, EventStream.poll_subscription, hqueue]
  rfl

/-- **Without triggers nothing is ever taken**: the first visit ends the stream. -/
theorem taken_of_no_triggers {hub : PubSub} (hhub : hub.Consistent) (h : opening.source.script? = none)
    (hnone : opening.source.triggers = []) (hubs : List PubSub) :
    (opening.stream hub).taken ((EventStream.ofSource hub opening.source).2 :: hubs) = [] := by
  have hvisit := opening.poll_ofSource hhub h
  -- The new subscription lists nothing, so that nothing can be published to it.
  have hlistening : (hub.subscribe opening.source.triggers).2.isListening hub.nextId = false := by
    refine Bool.eq_false_iff.mpr fun hlistens => ?_
    obtain ⟨inbox, hinbox, hsome⟩ := (hhub.subscribe _).isListening_iff.mp hlistens
    obtain rfl := Option.some.inj ((inbox?_nextId hhub _).symm.trans hinbox)
    exact hsome hnone
  rw [PubSub.idle, if_neg (Bool.eq_false_iff.mp hlistening)] at hvisit
  -- Its first visit therefore finds the end.
  have hstream : opening.stream hub =
    .listening ⟨opening.ctx, opening.path, (EventStream.ofSource hub opening.source).1⟩ := rfl
  rw [taken, hstream, poll_listening_of_returned hvisit, taken?, EventStream.taken?, hvisit]
  exact taken_ended hubs

/-- As long as nothing has been published, a subscription to some trigger waits. -/
theorem poll_subscribe_of_triggers {hub : PubSub} (hhub : hub.Consistent)
    (h : opening.source.script? = none) (hsome : opening.source.triggers ≠ []) :
    (subscribe schema document params).poll hub =
      ⟨opening.texts.map .said, .ok .pending,
        .listening ⟨opening.ctx, opening.path, ⟨.subscription hub.nextId, opening.source.keeps⟩⟩,
        (hub.subscribe opening.source.triggers).2.leave hub.nextId []⟩ := by
  have hvisit := opening.poll_ofSource hhub h
  have hlistening : (hub.subscribe opening.source.triggers).2.isListening hub.nextId = true :=
    (hhub.subscribe _).isListening_iff.mpr ⟨_, inbox?_nextId hhub _, hsome⟩
  rw [PubSub.idle, if_pos hlistening] at hvisit
  rw [opening.poll_subscribe hub, stream, poll_listening_of_returned hvisit]
  simp [Visit.prepend, Subscription.reply]

/-- **A filter that panics on a payload** does so in the visit after the payload has been published.
The first visit opens the subscription and finds nothing, so the payload is the only one in its
queue, and the first that the filter is asked about. -/
theorem panics_on_published {hub : PubSub} (hhub : hub.Consistent) {trigger : String}
    (htrigger : trigger ∈ opening.source.triggers) {payload : FieldValue} {log : List String}
    {message : String} (hkeep : opening.source.keeps payload = .panicked log message) :
    let first := (subscribe schema document params).poll hub
    (first.hub.publish trigger payload).2.Consistent ∧
      (first.stream.poll (first.hub.publish trigger payload).2).found = .error (.panicked message) := by
  intro first
  have hsome : opening.source.triggers ≠ [] := List.ne_nil_of_mem htrigger
  have hscript : opening.source.script? = none := EventSource.script?_eq_none_of_triggers hsome
  -- The first visit finds nothing and leaves the stream waiting at its subscription.
  have hfirst : first = _ := opening.poll_subscribe_of_triggers hhub hscript hsome
  have hconsistent : first.hub.Consistent := consistent_poll hhub _
  refine ⟨hconsistent.publish trigger payload, ?_⟩
  have hinbox : first.hub.inbox? hub.nextId = some ⟨opening.source.triggers, []⟩ := by
    rw [hfirst]
    refine (PubSub.inbox?_modifyInboxes_self _).trans ?_
    rw [inbox?_nextId hhub]
    rfl
  -- The payload is the only one that is queued.
  have hqueue : (first.hub.publish trigger payload).2.queue hub.nextId = [payload] := by
    rw [PubSub.queue, PubSub.inbox?_publish hconsistent, hinbox, Option.map_some, if_pos htrigger]
    rfl
  -- It is the first one that the filter is asked about.
  have hpanics : EventStream.poll ⟨.subscription hub.nextId, opening.source.keeps⟩
      (first.hub.publish trigger payload).2 = .panicked log message := by
    rw [EventStream.poll_subscription, hqueue, EventStream.takePayloads, hkeep]
    rfl
  have hstream : first.stream =
      .listening ⟨opening.ctx, opening.path, ⟨.subscription hub.nextId, opening.source.keeps⟩⟩ := by
    rw [hfirst]
  rw [hstream, poll_listening_of_panicked hpanics]
  rfl

end Opening

end GraphQL
