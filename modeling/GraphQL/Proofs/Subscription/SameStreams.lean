import GraphQL.Proofs.Coroutine.Lockstep
import GraphQL.Proofs.Execution.SameRuns
import GraphQL.Proofs.Subscription.RequestErrors

/-!
# Streams that do the same

A stream of responses knows its request only by what comes of it: the source of its events, the only
response, or the responses to events. Two streams for which these are the same are visited alike, for the
same states of the publications, and stay two such streams.

* `ExecutionContext.AnswersAlike`, `ExecutionContext.StartsAlike` — contexts of which the same comes;
* `ResponseStream.Alike`, `ResponseStream.Alike.poll` — streams in the same state, and one visit of both;
* `ResponseStream.Alike.visits_eq`, `ResponseStream.Alike.collectFrom_eq` — runs of both streams.
-/

namespace GraphQL

namespace ExecutionContext

/-- Two contexts in which events are answered in the same way. -/
structure AnswersAlike (ctx ctx' : ExecutionContext) : Prop where
  config : ctx.schema.config = ctx'.schema.config
  respond : ∀ payload, (ctx.forEvent payload).respond = (ctx'.forEvent payload).respond

/-- Two contexts in which streams start in the same way. -/
structure StartsAlike (ctx ctx' : ExecutionContext) : Prop where
  operation : ctx.operation = ctx'.operation
  config : ctx.schema.config = ctx'.schema.config
  respond : ctx.respond = ctx'.respond
  eventSource : ctx.eventSource = ctx'.eventSource
  events : ctx.operation.type = .subscription → ctx.AnswersAlike ctx'

variable {ctx ctx' : ExecutionContext}

/-- The source of a subscription is the same if the subscriber is. -/
theorem SameRequest.eventSource_eq (h : ctx.SameRequest ctx')
    (hsubscriber : ∀ typeName fieldName, (ctx.schema.fieldHooks typeName fieldName).subscriber =
      (ctx'.schema.fieldHooks typeName fieldName).subscriber) :
    ctx.eventSource = ctx'.eventSource := by
  have hcall : ∀ root key node nodes,
      ctx.callSubscriber root key node nodes = ctx'.callSubscriber root key node nodes := by
    intro root key node nodes
    simp only [callSubscriber, hsubscriber, h.types, h.vars, h.rootValue, h.context, h.resolveInfo_eq]
  rw [eventSource, eventSource, h.rootType?_eq]
  simp only [h.collectFields_eq, h.operation, hcall]

end ExecutionContext

open ExecutionContext

/-! ### Visits -/

/-- Two streams in the same state, of which the same comes. -/
inductive ResponseStream.Alike : ResponseStream → ResponseStream → Prop
  | unstarted {schema schema' : Schema} {document document' : Document}
      {params params' : ExecutionParams}
      (h : ExceptRel Eq (ExceptRel Eq StartsAlike) (build schema document params)
        (build schema' document' params')) :
      Alike (.unstarted schema document params) (.unstarted schema' document' params')
  | answering (run : Run Response) : Alike (.answering run) (.answering run)
  | listening {ctx ctx' : ExecutionContext} (h : ctx.AnswersAlike ctx') (path : QueryPath)
      (events : EventStream) : Alike (.listening ⟨ctx, path, events⟩) (.listening ⟨ctx', path, events⟩)
  | responding {ctx ctx' : ExecutionContext} (h : ctx.AnswersAlike ctx') (path : QueryPath)
      (events : EventStream) (run : Run Response) :
      Alike (.responding ⟨ctx, path, events⟩ run) (.responding ⟨ctx', path, events⟩ run)
  | ended : Alike .ended .ended

/-- Two visits that log, find and leave the same. -/
structure Visit.Alike (visit visit' : Visit) : Prop where
  log : visit.log = visit'.log
  found : visit.found = visit'.found
  stream : visit.stream.Alike visit'.stream
  hub : visit.hub = visit'.hub

theorem Visit.Alike.prepend {visit visit' : Visit} (h : visit.Alike visit') (texts : List String) :
    (visit.prepend texts).Alike (visit'.prepend texts) :=
  ⟨congrArg (texts.map Event.said ++ ·) h.log, h.found, h.stream, h.hub⟩

namespace Subscription

variable {ctx ctx' : ExecutionContext} (h : ctx.AnswersAlike ctx') (path : QueryPath)
  (events : EventStream) (hub : PubSub)
include h

/-- The response to an event goes on. -/
theorem proceed_alike (run : Run Response) :
    (proceed ⟨ctx, path, events⟩ hub run).Alike (proceed ⟨ctx', path, events⟩ hub run) := by
  cases run with
  | finish log response => exact ⟨rfl, rfl, .listening h path events, rfl⟩
  | suspend log rest => exact ⟨rfl, rfl, .responding h path events rest, rfl⟩
  | abort log why => exact ⟨rfl, rfl, .ended, rfl⟩

/-- An event is answered. -/
theorem reply_alike (found : Poll ResolverResult) :
    (reply ⟨ctx, path, events⟩ hub found).Alike (reply ⟨ctx', path, events⟩ hub found) := by
  cases found with
  | ready result =>
    cases result with
    | ok payload =>
      -- A payload is executed with the same run on both sides.
      rw [reply, reply, respondTo, respondTo, h.respond payload]
      exact proceed_alike h path events hub _
    | error error =>
      -- An error of the source is shown according to the configuration, which is the same.
      have hresponse : errorResponse ⟨ctx, path, events⟩ error =
          errorResponse ⟨ctx', path, events⟩ error := by
        simp only [errorResponse, ExecutionContext.errorResponse, h.config]
      rw [reply, reply, hresponse]
      exact ⟨rfl, rfl, .listening h path events, rfl⟩
  | pending => exact ⟨rfl, rfl, .listening h path events, rfl⟩
  | ended => exact ⟨rfl, rfl, .ended, rfl⟩

end Subscription

namespace ResponseStream

variable {stream stream' : ResponseStream} {hub : PubSub}

/-- The only response goes on. -/
theorem proceed_alike (hub : PubSub) (run : Run Response) : (proceed hub run).Alike (proceed hub run) := by
  cases run with
  | finish log response => exact ⟨rfl, rfl, .ended, rfl⟩
  | suspend log rest => exact ⟨rfl, rfl, .answering rest, rfl⟩
  | abort log why => exact ⟨rfl, rfl, .ended, rfl⟩

/-- A stream that waits for an event visits its source. -/
theorem poll_listening_alike {ctx ctx' : ExecutionContext} (h : ctx.AnswersAlike ctx') (path : QueryPath)
    (events : EventStream) (hub : PubSub) :
    ((listening ⟨ctx, path, events⟩).poll hub).Alike ((listening ⟨ctx', path, events⟩).poll hub) := by
  cases hvisit : events.poll hub with
  | panicked log message =>
    rw [poll_listening_of_panicked hvisit, poll_listening_of_panicked hvisit]
    exact Subscription.proceed_alike h path events hub _
  | returned log visit =>
    rw [poll_listening_of_returned hvisit, poll_listening_of_returned hvisit]
    exact (Subscription.reply_alike h path _ _ _).prepend _

/-- The source of a subscription is opened. -/
theorem startSubscription_alike {ctx ctx' : ExecutionContext} (h : ctx.StartsAlike ctx')
    (htype : ctx.operation.type = .subscription) (hub : PubSub) :
    (startSubscription ctx hub).Alike (startSubscription ctx' hub) := by
  -- Both ask for the same source.
  rw [startSubscription, startSubscription, ← h.eventSource]
  cases ctx.eventSource with
  | error why => exact proceed_alike hub _
  | ok call =>
    cases call with
    | panicked log message => exact proceed_alike hub _
    | returned log found =>
      cases found with
      | error error =>
        simp only [errorResponse, h.config]
        exact proceed_alike hub _
      | ok found =>
        obtain ⟨path, source⟩ := found
        exact (poll_listening_alike (h.events htype) path _ _).prepend log

/-- The first visit of a stream, after which it is started. All that is used of the two requests is
what they are built to, so this is one case distinction for queries, mutations and subscriptions
alike. -/
theorem start_alike {schema schema' : Schema} {document document' : Document}
    {params params' : ExecutionParams}
    (h : ExceptRel Eq (ExceptRel Eq StartsAlike) (build schema document params)
      (build schema' document' params')) (hub : PubSub) :
    (start schema document params hub).Alike (start schema' document' params' hub) := by
  rw [start, start]
  -- All that is used of the two requests is what they are built to.
  revert h
  generalize build schema document params = built
  generalize build schema' document' params' = built'
  intro h
  cases h with
  | error hwhy =>
    obtain rfl := hwhy
    exact proceed_alike hub _
  | ok h =>
    cases h with
    | error herrors =>
      obtain rfl := herrors
      exact proceed_alike hub _
    | @ok ctx ctx' h =>
      simp only [← h.operation]
      split
      next htype => exact startSubscription_alike h (eq_of_beq htype) hub
      next =>
        rw [h.respond]
        exact proceed_alike hub _

/-- **Both streams are visited alike**, and stay alike. -/
theorem Alike.poll (h : stream.Alike stream') (hub : PubSub) :
    (stream.poll hub).Alike (stream'.poll hub) := by
  cases h with
  | unstarted h => exact start_alike h hub
  | answering run => exact proceed_alike hub run
  | listening h path events => exact poll_listening_alike h path events hub
  | responding h path events run => exact Subscription.proceed_alike h path events hub run
  | ended => exact ⟨rfl, rfl, .ended, rfl⟩

end ResponseStream

/-! ### Runs -/

/-- What can be seen of a visit: what it logs and finds, and the publications that it leaves. -/
def Visit.observed (visit : Visit) : List Event × Except Abort (Poll Response) × PubSub :=
  (visit.log, visit.found, visit.hub)

namespace ResponseStream

variable {stream stream' : ResponseStream}

/-- **Runs of both streams** are the same, however publications and visits are interleaved. The induction
is on the visits. -/
theorem Alike.visits_eq (h : stream.Alike stream') (hubs : List PubSub) :
    (stream.visits hubs).map Visit.observed = (stream'.visits hubs).map Visit.observed := by
  induction hubs generalizing stream stream' with
  | nil => rfl
  | cons hub hubs ih =>
    have hvisit := h.poll hub
    have hseen : (stream.poll hub).observed = (stream'.poll hub).observed := by
      rw [Visit.observed, Visit.observed, hvisit.log, hvisit.found, hvisit.hub]
    rw [visits, visits, List.map_cons, List.map_cons, hseen, ih hvisit.stream]

theorem Alike.distance_eq (h : stream.Alike stream') (hub : PubSub) :
    stream.distance hub = stream'.distance hub := by
  cases h <;> rfl

theorem Alike.stop_eq (h : stream.Alike stream') (log : List Event) (responses : List Response)
    (ending : Ending) (hub : PubSub) :
    stop log responses ending stream hub = stop log responses ending stream' hub := by
  cases h <;> rfl

/-- **Both streams are collected alike.** The induction is on the visits. -/
theorem Alike.collectFrom_eq (h : stream.Alike stream') (wanted : List Response → Bool) (log : List Event)
    (responses : List Response) (hub : PubSub) :
    collectFrom wanted log responses stream hub = collectFrom wanted log responses stream' hub := by
  induction hdistance : stream.distance hub using wellFounded_closer.induction
    generalizing log responses stream stream' hub with
  | h distance ih =>
    by_cases hmore : wanted responses = true
    -- The same is found, and the streams that are left are equally far from an end.
    · have hvisit := h.poll hub
      have hresponse : (stream.poll hub).response? = (stream'.poll hub).response? := by
        rw [Visit.response?, Visit.response?, hvisit.found]
      rw [collectFrom_of_wanted hmore, collectFrom_of_wanted hmore]
      dsimp only
      rw [← hresponse, ← hvisit.log, ← hvisit.found, ← hvisit.hub, ← hvisit.stream.distance_eq,
        ← h.distance_eq hub, hdistance]
      simp only [← hvisit.stream.stop_eq]
      split
      · rfl
      · rfl
      · split
        next hcloser => exact ih _ hcloser hvisit.stream _ _ _ rfl
        next => rfl
    · rw [collectFrom, collectFrom, if_neg hmore, if_neg hmore, h.stop_eq]

end ResponseStream

end GraphQL
