import GraphQL.Proofs.Subscription.Events
import GraphQL.Proofs.Subscription.Visits
import Mathlib.Data.List.Forall2

/-!
# Replies to events

An open subscription replies to the events of its source one after the other. `ExecutionContext.answerTo`
is the reply to one event, which depends on that event alone. Of a subscription that has been visited any
number of times, `KeepsPace` says which event is being replied to, and `exists_current` that all events
before that have their replies, in order.

A panic of the source or of a filter is treated as an event that has no reply: the visit that takes it
breaks down with it, as the visit does that goes on with an execution which panics. So there is only one
way in which a subscription can break down, and it is the last thing that happens to it.

* `ResponseStream.taken` — the events that the visits of a run take from the source;
* `keepsPace_poll` — one visit: the event that is being replied to, if there is one, gets its response
  before another one is taken;
* `exists_current` — any number of visits.
-/

namespace GraphQL

/-- The response to what happens at the source: to a payload that of the operation with the payload as
root value, and to an error the error without any data. There is none to a panic. -/
def ExecutionContext.answerTo (ctx : ExecutionContext) (path : QueryPath) :
    Occurrence → Except Abort Response
  | .event (.ok payload) => (ctx.forEvent payload).respond.outcome
  | .event (.error error) => .ok (ctx.errorResponse (error.toGraphQLError.withPath path.toErrorPath))
  | .panic message => .error (.panicked message)

/-- The responses answer the events, one each and in order. -/
def ExecutionContext.Answers (ctx : ExecutionContext) (path : QueryPath)
    (events : List Occurrence) (responses : List Response) : Prop :=
  List.Forall₂ (fun event response => ctx.answerTo path event = .ok response) events responses

namespace ResponseStream

variable {ctx : ExecutionContext} {path : QueryPath}

/-- The event that a visit takes from the source. A stream that is making a response takes none. -/
def taken? (stream : ResponseStream) (hub : PubSub) : Option Occurrence :=
  match stream with
  | .listening subscription => subscription.events.taken? hub
  | .unstarted _ _ _ | .answering _ | .responding _ _ | .ended => none

/-- The events that the visits of a run take, in order. -/
def taken (stream : ResponseStream) : List PubSub → List Occurrence
  | [] => []
  | hub :: hubs => (stream.taken? hub).toList ++ (stream.poll hub).stream.taken hubs

/-- The responses of the visits of a run, in order. -/
def responses (stream : ResponseStream) (hubs : List PubSub) : List Response :=
  (stream.visits hubs).filterMap Visit.response?

/-- How far a subscription has got: the events that have been taken and have no response yet. There is at
most one of them. -/
inductive KeepsPace (ctx : ExecutionContext) (path : QueryPath) :
    ResponseStream → List Occurrence → Prop
  | listening (events : EventStream) : KeepsPace ctx path (.listening ⟨ctx, path, events⟩) []
  | responding {events : EventStream} {run : Run Response} {payload : FieldValue}
      (h : run.outcome = ctx.answerTo path (.event (.ok payload))) :
      KeepsPace ctx path (.responding ⟨ctx, path, events⟩ run) [.event (.ok payload)]
  | ended : KeepsPace ctx path .ended []
  | aborted {event : Occurrence} {why : Abort} (h : ctx.answerTo path event = .error why) :
      KeepsPace ctx path .ended [event]

/-- No event is taken as long as one is being replied to. -/
theorem KeepsPace.taken?_eq_none {stream : ResponseStream} {current : List Occurrence}
    (h : KeepsPace ctx path stream current) (hcurrent : current ≠ []) (hub : PubSub) :
    stream.taken? hub = none := by
  cases h with
  | listening _ | ended => exact absurd rfl hcurrent
  | responding _ | aborted _ => rfl

/-- What a visit leaves of the events that are waiting: it takes the next one, or replies to the one
that is being replied to. -/
def Advances (ctx : ExecutionContext) (path : QueryPath) (waiting : List Occurrence)
    (visit : Visit) : Prop :=
  ∃ answered current, waiting = answered ++ current ∧
    ctx.Answers path answered visit.response?.toList ∧ KeepsPace ctx path visit.stream current

/-- Going on with the response to a payload. -/
theorem advances_proceed {events : EventStream} {run : Run Response} {payload : FieldValue}
    (h : run.outcome = ctx.answerTo path (.event (.ok payload))) (hub : PubSub) :
    Advances ctx path [.event (.ok payload)] (Subscription.proceed ⟨ctx, path, events⟩ hub run) := by
  cases run with
  | finish log response => exact ⟨[.event (.ok payload)], [], rfl, .cons h.symm .nil, .listening events⟩
  | abort log why => exact ⟨[], [.event (.ok payload)], rfl, .nil, .aborted h.symm⟩
  | suspend log rest => exact ⟨[], [.event (.ok payload)], rfl, .nil, .responding h⟩

/-- **One visit.** An event that is taken is the only one that waits for a response. -/
theorem keepsPace_poll {stream : ResponseStream} {current : List Occurrence}
    (h : KeepsPace ctx path stream current) (hub : PubSub) :
    Advances ctx path (current ++ (stream.taken? hub).toList) (stream.poll hub) := by
  cases h with
  | ended => exact ⟨[], [], rfl, .nil, .ended⟩
  | aborted h => exact ⟨[], _, rfl, .nil, .aborted h⟩
  | responding h => exact advances_proceed h hub
  | listening events =>
    -- Only here an event is taken, and then no other one waits for its response.
    rw [taken?, EventStream.taken?]
    cases hvisit : events.poll hub with
    | panicked log message =>
      rw [poll_listening_of_panicked hvisit]
      exact ⟨[], [.panic message], rfl, .nil, .aborted rfl⟩
    | returned log visit =>
      rw [poll_listening_of_returned hvisit]
      dsimp only
      cases visit.found with
      | pending => exact ⟨[], [], rfl, .nil, .listening _⟩
      | ended => exact ⟨[], [], rfl, .nil, .ended⟩
      | ready event =>
        cases event with
        | error error => exact ⟨[.event (.error error)], [], rfl, .cons rfl .nil, .listening _⟩
        | ok payload => exact advances_proceed rfl _

/-- **Any number of visits.** The events that have been taken have a response each, in order, up to the
one that is being replied to. -/
theorem exists_current {stream : ResponseStream} {current : List Occurrence}
    (h : KeepsPace ctx path stream current) (hubs : List PubSub) :
    ∃ answered current', current ++ stream.taken hubs = answered ++ current' ∧
      ctx.Answers path answered (stream.responses hubs) ∧
        KeepsPace ctx path (stream.after hubs) current' := by
  induction hubs generalizing stream current with
  | nil => exact ⟨[], current, List.append_nil current, .nil, h⟩
  | cons hub hubs ih =>
    -- The first visit answers some of the events, and the later visits go on from what it leaves.
    obtain ⟨first, left, hfirst, hanswers, hpace⟩ := keepsPace_poll h hub
    obtain ⟨later, current', hlater, hanswers', hpace'⟩ := ih hpace
    refine ⟨first ++ later, current', ?_, ?_, hpace'⟩
    · rw [taken, ← List.append_assoc, hfirst, List.append_assoc, hlater, List.append_assoc]
    -- The responses are those of the first visit and those of the later ones.
    · have hresponses : stream.responses (hub :: hubs) =
          (stream.poll hub).response?.toList ++ (stream.poll hub).stream.responses hubs := by
        rw [responses, visits, List.filterMap_cons]
        cases (stream.poll hub).response? <;> rfl
      rw [hresponses]
      exact List.rel_append hanswers hanswers'

/-! ### What is still offered -/

/-- The events that the source of a stream still has to offer. -/
def offers (stream : ResponseStream) (hub : PubSub) : List Occurrence :=
  match stream.events? with
  | some events => events.offers hub
  | none => []

/-- What is left after a visit: it is offered from then on, unless the visit breaks down. -/
def Leaves (left : List Occurrence) (visit : Visit) : Prop :=
  visit.stream.offers visit.hub = left ∨ visit.stream = .ended ∧ ∃ why, visit.found = .error why

theorem leaves_proceed (subscription : Subscription) (hub : PubSub) (run : Run Response) :
    Leaves (subscription.events.offers hub) (subscription.proceed hub run) := by
  cases run with
  | finish log response => exact .inl rfl
  | abort log why => exact .inr ⟨rfl, why, rfl⟩
  | suspend log rest => exact .inl rfl

/-- **A visit takes the first event that the source offers**, or none. What it leaves is what the
source offers in the next visit, so that the offers of a stream can be counted off visit by visit.
-/
theorem exists_left {stream : ResponseStream} {current : List Occurrence}
    (hpace : KeepsPace ctx path stream current) (hub : PubSub) :
    ∃ left, stream.offers hub = (stream.taken? hub).toList ++ left ∧
      Leaves left (stream.poll hub) := by
  cases hpace with
  -- A stream that has ended offers nothing and takes nothing.
  | ended | aborted _ => exact ⟨[], rfl, .inl rfl⟩
  -- While an event is executed the source is not visited.
  | responding _ => exact ⟨_, rfl, leaves_proceed _ hub _⟩
  | listening events =>
    rw [taken?, EventStream.taken?]
    cases hvisit : events.poll hub with
    | panicked log message =>
      obtain ⟨later, hoffers⟩ := EventStream.exists_offers_of_panicked hvisit
      rw [poll_listening_of_panicked hvisit]
      exact ⟨later, hoffers, .inr ⟨rfl, _, rfl⟩⟩
    | returned log visit =>
      -- The event that is found is the first one of the offer.
      refine ⟨_, EventStream.offers_of_returned hvisit, ?_⟩
      rw [poll_listening_of_returned hvisit]
      cases hfound : visit.found with
      | pending => exact .inl rfl
      | ended => exact .inl (EventStream.offers_of_ended hvisit hfound).symm
      | ready event =>
        cases event with
        | error error => exact .inl rfl
        | ok payload => exact leaves_proceed _ _ _

/-! ### Where events come from -/

/-- As long as the stream is open, it takes its events from the given subscription, or from a script, and
through the given filters. -/
def TakesFrom (id? : Option Nat) (keep : EventFilter) (stream : ResponseStream) : Prop :=
  ∀ events, stream.events? = some events → events.subscription? = id? ∧ events.keep = keep

section TakesFrom

variable {id? : Option Nat} {keep : EventFilter}

theorem takesFrom_ended : TakesFrom id? keep .ended := by
  intro events hevents
  cases hevents

theorem takesFrom_listening {events : EventStream} (h : events.subscription? = id? ∧ events.keep = keep) :
    TakesFrom id? keep (.listening ⟨ctx, path, events⟩) :=
  fun _ hevents => Option.some.inj hevents ▸ h

theorem takesFrom_proceed {events : EventStream} (h : events.subscription? = id? ∧ events.keep = keep)
    (hub : PubSub) (run : Run Response) :
    TakesFrom id? keep (Subscription.proceed ⟨ctx, path, events⟩ hub run).stream := by
  cases run with
  | finish log response => exact takesFrom_listening h
  | abort log why => exact takesFrom_ended
  | suspend log rest => exact fun events hevents => Option.some.inj hevents ▸ h

/-- **One visit** leaves a stream with the source and the filters that it has. -/
theorem TakesFrom.poll {stream : ResponseStream} {current : List Occurrence}
    (hpace : KeepsPace ctx path stream current) (h : stream.TakesFrom id? keep) (hub : PubSub) :
    (stream.poll hub).stream.TakesFrom id? keep := by
  -- A stream that has ended has no source left to be another one.
  cases hpace with
  | ended | aborted _ => exact takesFrom_ended
  | responding _ => exact takesFrom_proceed (h _ rfl) hub _
  | listening events =>
    cases hvisit : events.poll hub with
    | panicked log message =>
      rw [poll_listening_of_panicked hvisit]
      exact takesFrom_ended
    | returned log visit =>
      -- A visit of the source changes neither where it takes from nor its filter.
      have hsame := EventStream.same_source_of_returned hvisit
      have hleft : visit.stream.subscription? = id? ∧ visit.stream.keep = keep :=
        (h events rfl).imp hsame.1.trans hsame.2.trans
      rw [poll_listening_of_returned hvisit]
      cases visit.found with
      | pending => exact takesFrom_listening hleft
      | ended => exact takesFrom_ended
      | ready event =>
        cases event with
        | error error => exact takesFrom_listening hleft
        | ok payload => exact takesFrom_proceed hleft _ _

/-- What a script offers does not depend on publications. -/
theorem TakesFrom.offers_eq {stream : ResponseStream} (h : stream.TakesFrom none keep)
    (hub hub' : PubSub) : stream.offers hub = stream.offers hub' := by
  rw [offers, offers]
  cases hevents : stream.events? with
  | none => rfl
  | some events =>
    obtain ⟨origin, _⟩ := events
    cases origin with
    | feed steps farewell => rfl
    | subscription id => cases (h _ hevents).1

end TakesFrom

theorem taken_ended (hubs : List PubSub) : taken .ended hubs = [] := by
  induction hubs with
  | nil => rfl
  | cons hub hubs ih => exact ih

/-- **The events that a stream takes from a script** are its first ones. -/
theorem taken_initial {stream : ResponseStream} {current : List Occurrence}
    {keep : EventFilter} (hpace : KeepsPace ctx path stream current) (h : stream.TakesFrom none keep)
    (hub : PubSub) (hubs : List PubSub) : stream.taken hubs <+: stream.offers hub := by
  induction hubs generalizing stream current hub with
  | nil => exact List.nil_prefix
  | cons hub' hubs ih =>
    obtain ⟨left, hoffers, hleft⟩ := exists_left hpace hub'
    obtain ⟨-, current', -, -, hpace'⟩ := keepsPace_poll hpace hub'
    rw [h.offers_eq hub hub', hoffers, taken, List.prefix_append_right_inj]
    -- What is taken later is what this visit leaves, or nothing if it breaks down.
    rcases hleft with hkept | ⟨hended, -⟩
    · exact hkept ▸ ih hpace' (TakesFrom.poll hpace h hub') _
    · rw [hended, taken_ended]
      exact List.nil_prefix

end ResponseStream

end GraphQL
