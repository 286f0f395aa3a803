import GraphQL.Proofs.PubSub.Table
import GraphQL.Proofs.Subscription.Replies

/-!
# The release of event sources

The source of a subscription is released by the visit that ends the stream, or else together with the
stream, and not again after that.

A script shows this in the log. What it logs when it is released is owed as long as the source is open:
a visit either leaves it owed or pays it (`pays_poll`), so that the log of the visits of a run and of the
end of the stream is that of a script without a farewell, with the farewell behind it
(`wholeLog_eq`). Publications show it in the table of subscriptions: a visit keeps the entry of the
stream, unless it ends the stream (`keeps_poll`), and leaves the table in order (`consistent_poll`).
-/

namespace GraphQL

namespace EventStream

/-- What is logged when a stream is closed. -/
def farewell (events : EventStream) : List String :=
  match events.origin with
  | .feed _ farewell => farewell
  | .subscription _ => []

/-- The same events, with nothing logged when the stream is closed. -/
def silenced (events : EventStream) : EventStream :=
  match events.origin with
  | .feed steps _ => { events with origin := .feed steps [] }
  | .subscription _ => events

theorem close_fst (events : EventStream) (hub : PubSub) : (events.close hub).1 = events.farewell := by
  rw [close, farewell]
  cases events.origin <;> rfl

@[simp] theorem farewell_silenced (events : EventStream) : events.silenced.farewell = [] := by
  obtain ⟨origin, keep⟩ := events
  cases origin <;> rfl

/-- The farewell of a script stays the same until it is logged. -/
theorem farewell_of_returned {events : EventStream} {hub : PubSub} {log : List String} {visit : EventVisit}
    (h : events.poll hub = .returned log visit) : visit.stream.farewell = events.farewell := by
  obtain ⟨origin, keep⟩ := events
  cases origin with
  | feed steps farewell =>
    rw [poll_feed] at h
    -- The visit of a script takes steps off it and leaves its farewell alone.
    obtain ⟨_, -, rfl⟩ := Call.exists_of_map_eq_returned h
    rfl
  | subscription id =>
    rw [poll_subscription] at h
    obtain ⟨_, -, rfl⟩ := Call.exists_of_map_eq_returned h
    rfl

/-- Visits do not depend on the farewell. -/
theorem poll_silenced (events : EventStream) (hub : PubSub) :
    events.silenced.poll hub =
      (events.poll hub).map fun visit => { visit with stream := visit.stream.silenced } := by
  obtain ⟨origin, keep⟩ := events
  cases origin with
  -- The two visits differ in the farewell that is left, and in nothing else.
  | feed steps farewell =>
    change poll ⟨.feed steps [], keep⟩ hub = _
    rw [poll_feed, poll_feed, Call.map_map]
    rfl
  | subscription id =>
    change poll ⟨.subscription id, keep⟩ hub = _
    rw [poll_subscription, Call.map_map]
    rfl

theorem origin_eq {events : EventStream} {id : Nat} (h : events.subscription? = some id) :
    events.origin = .subscription id := by
  obtain ⟨origin, keep⟩ := events
  cases origin with
  | feed steps farewell => cases h
  | subscription other => exact congrArg EventOrigin.subscription (Option.some.inj h)

/-- Visits leave a subscription in the table. -/
theorem isSome_inbox?_of_returned {events : EventStream} {id : Nat} {hub : PubSub} {log : List String}
    {visit : EventVisit} (horigin : events.origin = .subscription id)
    (h : events.poll hub = .returned log visit) :
    visit.stream.origin = .subscription id ∧ (visit.hub.inbox? id).isSome = (hub.inbox? id).isSome := by
  obtain ⟨origin, keep⟩ := events
  subst horigin
  rw [poll_subscription] at h
  obtain ⟨⟨taken, left⟩, -, rfl⟩ := Call.exists_of_map_eq_returned h
  exact ⟨rfl, (congrArg Option.isSome (PubSub.inbox?_modifyInboxes_self _)).trans Option.isSome_map⟩

end EventStream

namespace ResponseStream

variable {ctx : ExecutionContext} {path : QueryPath} {current : List Occurrence}

/-! ### Farewells -/

/-- What is still to be logged when the source is released. -/
def owed (stream : ResponseStream) : List Event :=
  ((stream.events?.map EventStream.farewell).getD []).map .said

/-- The same stream with nothing logged when its source is released. -/
def silenced : ResponseStream → ResponseStream
  | .listening ⟨ctx, path, events⟩ => .listening ⟨ctx, path, events.silenced⟩
  | .responding ⟨ctx, path, events⟩ run => .responding ⟨ctx, path, events.silenced⟩ run
  | .unstarted schema document params => .unstarted schema document params
  | .answering run => .answering run
  | .ended => .ended

/-- What has been owed is still owed after a visit, or else the stream has ended and it has been logged
behind everything else. -/
def Pays (owed : List Event) (visit silent : Visit) : Prop :=
  silent.stream = visit.stream.silenced ∧
    (visit.stream.owed = owed ∧ visit.log = silent.log ∨
      visit.stream = .ended ∧ visit.log = silent.log ++ owed)

theorem pays_proceed (events : EventStream) (hub hub' : PubSub) (run : Run Response) :
    Pays (events.farewell.map .said) (Subscription.proceed ⟨ctx, path, events⟩ hub run)
      (Subscription.proceed ⟨ctx, path, events.silenced⟩ hub' run) := by
  cases run with
  | finish log response => exact ⟨rfl, .inl ⟨rfl, rfl⟩⟩
  | suspend log rest => exact ⟨rfl, .inl ⟨rfl, rfl⟩⟩
  | abort log why =>
    refine ⟨rfl, .inr ⟨rfl, ?_⟩⟩
    simp [Subscription.proceed, EventStream.close_fst]

theorem Pays.prepend {owed : List Event} {visit silent : Visit} (h : Pays owed visit silent)
    (texts : List String) : Pays owed (visit.prepend texts) (silent.prepend texts) := by
  refine ⟨h.1, h.2.imp (And.imp_right fun hlog => ?_) (And.imp_right fun hlog => ?_)⟩
  · rw [Visit.prepend_log, Visit.prepend_log, hlog]
  · rw [Visit.prepend_log, Visit.prepend_log, hlog, List.append_assoc]

/-- **One visit** leaves owed what is owed, or pays it. The visit is compared with that of the same
stream without its farewell: they differ in nothing but the log, and there only in the visit that
finds the end of the source. -/
theorem pays_poll {stream : ResponseStream} (h : KeepsPace ctx path stream current) (hub : PubSub) :
    Pays stream.owed (stream.poll hub) (stream.silenced.poll hub) := by
  cases h with
  -- A stream that has ended owes nothing and logs nothing.
  | ended | aborted _ => exact ⟨rfl, .inl ⟨rfl, rfl⟩⟩
  -- An event that is still executed leaves the subscription as it is.
  | responding _ => exact pays_proceed _ hub hub _
  -- The source is visited, once with its farewell and once without.
  | listening events =>
    have hsilenced := events.poll_silenced hub
    cases hvisit : events.poll hub with
    | panicked log message =>
      rw [hvisit] at hsilenced
      rw [silenced, poll_listening_of_panicked hvisit, poll_listening_of_panicked hsilenced]
      exact pays_proceed _ hub hub _
    | returned log visit =>
      rw [hvisit] at hsilenced
      rw [silenced, poll_listening_of_returned hvisit, poll_listening_of_returned hsilenced]
      refine Pays.prepend ?_ _
      -- The visit of the source itself logs nothing of the farewell.
      have howed : owed (.listening ⟨ctx, path, events⟩) = visit.stream.farewell.map .said := by
        rw [EventStream.farewell_of_returned hvisit]
        rfl
      rw [howed]
      dsimp only
      cases visit.found with
      | pending => exact ⟨rfl, .inl ⟨rfl, rfl⟩⟩
      -- The end of the source is where the farewell is logged.
      | ended =>
        refine ⟨rfl, .inr ⟨rfl, ?_⟩⟩
        simp [Subscription.reply, EventStream.close_fst]
      | ready event =>
        cases event with
        | error error => exact ⟨rfl, .inl ⟨rfl, rfl⟩⟩
        | ok payload => exact pays_proceed _ _ _ _

/-- What is logged by the visits of a run and then by giving the stream up. -/
def wholeLog (stream : ResponseStream) (hubs : List PubSub) (hub : PubSub) : List Event :=
  (stream.visits hubs).flatMap Visit.log ++ ((stream.after hubs).close hub).1.map .said

theorem close_fst (stream : ResponseStream) (hub : PubSub) :
    (stream.close hub).1.map .said = stream.owed := by
  rw [close, owed]
  cases stream.events? with
  | none => rfl
  | some events => exact congrArg (List.map Event.said) (events.close_fst hub)

theorem owed_silenced (stream : ResponseStream) : stream.silenced.owed = [] := by
  have hsilent : ∀ events : EventStream, events.silenced.farewell.map Event.said = [] := fun events =>
    congrArg (List.map Event.said) events.farewell_silenced
  cases stream with
  | listening subscription => exact hsilent subscription.events
  | responding subscription run => exact hsilent subscription.events
  | unstarted _ _ _ | answering _ | ended => rfl

theorem wholeLog_cons (stream : ResponseStream) (hub' : PubSub) (hubs : List PubSub) (hub : PubSub) :
    stream.wholeLog (hub' :: hubs) hub =
      (stream.poll hub').log ++ (stream.poll hub').stream.wholeLog hubs hub := by
  rw [wholeLog, visits, List.flatMap_cons, List.append_assoc]
  rfl

/-- A stream that has ended logs nothing more. -/
theorem wholeLog_ended (hubs : List PubSub) (hub : PubSub) : wholeLog .ended hubs hub = [] := by
  induction hubs with
  | nil => rfl
  | cons hub' hubs ih => exact (wholeLog_cons _ _ _ _).trans ih

/-- **What is owed is logged once, behind everything else**, after any number of visits. -/
theorem wholeLog_eq {stream : ResponseStream} (h : KeepsPace ctx path stream current)
    (hubs : List PubSub) (hub : PubSub) :
    stream.wholeLog hubs hub = stream.silenced.wholeLog hubs hub ++ stream.owed := by
  induction hubs generalizing stream current with
  | nil =>
    simp only [wholeLog, after, close_fst, owed_silenced]
    rfl
  | cons hub' hubs ih =>
    obtain ⟨hsilent, hpays⟩ := pays_poll h hub'
    obtain ⟨-, current', -, -, hpace⟩ := keepsPace_poll h hub'
    rw [wholeLog_cons, wholeLog_cons, hsilent, ih hpace]
    -- Once the farewell has been logged the stream has ended and logs nothing more.
    rcases hpays with ⟨howed, hlog⟩ | ⟨hended, hlog⟩
    · rw [howed, hlog, List.append_assoc]
    · rw [hended, hlog, silenced, wholeLog_ended]
      simp [owed, events?]

/-! ### Publications -/

/-- The subscription of the given number is kept as long as the stream is open, and not after that. -/
def Keeps (id : Nat) (hub : PubSub) (visit : Visit) : Prop :=
  if visit.stream.events?.isSome then (visit.hub.inbox? id).isSome = (hub.inbox? id).isSome
  else visit.hub.inbox? id = none

theorem keeps_proceed {subscription : Subscription} {id : Nat}
    (h : subscription.events.origin = .subscription id) {hub hub' : PubSub}
    (hkept : (hub'.inbox? id).isSome = (hub.inbox? id).isSome) (run : Run Response) :
    Keeps id hub (subscription.proceed hub' run) := by
  cases run with
  | finish log response | suspend log rest => exact hkept
  | abort log why => exact EventStream.inbox?_close h hub'

/-- **One visit** of an open stream keeps its subscription, unless it ends the stream. -/
theorem keeps_poll {stream : ResponseStream} {id : Nat} {keep : EventFilter}
    (hpace : KeepsPace ctx path stream current) (hopen : stream.events?.isSome)
    (h : stream.TakesFrom (some id) keep) (hub : PubSub) : Keeps id hub (stream.poll hub) := by
  cases hpace with
  | ended | aborted _ => exact absurd hopen Bool.false_ne_true
  -- The hub is not touched while an event is executed.
  | responding _ => exact keeps_proceed (EventStream.origin_eq (h _ rfl).1) rfl _
  | listening events =>
    have hopened := EventStream.origin_eq (h events rfl).1
    cases hvisit : events.poll hub with
    | panicked log message =>
      rw [poll_listening_of_panicked hvisit]
      exact keeps_proceed hopened rfl _
    | returned log visit =>
      -- A visit of the source keeps the inbox. It is closed only at the end.
      obtain ⟨horigin, hkept⟩ := EventStream.isSome_inbox?_of_returned hopened hvisit
      rw [poll_listening_of_returned hvisit]
      cases visit.found with
      | pending => exact hkept
      | ended => exact EventStream.inbox?_close horigin _
      | ready event =>
        cases event with
        | error error => exact hkept
        | ok payload => exact keeps_proceed horigin hkept _

/-- A subscription without an open source has ended. -/
theorem eq_ended_of_closed {stream : ResponseStream} (h : KeepsPace ctx path stream current)
    (hclosed : stream.events?.isSome = false) : stream = .ended := by
  cases h with
  | ended | aborted _ => rfl
  | listening events | responding _ => exact absurd hclosed.symm Bool.false_ne_true

/-- **Any number of visits** leave a stream with its own source, if it is still open. -/
theorem takesFrom_after {stream : ResponseStream} {id? : Option Nat} {keep : EventFilter}
    (hpace : KeepsPace ctx path stream current) (h : stream.TakesFrom id? keep) (hubs : List PubSub) :
    (stream.after hubs).TakesFrom id? keep := by
  induction hubs generalizing stream current with
  | nil => exact h
  | cons hub hubs ih =>
    obtain ⟨-, current', -, -, hpace'⟩ := keepsPace_poll hpace hub
    exact ih hpace' (TakesFrom.poll hpace h hub)

/-- A stream that is given up gives up its subscription. -/
theorem inbox?_close_of_takesFrom {stream : ResponseStream} {id : Nat} {keep : EventFilter}
    (hopen : stream.events?.isSome) (h : stream.TakesFrom (some id) keep) (hub : PubSub) :
    (stream.close hub).2.inbox? id = none := by
  obtain ⟨events, hevents⟩ := Option.isSome_iff_exists.mp hopen
  rw [close, hevents]
  exact EventStream.inbox?_close (EventStream.origin_eq (h events hevents).1) hub

end ResponseStream

/-! ### The table of subscriptions -/

namespace EventStream

variable {events : EventStream} {hub : PubSub}

theorem ofSource_consistent (h : hub.Consistent) (source : EventSource) :
    (ofSource hub source).2.Consistent := by
  induction source with
  | feed steps farewell => exact h
  | topics triggers => exact h.subscribe triggers
  | filtered keep source ih => exact ih

theorem close_consistent (h : hub.Consistent) (events : EventStream) : (events.close hub).2.Consistent := by
  rw [close]
  cases events.origin with
  | feed steps farewell => exact h
  | subscription id => exact h.unsubscribe id

theorem consistent_of_returned {log : List String} {visit : EventVisit} (h : hub.Consistent)
    (hvisit : events.poll hub = .returned log visit) : visit.hub.Consistent := by
  obtain ⟨origin, keep⟩ := events
  cases origin with
  | feed steps farewell =>
    rw [poll_feed] at hvisit
    -- A script does not touch the hub.
    obtain ⟨_, -, rfl⟩ := Call.exists_of_map_eq_returned hvisit
    exact h
  | subscription id =>
    rw [poll_subscription] at hvisit
    -- The payloads that are passed over are taken from one queue.
    obtain ⟨⟨taken, left⟩, -, rfl⟩ := Call.exists_of_map_eq_returned hvisit
    exact h.leave id left

end EventStream

namespace ResponseStream

variable {hub : PubSub}

theorem consistent_proceed (h : hub.Consistent) (run : Run Response) : (proceed hub run).hub.Consistent := by
  cases run <;> exact h

theorem consistent_subscription_proceed (h : hub.Consistent) (subscription : Subscription)
    (run : Run Response) : (subscription.proceed hub run).hub.Consistent := by
  cases run with
  | finish log response | suspend log rest => exact h
  | abort log why => exact EventStream.close_consistent h subscription.events

theorem consistent_subscription_poll (h : hub.Consistent) (subscription : Subscription) :
    (subscription.poll hub).hub.Consistent := by
  obtain ⟨ctx, path, events⟩ := subscription
  change (poll (.listening ⟨ctx, path, events⟩) hub).hub.Consistent
  cases hvisit : events.poll hub with
  | panicked log message =>
    rw [poll_listening_of_panicked hvisit]
    exact consistent_subscription_proceed h _ _
  | returned log visit =>
    -- The table is in order after the source has been visited, and it is only touched again to
    -- close it.
    have hleft := EventStream.consistent_of_returned h hvisit
    rw [poll_listening_of_returned hvisit]
    cases visit.found with
    | pending => exact hleft
    | ended => exact EventStream.close_consistent hleft visit.stream
    | ready event =>
      cases event with
      | error error => exact hleft
      | ok payload => exact consistent_subscription_proceed hleft _ _

/-- **A visit leaves the table of subscriptions in order**, whatever the stream is. -/
theorem consistent_poll (h : hub.Consistent) (stream : ResponseStream) :
    (stream.poll hub).hub.Consistent := by
  cases stream with
  | ended => exact h
  | answering run => exact consistent_proceed h run
  -- The streams that are open visit their source at most.
  | listening subscription => exact consistent_subscription_poll h subscription
  | responding subscription run => exact consistent_subscription_proceed h subscription run
  | unstarted schema document params =>
    -- The first visit opens a subscription of the hub at most.
    exact poll_subscribe_induction (motive := fun visit => visit.hub.Consistent) schema document params hub
      (fun _ _ => consistent_proceed h _) (fun _ _ => consistent_proceed h _)
      (fun _ _ _ => consistent_proceed h _) (fun _ _ _ _ _ _ => consistent_proceed h _)
      fun _ _ _ _ _ source _ =>
        consistent_subscription_poll (EventStream.ofSource_consistent h source) _

end ResponseStream

end GraphQL
