import GraphQL.Proofs.Coroutine.Endings
import GraphQL.Subscription.Events

/-!
# The events that a stream still has to offer

What a stream of events has to offer is what happens in the rest of its script, or the payloads that
have been published and not taken yet, as its filters let it through. A visit takes the first of it, and
if there is none the stream waits or has ended.

What can happen is an event or a panic. Filters are calls, so what a filter makes of an event is not only
to let it through or to leave it out: a filter that panics turns the event into a panic. Filters one
behind the other are therefore composed like partial functions, and the events of a filtered source are
the image of those of the source under `Occurrence.through` (`EventSource.events?_eq`).

* `EventSource.events?` — what happens at a source that is fixed in advance;
* `EventStream.offers` — what an open source has to offer;
* `EventStream.poll_takes` — a visit takes the first thing that is offered, and panics if that is a panic;
* `EventStream.inbox?_close` — a stream that is closed is no longer kept in the table of subscriptions.
-/

namespace GraphQL

/-- The item that a visit finds. -/
def Poll.item? {α : Type} : Poll α → Option α
  | .ready item => some item
  | .pending | .ended => none

/-- What happens at an event source: an event, or a panic of the source or of a filter. -/
inductive Occurrence where
  | event (result : ResolverResult)
  | panic (message : String)

namespace Occurrence

/-- What is left of an occurrence behind a filter. A filter leaves out the payloads that it does not let
through, and puts a panic in the place of the ones on which it panics. -/
def through (keep : EventFilter) : Occurrence → Option Occurrence
  | .panic message => some (.panic message)
  | .event result =>
      match result.passes keep with
      | .returned _ true => some (.event result)
      | .returned _ false => none
      | .panicked _ message => some (.panic message)

@[simp] theorem through_all (occurrence : Occurrence) : occurrence.through .all = some occurrence := by
  cases occurrence with
  | panic message => rfl
  | event result => cases result <;> rfl

/-- Behind two filters is what the second one leaves of what is behind the first. -/
theorem through_both (first second : EventFilter) (occurrence : Occurrence) :
    occurrence.through (first.both second) = (occurrence.through first).bind (through second) := by
  cases occurrence with
  | panic message => rfl
  | event result =>
    cases result with
    | error error => rfl
    | ok payload =>
      have hpasses (keep : EventFilter) : ResolverResult.passes keep (.ok payload) = keep payload := rfl
      have hboth : first.both second payload =
        (first payload).bind fun passes => if passes then second payload else pure false := rfl
      rw [through, through, hpasses, hpasses, hboth]
      cases first payload with
      | panicked log message => rfl
      | returned log passes =>
        cases passes with
        | false => rfl
        | true =>
          -- What the first filter logs is logged in front of what the second one does.
          change _ = through second (.event (.ok payload))
          rw [through, hpasses]
          cases second payload with
          | panicked log' message => simp [Call.bind, Call.prepend]
          | returned log' passes' => cases passes' <;> simp [Call.bind, Call.prepend]

end Occurrence

namespace FeedStep

/-- What happens in a step. -/
def occurrence? : FeedStep → Option Occurrence
  | .event result => some (.event result)
  | .panic message => some (.panic message)
  | .wait | .say _ => none

/-- What happens in a script, in order. -/
def occurrences (steps : List FeedStep) : List Occurrence := steps.filterMap occurrence?

end FeedStep

namespace EventSource

/-- What happens at a source that is fixed in advance: what its filters leave of the script. There is
nothing of that kind for publications, which come from elsewhere. -/
def events? : EventSource → Option (List Occurrence)
  | .feed steps _ => some (FeedStep.occurrences steps)
  | .topics _ => none
  | .filtered keep source => source.events?.map (List.filterMap (Occurrence.through keep))

/-- The script of a source that is fixed in advance, with what is logged when it is released. -/
def script? : EventSource → Option (List FeedStep × List String)
  | .feed steps farewell => some (steps, farewell)
  | .topics _ => none
  | .filtered _ source => source.script?

/-- The triggers under which a source takes publications. -/
def triggers : EventSource → List String
  | .feed _ _ => []
  | .topics triggers => triggers
  | .filtered _ source => source.triggers

/-- What has triggers is not fixed in advance. -/
theorem script?_eq_none_of_triggers {source : EventSource} (h : source.triggers ≠ []) :
    source.script? = none := by
  induction source with
  | feed steps farewell => exact absurd rfl h
  | topics triggers => rfl
  | filtered keep source ih => exact ih h

/-- All filters of a source, one behind the other. -/
def keeps : EventSource → EventFilter
  | .feed _ _ | .topics _ => .all
  | .filtered keep source => source.keeps.both keep

/-- **What happens at a source** is what all its filters together leave of its script. -/
theorem events?_eq (source : EventSource) :
    source.events? = source.script?.map fun script =>
      (FeedStep.occurrences script.1).filterMap (Occurrence.through source.keeps) := by
  induction source with
  | feed steps farewell =>
    -- The innermost source is not filtered.
    have hall : Occurrence.through .all = some := funext Occurrence.through_all
    rw [events?, script?, keeps, Option.map_some, hall, List.filterMap_some]
  | topics triggers => rfl
  | filtered keep source ih =>
    -- To ask one filter after the other is to ask both of them at once.
    have hboth : (fun occurrence : Occurrence => (occurrence.through source.keeps).bind
        (Occurrence.through keep)) = Occurrence.through (source.keeps.both keep) :=
      funext fun occurrence => (Occurrence.through_both _ _ occurrence).symm
    rw [events?, ih, script?, keeps, Option.map_map, ← hboth]
    exact congrArg (Option.map · source.script?) (funext fun script => List.filterMap_filterMap)

end EventSource

/-! ### Calls that return -/

namespace Call

variable {α β γ : Type} {log : List String}

/-- Changes what a call returns. -/
def map (f : α → β) : Call α → Call β
  | .returned log result => .returned log (f result)
  | .panicked log message => .panicked log message

theorem bind_pure_eq_map (f : α → β) (call : Call α) :
    (call.bind fun result => pure (f result)) = call.map f := by
  cases call with
  | panicked log message => rfl
  | returned log result => exact congrArg (Call.returned · _) (List.append_nil log)

@[simp] theorem map_map (f : α → β) (g : β → γ) (call : Call α) : (call.map f).map g = call.map (g ∘ f) := by
  cases call <;> rfl

theorem exists_of_map_eq_returned {f : α → β} {call : Call α} {result : β}
    (h : call.map f = .returned log result) :
    ∃ result', call = .returned log result' ∧ f result' = result := by
  cases call with
  | panicked log' message => cases h
  | returned log' result' =>
    obtain ⟨rfl, rfl⟩ := Call.returned.inj h
    exact ⟨result', rfl, rfl⟩

theorem exists_of_prepend_eq_returned {call : Call α} {texts : List String} {result : α}
    (h : call.prepend texts = .returned log result) : ∃ log', call = .returned log' result := by
  cases call with
  | panicked log' message => cases h
  | returned log' result' =>
    obtain ⟨-, rfl⟩ := Call.returned.inj h
    exact ⟨log', rfl⟩

/-- If what comes after a call returns, the call has returned. -/
theorem exists_of_bind_eq_returned {call : Call α} {next : α → Call β} {result : β}
    (h : call.bind next = .returned log result) :
    ∃ before middle after, call = .returned before middle ∧ next middle = .returned after result := by
  cases call with
  | panicked log' message => cases h
  | returned log' middle =>
    obtain ⟨after, hnext⟩ := exists_of_prepend_eq_returned h
    exact ⟨log', middle, after, rfl, hnext⟩

end Call

namespace EventStream

/-- A source that is fixed in advance is opened as its script, without any subscription. -/
theorem ofSource_of_script {source : EventSource} {steps : List FeedStep} {farewell : List String}
    (h : source.script? = some (steps, farewell)) (hub : PubSub) :
    ofSource hub source = (⟨.feed steps farewell, source.keeps⟩, hub) := by
  induction source with
  | feed steps' farewell' =>
    obtain ⟨rfl, rfl⟩ := Prod.mk.inj (Option.some.inj h)
    rfl
  | topics triggers => cases h
  | filtered keep source ih =>
    rw [ofSource, ih h]
    rfl

/-- A source that is not fixed in advance is opened as a subscription of its own to its triggers. -/
theorem ofSource_of_no_script {source : EventSource} (h : source.script? = none) (hub : PubSub) :
    ofSource hub source =
      (⟨.subscription hub.nextId, source.keeps⟩, (hub.subscribe source.triggers).2) := by
  induction source with
  | feed steps farewell => cases h
  | topics triggers => rfl
  | filtered keep source ih =>
    rw [ofSource, ih h]
    rfl

/-! ### Visits -/

/-- What a visit comes to, compared to what has been offered: it returns the first of it, if it finds
anything, and leaves the rest, or the first of it is the panic that the visit ends in. -/
inductive Takes {α : Type} (found : α → Option Occurrence) (left : α → List Occurrence)
    (offered : List Occurrence) : Call α → Prop
  | returned {log : List String} {result : α} (h : offered = (found result).toList ++ left result) :
      Takes found left offered (.returned log result)
  | panicked {log : List String} {message : String} {later : List Occurrence}
      (h : offered = .panic message :: later) : Takes found left offered (.panicked log message)

namespace Takes

variable {α β : Type} {found : α → Option Occurrence} {left : α → List Occurrence}
  {offered : List Occurrence} {call : Call α}

/-- What is logged does not count. -/
theorem prepend (h : Takes found left offered call) (texts : List String) :
    Takes found left offered (call.prepend texts) := by
  cases h with
  | returned h => exact .returned h
  | panicked h => exact .panicked h

/-- What is found and left may be looked at in another way. -/
theorem map {found' : β → Option Occurrence} {left' : β → List Occurrence} {view : α → β}
    (h : Takes found left offered call)
    (hview : ∀ log result, call = .returned log result →
      found' (view result) = found result ∧ left' (view result) = left result) :
    Takes found' left' offered (call.map view) := by
  cases h with
  | panicked h => exact .panicked h
  | returned h =>
    obtain ⟨hfound, hleft⟩ := hview _ _ rfl
    refine .returned ?_
    rw [hfound, hleft]
    exact h

/-- **Asking a filter** about an event takes the event if it is let through, goes on with what comes later
if it is not, and takes the panic if the filter panics. -/
theorem ask {keep : EventFilter} {event : ResolverResult} {later : List Occurrence} {taken : α}
    {goOn : Call α} (hfound : found taken = some (.event event))
    (hleft : left taken = later.filterMap (Occurrence.through keep))
    (h : Takes found left (later.filterMap (Occurrence.through keep)) goOn) :
    Takes found left ((.event event :: later).filterMap (Occurrence.through keep))
      ((event.passes keep).bind fun passes => if passes then pure taken else goOn) := by
  rw [List.filterMap_cons, Occurrence.through]
  cases event.passes keep with
  -- The filter panics: the panic is what the visit finds, and nothing else is offered by it.
  | panicked log message => exact .panicked rfl
  | returned log passes =>
    cases passes with
    -- The filter drops the event, and the visit goes on to the next step.
    | false => exact h.prepend log
    -- The filter lets the event through, which ends the visit.
    | true =>
      refine .returned ?_
      rw [hfound, hleft]
      rfl

end Takes

/-- The event that a visit has found. -/
def foundEvent? (found : Poll ResolverResult) : Option Occurrence := found.item?.map .event

/-- **Following a script** takes the first thing in it that the filters leave. -/
theorem followScript_takes (keep : EventFilter) (steps : List FeedStep) :
    Takes (foundEvent? ·.1) (fun result =>
      (FeedStep.occurrences result.2).filterMap (Occurrence.through keep))
      ((FeedStep.occurrences steps).filterMap (Occurrence.through keep)) (followScript keep steps) := by
  induction steps with
  | nil => exact .returned rfl
  | cons step rest ih =>
    cases step with
    | wait => exact .returned rfl
    | say text => exact ih.prepend [text]
    | panic message => exact .panicked rfl
    | event result => exact ih.ask rfl rfl

/-- At the end of a script nothing is left of it, and before that every visit gets further. The
induction is on the script. It is what collecting a stream of a script is measured by. -/
theorem followScript_ended_or_lt {keep : EventFilter} {steps left : List FeedStep} {log : List String}
    {found : Poll ResolverResult} (h : followScript keep steps = .returned log (found, left)) :
    found = .ended ∧ left = [] ∨ found ≠ .ended ∧ left.length < steps.length := by
  induction steps generalizing log with
  | nil =>
    obtain ⟨-, rfl, rfl⟩ := h
    exact .inl ⟨rfl, rfl⟩
  | cons step rest ih =>
    -- What holds of the rest holds of the whole script, which is longer.
    have hlater {log' : List String} (hrest : followScript keep rest = .returned log' (found, left)) :
        found = .ended ∧ left = [] ∨ found ≠ .ended ∧ left.length < (step :: rest).length :=
      (ih hrest).imp_right (And.imp_right Nat.lt_succ_of_lt)
    cases step with
    | wait =>
      obtain ⟨-, rfl, rfl⟩ := h
      exact .inr ⟨by rintro ⟨⟩, Nat.lt_succ_self _⟩
    | say text =>
      obtain ⟨_, hrest⟩ := Call.exists_of_prepend_eq_returned h
      exact hlater hrest
    | panic message => cases h
    | event result =>
      -- The filter has answered, as the visit has returned.
      obtain ⟨_, passes, _, -, hnext⟩ := Call.exists_of_bind_eq_returned h
      cases passes with
      | false => exact hlater hnext
      | true =>
        obtain ⟨-, rfl, rfl⟩ := hnext
        exact .inr ⟨by rintro ⟨⟩, Nat.lt_succ_self _⟩

/-- **Taking payloads** takes the first one that the filters let through. -/
theorem takePayloads_takes (keep : EventFilter) (payloads : List FieldValue) :
    Takes (fun result => result.1.map fun payload => .event (.ok payload))
      (fun result => (result.2.map fun payload => Occurrence.event (.ok payload)).filterMap
        (Occurrence.through keep))
      ((payloads.map fun payload => Occurrence.event (.ok payload)).filterMap (Occurrence.through keep))
      (takePayloads keep payloads) := by
  induction payloads with
  | nil => exact .returned rfl
  | cons payload rest ih =>
    -- A filter is asked about payloads alone, which are events without an error.
    have hfound : (some payload).map (fun payload => Occurrence.event (.ok payload)) =
      some (.event (.ok payload)) := rfl
    exact ih.ask hfound rfl

/-- What is left are the last payloads, and none of them if nothing has been taken. -/
theorem takePayloads_left {keep : EventFilter} {payloads left : List FieldValue} {log : List String}
    {taken : Option FieldValue} (h : takePayloads keep payloads = .returned log (taken, left)) :
    left <:+ payloads ∧ (taken = none → left = []) := by
  induction payloads generalizing log with
  | nil =>
    obtain ⟨-, rfl, rfl⟩ := h
    exact ⟨List.suffix_refl [], fun _ => rfl⟩
  | cons payload rest ih =>
    -- The filter has answered, as the taking has returned.
    obtain ⟨_, passes, _, -, hnext⟩ := Call.exists_of_bind_eq_returned h
    cases passes with
    | false => exact (ih hnext).imp_left fun hsuffix => hsuffix.trans (List.suffix_cons payload rest)
    | true =>
      obtain ⟨-, rfl, rfl⟩ := hnext
      exact ⟨List.suffix_cons payload _, by rintro ⟨⟩⟩

end EventStream

namespace PubSub

variable {hub : PubSub} {id : Nat}

/-- Changing what belongs to one subscription changes what is found for it. -/
theorem inbox?_modifyInboxes_self (f : Inbox → Inbox) :
    (hub.modifyInboxes [id] f).inbox? id = (hub.inbox? id).map f := by
  -- Only the inboxes are changed, each of them by itself.
  suffices h : ∀ inboxes : List (Nat × Inbox),
      (inboxes.map fun entry =>
        if [id].contains entry.1 then (entry.1, f entry.2) else entry).lookup id =
          (inboxes.lookup id).map f from h hub.inboxes
  intro inboxes
  induction inboxes with
  | nil => rfl
  | cons entry rest ih =>
    obtain ⟨other, inbox⟩ := entry
    rw [List.map_cons]
    -- The entry is the one that is changed, or it is passed over on both sides.
    by_cases h : other = id
    · subst h
      have hself : [other].contains other = true := by simp
      rw [if_pos hself, List.lookup_cons_self, List.lookup_cons_self, Option.map_some]
    · have hne : (id == other) = false := beq_eq_false_iff_ne.mpr fun heq => h heq.symm
      have hother : ¬ [id].contains other = true := by simpa using h
      rw [if_neg hother, List.lookup_cons, List.lookup_cons, hne]
      exact ih

/-- What is left are the last payloads that have been there. -/
theorem queue_leave {left : List FieldValue} (h : left <:+ hub.queue id) :
    (hub.leave id left).queue id = left := by
  rw [leave, queue, inbox?_modifyInboxes_self]
  cases hinbox : hub.inbox? id with
  | none =>
    rw [queue, hinbox] at h
    exact (List.suffix_nil.mp h).symm
  | some inbox => rfl

/-- A subscription that is closed is not kept. -/
theorem inbox?_unsubscribe : (hub.unsubscribe id).inbox? id = none := by
  rw [unsubscribe]
  cases hinbox : hub.inbox? id with
  | none => exact hinbox
  | some inbox =>
    refine List.lookup_eq_none_iff.mpr fun entry hmem => ?_
    exact bne_iff_ne.mpr (bne_iff_ne.mp (List.mem_filter.mp hmem).2).symm

end PubSub

namespace EventStream

/-- What an open source still has to offer: what its filters leave of what happens there. -/
def offers (stream : EventStream) (hub : PubSub) : List Occurrence :=
  let occurrences := match stream.origin with
    | .feed steps _ => FeedStep.occurrences steps
    | .subscription id => (hub.queue id).map fun payload => .event (.ok payload)
  occurrences.filterMap (Occurrence.through stream.keep)

/-- A filter around a source leaves what it leaves of everything that is offered without it. -/
theorem offers_ofSource_filtered (keep : EventFilter) (source : EventSource) (hub hub' : PubSub) :
    (ofSource hub (.filtered keep source)).1.offers hub' =
      ((ofSource hub source).1.offers hub').filterMap (Occurrence.through keep) := by
  rw [offers, offers, List.filterMap_filterMap, ofSource]
  exact congrArg (List.filterMap · _) (funext fun occurrence => Occurrence.through_both _ _ occurrence)

/-- A visit of a script. -/
theorem poll_feed (steps : List FeedStep) (farewell : List String) (keep : EventFilter) (hub : PubSub) :
    poll ⟨.feed steps farewell, keep⟩ hub = (followScript keep steps).map fun result =>
      ⟨result.1, ⟨.feed result.2 farewell, keep⟩, hub⟩ :=
  Call.bind_pure_eq_map _ _

/-- A visit of publications. -/
theorem poll_subscription (id : Nat) (keep : EventFilter) (hub : PubSub) :
    poll ⟨.subscription id, keep⟩ hub = (takePayloads keep (hub.queue id)).map fun result =>
      ⟨(result.1.map fun payload => .ready (.ok payload)).getD (hub.idle id),
        ⟨.subscription id, keep⟩, hub.leave id result.2⟩ := by
  rw [← Call.bind_pure_eq_map]
  refine congrArg (Call.bind _) (funext fun result => ?_)
  obtain ⟨taken, left⟩ := result
  cases taken <;> rfl

/-- A stream that waits or has ended has found nothing. -/
theorem foundEvent?_idle (hub : PubSub) (id : Nat) : foundEvent? (hub.idle id) = none := by
  rw [PubSub.idle]
  split <;> rfl

/-- **A visit takes the first thing that is offered.** -/
theorem poll_takes (stream : EventStream) (hub : PubSub) :
    Takes (fun visit : EventVisit => foundEvent? visit.found) (fun visit => visit.stream.offers visit.hub)
      (stream.offers hub) (stream.poll hub) := by
  obtain ⟨origin, keep⟩ := stream
  cases origin with
  | feed steps farewell =>
    -- A feed offers what its script has left.
    rw [poll_feed]
    exact (followScript_takes keep steps).map fun _ _ _ => ⟨rfl, rfl⟩
  | subscription id =>
    -- A subscription offers what is queued for it, which the visit leaves in the hub.
    rw [poll_subscription]
    refine (takePayloads_takes keep (hub.queue id)).map fun log result htaken => ⟨?_, ?_⟩
    · obtain ⟨taken, left⟩ := result
      cases taken with
      | none => exact foundEvent?_idle hub id
      | some payload => rfl
    -- The payloads that were not taken are what is still queued.
    · have hqueue := PubSub.queue_leave (takePayloads_left htaken).1
      simp only [offers, hqueue]

section

variable {stream : EventStream} {hub : PubSub} {log : List String}

/-- A visit that returns finds the first event that is offered, if it finds any, and leaves the others. -/
theorem offers_of_returned {visit : EventVisit} (h : stream.poll hub = .returned log visit) :
    stream.offers hub = (foundEvent? visit.found).toList ++ visit.stream.offers visit.hub := by
  have htakes := stream.poll_takes hub
  rw [h] at htakes
  cases htakes with
  | returned hoffers => exact hoffers

/-- A visit that panics has come to a panic that is offered first. -/
theorem exists_offers_of_panicked {message : String} (h : stream.poll hub = .panicked log message) :
    ∃ later, stream.offers hub = .panic message :: later := by
  have htakes := stream.poll_takes hub
  rw [h] at htakes
  cases htakes with
  | panicked hoffers => exact ⟨_, hoffers⟩

end

/-- The subscription that a stream takes its events from. A script is none. -/
def subscription? (stream : EventStream) : Option Nat :=
  match stream.origin with
  | .feed _ _ => none
  | .subscription id => some id

/-- A visit changes neither where the events come from nor the filters. -/
theorem same_source_of_returned {stream : EventStream} {hub : PubSub} {log : List String}
    {visit : EventVisit} (h : stream.poll hub = .returned log visit) :
    visit.stream.subscription? = stream.subscription? ∧ visit.stream.keep = stream.keep := by
  obtain ⟨origin, keep⟩ := stream
  cases origin with
  | feed steps farewell =>
    rw [poll_feed] at h
    obtain ⟨_, -, rfl⟩ := Call.exists_of_map_eq_returned h
    exact ⟨rfl, rfl⟩
  | subscription id =>
    rw [poll_subscription] at h
    obtain ⟨_, -, rfl⟩ := Call.exists_of_map_eq_returned h
    exact ⟨rfl, rfl⟩

/-- What a visit takes from the source. -/
def taken? (stream : EventStream) (hub : PubSub) : Option Occurrence :=
  match stream.poll hub with
  | .returned _ visit => foundEvent? visit.found
  | .panicked _ message => some (.panic message)

/-- A stream that has ended has nothing to offer. -/
theorem offers_of_ended {stream : EventStream} {hub : PubSub} {log : List String} {visit : EventVisit}
    (h : stream.poll hub = .returned log visit) (hended : visit.found = .ended) :
    visit.stream.offers visit.hub = [] := by
  obtain ⟨origin, keep⟩ := stream
  cases origin with
  | feed steps farewell =>
    rw [poll_feed] at h
    obtain ⟨⟨found, left⟩, hscript, rfl⟩ := Call.exists_of_map_eq_returned h
    -- The script is over exactly if nothing of it is left.
    obtain rfl : left = [] :=
      ((followScript_ended_or_lt hscript).resolve_right fun hmore => hmore.1 hended).2
    rfl
  | subscription id =>
    rw [poll_subscription] at h
    obtain ⟨⟨taken, left⟩, htaken, rfl⟩ := Call.exists_of_map_eq_returned h
    obtain ⟨hsuffix, hnone⟩ := takePayloads_left htaken
    cases taken with
    | some payload => cases hended
    | none =>
      -- A subscription ends only when nothing is queued for it any more.
      have hqueue := PubSub.queue_leave hsuffix
      rw [hnone rfl] at hqueue ⊢
      simp only [offers, hqueue]
      rfl

/-! ### Release -/

/-- Publications are kept for a stream that is opened. -/
theorem isSome_inbox?_ofSource {source : EventSource} (h : source.script? = none) (hub : PubSub) :
    ((ofSource hub source).2.inbox? hub.nextId).isSome = true := by
  have hinboxes : (hub.subscribe source.triggers).2.inboxes =
    hub.inboxes ++ [(hub.nextId, ⟨source.triggers, []⟩)] := rfl
  rw [ofSource_of_no_script h, PubSub.inbox?, hinboxes, List.lookup_append, List.lookup_cons_self]
  exact Option.isSome_or.trans (Bool.or_true _)

/-- Publications are no longer kept for a stream that is closed. -/
theorem inbox?_close {stream : EventStream} {id : Nat} (h : stream.origin = .subscription id)
    (hub : PubSub) : (stream.close hub).2.inbox? id = none := by
  rw [close, h]
  exact PubSub.inbox?_unsubscribe

end EventStream

end GraphQL
