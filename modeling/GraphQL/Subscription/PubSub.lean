import GraphQL.Subscription.Source

/-!
# Publishing and subscribing

Payloads are published under triggers and reach every subscription that listens to the trigger at
that time. A subscription takes its payloads in the order in which they were published, each of them
once.

`PubSub` keeps for every trigger the subscriptions that listen to it, and for every subscription the
payloads that it has not taken yet. Triggers that nobody listens to are not in the table, so it is
empty again once all subscriptions are gone.
-/

namespace GraphQL

/-- What belongs to one subscription. -/
structure Inbox where
  /-- The triggers that it listens to. -/
  triggers : List String
  /-- The payloads that it has not taken yet, the oldest one first. -/
  queue : List FieldValue

/-- All subscriptions. -/
structure PubSub where
  /-- The number of the next subscription. -/
  nextId : Nat
  /-- The subscriptions that listen to each trigger. -/
  byTrigger : Entries (List Nat)
  inboxes : List (Nat × Inbox)

namespace PubSub

/-- No subscriptions. -/
def empty : PubSub := ⟨0, [], []⟩

instance : Inhabited PubSub := ⟨empty⟩

/-- Lets a subscription listen to a trigger. -/
def listen (table : Entries (List Nat)) (id : Nat) (trigger : String) : Entries (List Nat) :=
  let known := (Entries.get? table trigger).getD []
  if known.contains id then table else Entries.insert table trigger (known ++ [id])

/-- Lets a subscription no longer listen to a trigger. A trigger without any subscription leaves the
table. -/
def unlisten (table : Entries (List Nat)) (id : Nat) (trigger : String) : Entries (List Nat) :=
  match Entries.get? table trigger with
  | none => table
  | some known =>
      match known.filter (· != id) with
      | [] => Entries.erase table trigger
      | left => Entries.insert table trigger left

/-- Opens a subscription to some triggers and gives its number. -/
def subscribe (hub : PubSub) (triggers : List String) : Nat × PubSub :=
  (hub.nextId,
    { nextId := hub.nextId + 1
      byTrigger := triggers.foldl (listen · hub.nextId) hub.byTrigger
      inboxes := hub.inboxes ++ [(hub.nextId, ⟨triggers, []⟩)] })

/-- What belongs to the subscription of the given number. -/
def inbox? (hub : PubSub) (id : Nat) : Option Inbox := hub.inboxes.lookup id

/-- Closes a subscription. -/
def unsubscribe (hub : PubSub) (id : Nat) : PubSub :=
  match hub.inbox? id with
  | none => hub
  | some inbox =>
      { hub with
        byTrigger := inbox.triggers.foldl (unlisten · id) hub.byTrigger
        inboxes := hub.inboxes.filter fun entry => entry.1 != id }

/-- The subscriptions that listen to a trigger. -/
def listeners (hub : PubSub) (trigger : String) : List Nat :=
  (Entries.get? hub.byTrigger trigger).getD []

/-- How many subscriptions listen to a trigger. -/
def subscriberCount (hub : PubSub) (trigger : String) : Nat := (hub.listeners trigger).length

/-- Changes what belongs to some of the subscriptions. -/
def modifyInboxes (hub : PubSub) (ids : List Nat) (f : Inbox → Inbox) : PubSub :=
  { hub with
    inboxes := hub.inboxes.map fun entry =>
      if ids.contains entry.1 then (entry.1, f entry.2) else entry }

/-- Publishes a payload under a trigger and counts the subscriptions that it reaches. -/
def publish (hub : PubSub) (trigger : String) (payload : FieldValue) : Nat × PubSub :=
  let ids := hub.listeners trigger
  (ids.length,
    hub.modifyInboxes ids fun inbox => { inbox with queue := inbox.queue ++ [payload] })

/-- Whether a subscription listens to any trigger. -/
def isListening (hub : PubSub) (id : Nat) : Bool :=
  hub.byTrigger.any fun entry => entry.2.contains id

/-- The payloads that a subscription has not taken yet. -/
def queue (hub : PubSub) (id : Nat) : List FieldValue := ((hub.inbox? id).map Inbox.queue).getD []

/-- Leaves a subscription the given payloads, which are the last ones that it has not taken yet. -/
def leave (hub : PubSub) (id : Nat) (left : List FieldValue) : PubSub :=
  hub.modifyInboxes [id] fun inbox => { inbox with queue := left }

/-- What a subscription finds that has taken all its payloads: it waits, or has ended if it does not
listen to any trigger. -/
def idle {α : Type} (hub : PubSub) (id : Nat) : Poll α :=
  if hub.isListening id then .pending else .ended

/-- Takes the oldest payload of a subscription. -/
def poll (hub : PubSub) (id : Nat) : Poll FieldValue × PubSub :=
  match hub.queue id with
  | payload :: left => (.ready payload, hub.leave id left)
  | [] => (hub.idle id, hub)

end PubSub

end GraphQL
