import GraphQL.Subscription.PubSub

/-!
# Streams of events

An event source that has been opened. It is visited for the next event, which skips what the filters
of the source leave out, and it is closed when nobody is interested in further events.

A visit is a call: it logs what the source and its filters report, and it panics if one of them does.
What has been taken before the panic is lost, so nothing is said of what is left then.
-/

namespace GraphQL

/-- Where the events of an open source come from. -/
inductive EventOrigin where
  /-- The rest of a script, and the texts logged when it is released. -/
  | feed (steps : List FeedStep) (farewell : List String)
  /-- The subscription of the given number. -/
  | subscription (id : Nat)

/-- An open source of events. -/
structure EventStream where
  origin : EventOrigin
  /-- All filters of the source. -/
  keep : EventFilter

/-- What a visit of an event stream finds, and what is left. -/
structure EventVisit where
  found : Poll ResolverResult
  stream : EventStream
  hub : PubSub

namespace EventStream

/-- Opens a source. -/
def ofSource (hub : PubSub) : EventSource → EventStream × PubSub
  | .feed steps farewell => (⟨.feed steps farewell, .all⟩, hub)
  | .topics triggers =>
      let (id, hub) := hub.subscribe triggers
      (⟨.subscription id, .all⟩, hub)
  | .filtered keep source =>
      let (stream, hub) := ofSource hub source
      ({ stream with keep := stream.keep.both keep }, hub)

/-- Follows a script up to the next event that passes, and gives the rest of it. -/
def followScript (keep : EventFilter) : List FeedStep → Call (Poll ResolverResult × List FeedStep)
  | [] => pure (.ended, [])
  | .wait :: rest => pure (.pending, rest)
  | .say text :: rest => do
      Call.say text
      followScript keep rest
  | .panic message :: _ => .panicked [] message
  | .event result :: rest => do
      if ← result.passes keep then return (.ready result, rest) else followScript keep rest

/-- Takes payloads up to the first one that passes, and gives the rest of them. -/
def takePayloads (keep : EventFilter) : List FieldValue → Call (Option FieldValue × List FieldValue)
  | [] => pure (none, [])
  | payload :: rest => do
      if ← keep payload then return (some payload, rest) else takePayloads keep rest

/-- Visits the stream for the next event. -/
def poll (stream : EventStream) (hub : PubSub) : Call EventVisit :=
  match stream.origin with
  | .feed steps farewell => do
      let (found, rest) ← followScript stream.keep steps
      return ⟨found, { stream with origin := .feed rest farewell }, hub⟩
  | .subscription id => do
      let (taken, left) ← takePayloads stream.keep (hub.queue id)
      let found := match taken with
        | some payload => .ready (.ok payload)
        | none => hub.idle id
      return ⟨found, stream, hub.leave id left⟩

/-- Closes the stream and gives what is logged then. -/
def close (stream : EventStream) (hub : PubSub) : List String × PubSub :=
  match stream.origin with
  | .feed _ farewell => (farewell, hub)
  | .subscription id => ([], hub.unsubscribe id)

/-- How much of the stream is there to be visited: the rest of its script, or the payloads that it has
not taken yet. -/
def size (stream : EventStream) (hub : PubSub) : Nat :=
  match stream.origin with
  | .feed steps _ => steps.length
  | .subscription id => (hub.queue id).length

end EventStream

end GraphQL
