import GraphQL.Request
import GraphQL.Subscription.Events

/-!
# Streams of responses

A subscription is answered by one response per event: the operation is executed with the payload of
the event as root value, one event after the other. Errors of the event source are responses too and
do not end the stream. Queries, mutations and requests that cannot be executed have a single response.

A `ResponseStream` does nothing until it is visited for the first time. `ResponseStream.poll` is one
visit, which goes on until there is a response or something has to be waited for; and
`ResponseStream.collect` visits a stream again and again. The event source is closed by the visit that
finds its end, or else together with the stream.
-/

namespace GraphQL

namespace ExecutionContext

/-- Calls the subscriber of a field of the root type. -/
def callSubscriber (ctx : ExecutionContext) (root : ObjectType) (key : String) (node : Field)
    (nodes : List Field) : Except Abort (Call (Except GraphQLError (QueryPath × EventSource))) :=
  let path := QueryPath.empty.field key root.name
  let located (error : GraphQLError) : GraphQLError :=
    (error.withLocations (nodes.map FieldNode.location)).withPath path.toErrorPath
  match root.field? node.name with
  | none =>
      .ok (pure (.error (located
        (.new s!"The subscription field '{node.name}' is not defined." .badRequest))))
  | some definition =>
      match (ctx.schema.fieldHooks root.name node.name).subscriber with
      | none =>
          .ok (pure (.error (located
            (.new s!"Subscription field '{node.name}' has no subscriber." .internalServerError))))
      | some subscriber =>
          match Coercion.coerceArguments ctx.schema.types definition node ctx.vars with
          | .error .endless => .error .endless
          | .error (.invalid error) => .ok (pure (.error (error.withPath path.toErrorPath)))
          | .ok arguments =>
              let info := ctx.resolveInfo root definition node.name nodes path
              .ok (do
                match ← subscriber ⟨ctx.rootValue, arguments, info, ctx.context⟩ with
                | .ok source => return .ok (path, source)
                | .error error => return .error (located error.toGraphQLError))

/-- The event source of a subscription, which is that of its first root field, with the place of that
field. -/
def eventSource (ctx : ExecutionContext) :
    Except Abort (Call (Except GraphQLError (QueryPath × EventSource))) :=
  match ctx.rootType? with
  | none => .error .unreachable
  | some root =>
      match ctx.collectFields root [ctx.operation.selections] with
      | [] =>
          .ok (pure (.error (.new "Subscription must select one top level field." .badRequest)))
      | (_, []) :: _ => .error .outOfBounds
      | (key, node :: nodes) :: _ => ctx.callSubscriber root key node (node :: nodes)

/-- The response that reports an error without any data. -/
def errorResponse (ctx : ExecutionContext) (error : GraphQLError) : Response :=
  (Response.mk .null [error]).withExposedCauses ctx.schema.config.exposeErrorCauses

end ExecutionContext

/-- A subscription with an open event source. -/
structure Subscription where
  ctx : ExecutionContext
  /-- The place of the root field. -/
  path : QueryPath
  events : EventStream

/-- The responses to an operation that are still to come. -/
inductive ResponseStream where
  /-- Nothing has happened yet. -/
  | unstarted (schema : Schema) (document : Document) (params : ExecutionParams)
  /-- The only response is being made. -/
  | answering (run : Run Response)
  /-- The next event is waited for. -/
  | listening (subscription : Subscription)
  /-- The response to an event is being made. -/
  | responding (subscription : Subscription) (run : Run Response)
  /-- There are no further responses. -/
  | ended

/-- What a visit logs and finds, and what is left. -/
structure Visit where
  log : List Event
  found : Except Abort (Poll Response)
  stream : ResponseStream
  hub : PubSub

namespace Visit

/-- Logs texts in front of everything else. -/
def prepend (texts : List String) (visit : Visit) : Visit :=
  { visit with log := texts.map .said ++ visit.log }

end Visit

namespace Subscription

/-- The response of the operation to a payload. -/
def respondTo (subscription : Subscription) (payload : FieldValue) : Run Response :=
  (subscription.ctx.forEvent payload).respond

/-- The response to an error of the event source. -/
def errorResponse (subscription : Subscription) (error : ResolverError) : Response :=
  subscription.ctx.errorResponse (error.toGraphQLError.withPath subscription.path.toErrorPath)

/-- Goes on with the response to an event. -/
def proceed (subscription : Subscription) (hub : PubSub) : Run Response → Visit
  | .finish log response => ⟨log, .ok (.ready response), .listening subscription, hub⟩
  | .suspend log rest => ⟨log, .ok .pending, .responding subscription rest, hub⟩
  | .abort log why =>
      let (farewell, hub) := subscription.events.close hub
      ⟨log ++ farewell.map .said, .error why, .ended, hub⟩

/-- Replies to what a visit of the event source has found. -/
def reply (subscription : Subscription) (hub : PubSub) : Poll ResolverResult → Visit
  | .ready (.ok payload) => subscription.proceed hub (subscription.respondTo payload)
  | .ready (.error error) =>
      ⟨[], .ok (.ready (subscription.errorResponse error)), .listening subscription, hub⟩
  | .pending => ⟨[], .ok .pending, .listening subscription, hub⟩
  | .ended =>
      let (farewell, hub) := subscription.events.close hub
      ⟨farewell.map .said, .ok .ended, .ended, hub⟩

/-- Waits for the next event and starts with the response to it. A panic of the event source or of a
filter ends the stream, like one of the execution. -/
def poll (subscription : Subscription) (hub : PubSub) : Visit :=
  match subscription.events.poll hub with
  | .panicked log message => subscription.proceed hub (.abort (log.map .said) (.panicked message))
  | .returned log visit =>
      (reply { subscription with events := visit.stream } visit.hub visit.found).prepend log

end Subscription

namespace ResponseStream

/-- The responses to an operation of a document. -/
def subscribe (schema : Schema) (document : Document) (params : ExecutionParams) :
    ResponseStream := .unstarted schema document params

/-- The stream of a single response. -/
def single (response : Response) : ResponseStream := .answering (.finish [] response)

/-- Goes on with the only response. -/
def proceed (hub : PubSub) : Run Response → Visit
  | .finish log response => ⟨log, .ok (.ready response), .ended, hub⟩
  | .suspend log rest => ⟨log, .ok .pending, .answering rest, hub⟩
  | .abort log why => ⟨log, .error why, .ended, hub⟩

/-- Opens the event source of a subscription and waits for the first event. -/
def startSubscription (ctx : ExecutionContext) (hub : PubSub) : Visit :=
  match ctx.eventSource with
  | .error why => proceed hub (.abort [] why)
  | .ok (.panicked log message) => proceed hub (.abort (log.map .said) (.panicked message))
  | .ok (.returned log (.error error)) =>
      proceed hub (.finish (log.map .said) (ctx.errorResponse error))
  | .ok (.returned log (.ok (path, source))) =>
      let (events, hub) := EventStream.ofSource hub source
      (Subscription.poll ⟨ctx, path, events⟩ hub).prepend log

/-- Starts the execution of an operation. -/
def start (schema : Schema) (document : Document) (params : ExecutionParams) (hub : PubSub) :
    Visit :=
  match ExecutionContext.build schema document params with
  | .error why => proceed hub (.abort [] why)
  | .ok (.error errors) => proceed hub (.finish [] (.requestError errors))
  | .ok (.ok ctx) =>
      if ctx.operation.type == .subscription then startSubscription ctx hub
      else proceed hub ctx.respond

/-- Visits the stream for the next response. -/
def poll (stream : ResponseStream) (hub : PubSub) : Visit :=
  match stream with
  | .unstarted schema document params => start schema document params hub
  | .answering run => proceed hub run
  | .listening subscription => subscription.poll hub
  | .responding subscription run => subscription.proceed hub run
  | .ended => ⟨[], .ok .ended, .ended, hub⟩

/-- The open event source, if there is one. -/
def events? : ResponseStream → Option EventStream
  | .listening subscription | .responding subscription _ => some subscription.events
  | .unstarted _ _ _ | .answering _ | .ended => none

/-- Gives the stream up and closes the event source, if it is open. -/
def close (stream : ResponseStream) (hub : PubSub) : List String × PubSub :=
  match stream.events? with
  | some events => events.close hub
  | none => ([], hub)

/-- Whether the stream is yet to be started. -/
def isUnstarted : ResponseStream → Bool
  | .unstarted _ _ _ => true
  | _ => false

/-- How many visits the response that is being made still takes. -/
def visitsLeft : ResponseStream → Nat
  | .answering run | .responding _ run => run.polls + 1
  | .unstarted _ _ _ | .listening _ | .ended => 0

/-- How far a stream is from its end, as long as nothing is published: whether it is to be started,
what there is of its events, and how many visits the response in the making takes. -/
def distance (stream : ResponseStream) (hub : PubSub) : Nat × Nat × Nat :=
  (stream.isUnstarted.toNat, (stream.events?.map (·.size hub)).getD 0, stream.visitsLeft)

/-- Whether a distance is shorter than another: the first difference decides. -/
def Closer (a b : Nat × Nat × Nat) : Prop :=
  a.1 < b.1 ∨ a.1 = b.1 ∧ (a.2.1 < b.2.1 ∨ a.2.1 = b.2.1 ∧ a.2.2 < b.2.2)

instance (a b : Nat × Nat × Nat) : Decidable (Closer a b) := by unfold Closer; infer_instance

/-- Why a stream is not visited any more. -/
inductive Ending where
  /-- It has no further responses. -/
  | ended
  /-- No further responses are wanted. -/
  | satisfied
  /-- Nothing happens before something is published. -/
  | waiting
  | aborted (why : Abort)
deriving DecidableEq, Repr

/-- What visiting a stream has come to. -/
structure Transcript where
  log : List Event
  responses : List Response
  ending : Ending
  hub : PubSub

/-- Gives the stream up after the given events and responses. -/
def stop (log : List Event) (responses : List Response) (ending : Ending) (stream : ResponseStream)
    (hub : PubSub) : Transcript :=
  let (farewell, hub) := stream.close hub
  ⟨log ++ farewell.map .said, responses, ending, hub⟩

/-- Visits the stream as long as more responses are wanted than there are and visits get it closer to
its end, and then gives it up. -/
def collectFrom (wanted : List Response → Bool) (log : List Event) (responses : List Response)
    (stream : ResponseStream) (hub : PubSub) : Transcript :=
  if wanted responses then
    let visit := stream.poll hub
    let log := log ++ visit.log
    match visit.found with
    | .error why => stop log responses (.aborted why) visit.stream visit.hub
    | .ok .ended => stop log responses .ended visit.stream visit.hub
    | .ok found =>
        let responses := match found with
          | .ready response => responses ++ [response]
          | _ => responses
        if Closer (visit.stream.distance visit.hub) (stream.distance hub) then
          collectFrom wanted log responses visit.stream visit.hub
        else stop log responses .waiting visit.stream visit.hub
  else stop log responses .satisfied stream hub
termination_by stream.distance hub
decreasing_by
  rename_i closer
  simpa [Prod.lex_def, Closer] using closer

/-- The responses of a stream, as long as more of them are wanted than there are. -/
def collect (wanted : List Response → Bool) (stream : ResponseStream) (hub : PubSub) : Transcript :=
  collectFrom wanted [] [] stream hub

end ResponseStream

/-- The responses to a request. -/
def Schema.responses (schema : Schema) (request : Request) : ResponseStream :=
  match request.document with
  | .error response => .single response
  | .ok document => .subscribe schema document request.params

end GraphQL
