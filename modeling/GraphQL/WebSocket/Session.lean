import GraphQL.Subscription.Stream
import GraphQL.WebSocket.Message

/-!
# Answering messages over a websocket

A message that starts an operation is answered with one `data` message per response and a final
`complete`, all under the id of the client. If the operation cannot be executed there is a single
`error` message in place of the data.
-/

namespace GraphQL

namespace WebSocket

/-- The messages that answer a message, and what happens meanwhile. -/
structure Reply where
  log : List Event
  messages : List ServerMessage
  /-- Whether there are no further messages, or why not. -/
  ending : ResponseStream.Ending
  hub : PubSub

/-- The message that carries a response. -/
def responseMessage (id : String) (response : Response) : ServerMessage :=
  if response.isRequestError then .error id response.errors else .data id response

/-- Executes an operation up to the first response that says that it cannot be executed. -/
def startOperation (schema : Schema) (id : String) (request : Request) (hub : PubSub) : Reply :=
  let wanted (responses : List Response) : Bool := !responses.any Response.isRequestError
  let transcript := (schema.responses request).collect wanted hub
  let last : List ServerMessage :=
    match transcript.ending with
    | .ended | .satisfied => [.complete id]
    | .waiting | .aborted _ => []
  ⟨transcript.log, transcript.responses.map (responseMessage id) ++ last, transcript.ending,
    transcript.hub⟩

/-- Answers a message. -/
def handleMessage (schema : Schema) (message : ClientMessage) (hub : PubSub) : Reply :=
  match message with
  | .connectionInit _ => ⟨[], [.connectionAck], .ended, hub⟩
  | .start id request => startOperation schema id request hub
  | .stop id => ⟨[], [.complete id], .ended, hub⟩
  | .connectionTerminate => ⟨[], [], .ended, hub⟩

end WebSocket

end GraphQL
