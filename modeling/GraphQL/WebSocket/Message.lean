import GraphQL.Request

/-!
# Messages over a websocket

What client and server send each other under the protocol `graphql-ws`. Every message is a JSON object
whose member `type` says what it is.
-/

namespace GraphQL

namespace WebSocket

/-- The name under which the protocol is agreed upon. -/
def protocolName : String := "graphql-ws"

/-- What a client sends. -/
inductive ClientMessage where
  /-- Opens the connection. -/
  | connectionInit (payload : Option Json)
  /-- Asks for an operation to be executed. -/
  | start (id : String) (payload : Request)
  /-- Is no longer interested in an operation. -/
  | stop (id : String)
  /-- Closes the connection. -/
  | connectionTerminate

/-- What a server sends. -/
inductive ServerMessage where
  /-- Accepts the connection. -/
  | connectionAck
  /-- Refuses the connection. -/
  | connectionError (payload : Json)
  /-- A response to an operation. -/
  | data (id : String) (payload : Response)
  /-- The errors that kept an operation from being executed. -/
  | error (id : String) (payload : List GraphQLError)
  /-- There are no further responses to an operation. -/
  | complete (id : String)
  /-- Keeps the connection from being closed. -/
  | keepAlive

namespace ClientMessage

/-- The kinds of messages. -/
inductive Kind where
  | connectionInit
  | start
  | stop
  | connectionTerminate
deriving DecidableEq, Repr

/-- The kind of the given name. -/
def Kind.ofName? : String → Option Kind
  | "connection_init" => some .connectionInit
  | "start" => some .start
  | "stop" => some .stop
  | "connection_terminate" => some .connectionTerminate
  | _ => none

/-- The members of a message that have been read so far. -/
structure Members where
  id : Option String
  request : Option Request

/-- Reads one member of a message that starts an operation. -/
def readStartMember (members : Members) (entry : String × Json) : Except DecodeError Members :=
  match entry.1 with
  | "id" => do return { members with id := some (← entry.2.asString) }
  | "payload" => do return { members with request := some (← Request.ofJson entry.2) }
  | _ => .ok members

/-- Reads one member of a message that stops an operation. -/
def readStopMember (members : Members) (entry : String × Json) : Except DecodeError Members :=
  match entry.1 with
  | "id" => do return { members with id := some (← entry.2.asString) }
  | _ => .ok members

/-- Reads the members of a message of a known kind. -/
def readMembers (entries : List (String × Json)) : Kind → Except DecodeError ClientMessage
  | .connectionInit =>
      match Entries.get? entries "payload" with
      | none | some .null => .ok (.connectionInit none)
      | some payload => .ok (.connectionInit (some payload))
  | .start => do
      let members ← entries.foldlM readStartMember ⟨none, none⟩
      match members.id, members.request with
      | some id, some request => return .start id request
      | _, _ => throw .missingField
  | .stop => do
      let members ← entries.foldlM readStopMember ⟨none, none⟩
      match members.id with
      | some id => return .stop id
      | none => throw .missingField
  | .connectionTerminate => .ok .connectionTerminate

/-- Reads a message; its kind comes first, wherever it is written. -/
def ofJson : Json → Except DecodeError ClientMessage
  | .object entries =>
      match Entries.get? entries "type" with
      | none => .error .missingField
      | some type => do
          match Kind.ofName? (← type.asString) with
          | some kind => readMembers entries kind
          | none => throw .unknownVariant
  | _ => .error .invalidType

/-- The message as JSON. -/
def toJson : ClientMessage → Json
  | .connectionInit payload =>
      .object (("type", .string "connection_init") ::
        payload.toList.map fun payload => ("payload", payload))
  | .start id payload =>
      .object [("type", .string "start"), ("id", .string id), ("payload", payload.toJson)]
  | .stop id => .object [("type", .string "stop"), ("id", .string id)]
  | .connectionTerminate => .object [("type", .string "connection_terminate")]

end ClientMessage

namespace ServerMessage

/-- Refuses the connection for the given reason. -/
def refuse (message : String) : ServerMessage :=
  .connectionError (.object [("message", .string message)])

/-- The message as JSON. -/
def toJson : ServerMessage → Json
  | .connectionAck => .object [("type", .string "connection_ack")]
  | .connectionError payload =>
      .object [("type", .string "connection_error"), ("payload", payload)]
  | .data id payload =>
      .object [("type", .string "data"), ("id", .string id), ("payload", payload.toJson)]
  | .error id payload =>
      .object [("type", .string "error"), ("id", .string id),
        ("payload", .array (payload.map GraphQLError.toJson))]
  | .complete id => .object [("type", .string "complete"), ("id", .string id)]
  | .keepAlive => .object [("type", .string "ka")]

end ServerMessage

end WebSocket

end GraphQL
