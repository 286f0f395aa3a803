import GraphQL.Execution.Basic

/-!
# Requests

A request is the text of a query document with the name of the operation to execute, values for its
variables, and a value for the callbacks of the schema. Clients send all but the last as JSON.

`Schema.answer` reads the document and executes it. A text that is no document is answered with the
one error that says why.
-/

namespace GraphQL

/-- What a client asks for. -/
structure Request where
  query : String := ""
  operationName : Option String := none
  vars : Variables := .empty
  /-- A value that is handed to every resolver; it is not part of the JSON form. -/
  context : Option Value := none

namespace Request

/-- A request without anything but the text of the document. -/
def ofQuery (query : String) : Request := { query }

/-- The names of the members of the JSON form, in order. -/
def memberNames : List String := ["query", "operationName", "variables"]

/-- Reads one member. The name of the operation may be null, as if it were left out. -/
def readMember (request : Request) (name : String) (value : Json) : Except DecodeError Request :=
  match name, value with
  | "query", query => do return { request with query := ← query.asString }
  | "operationName", .null => .ok { request with operationName := none }
  | "operationName", operationName => do
      return { request with operationName := some (← operationName.asString) }
  | "variables", vars => do return { request with vars := ← Variables.decode vars }
  | _, _ => .ok request

/-- Reads a request. Every member may be left out, and further ones are ignored. -/
def ofJson (json : Json) : Except DecodeError Request := json.readRecord memberNames readMember {}

/-- The request as JSON, without the name of the operation if there is none. -/
def toJson (request : Request) : Json :=
  .object ([("query", .string request.query)] ++
    request.operationName.toList.map (fun name => ("operationName", .string name)) ++
    [("variables", request.vars.toJson)])

/-- What the request adds to the schema and its document. -/
def params (request : Request) : ExecutionParams where
  context := request.context
  vars := request.vars
  operationName := request.operationName

/-- The document of the request, or the response that says why its text is none. -/
def document (request : Request) : Except Response Document :=
  (Document.parse request.query).mapError fun error =>
    .requestError [(GraphQLError.new error.message .operationParsingError).withLocations error.locations]

end Request

/-- Answers a request with a single response. -/
def Schema.answer (schema : Schema) (request : Request) : Run Response :=
  match request.document with
  | .error response => .finish [] response
  | .ok document => execute schema document request.params

end GraphQL
