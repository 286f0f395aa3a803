import GraphQL.Error.Basic
import GraphQL.Value.Basic

/-!
# Responses

The data and the errors that a request is answered with.
-/

namespace GraphQL

/-- The answer to a request. -/
structure Response where
  data : Value
  errors : List GraphQLError

namespace Response

/-- The answer to a request that could not be executed at all. -/
def requestError (errors : List GraphQLError) : Response := ⟨.null, errors⟩

/-- Copies the causes of the errors into their extensions, if they are to be exposed. -/
def withExposedCauses (response : Response) (expose : Bool) : Response :=
  if expose then { response with errors := response.errors.map GraphQLError.exposeCause }
  else response

/-- Whether there are no errors. -/
def isOk (response : Response) : Bool := response.errors.isEmpty

/-- Whether an error kept the operation from being executed. -/
def isRequestError (response : Response) : Bool := response.errors.any GraphQLError.isRequestFatal

/-- The HTTP status of the response. Errors of fields are part of a successful response. -/
def status (response : Response) : Nat := if response.isRequestError then 400 else 200

/-- The response as JSON; the errors are left out when there are none. -/
def toJson (response : Response) : Json :=
  let errors :=
    if response.errors.isEmpty then []
    else [("errors", Json.array (response.errors.map GraphQLError.toJson))]
  .object (("data", response.data.toJson) :: errors)

end Response

end GraphQL
