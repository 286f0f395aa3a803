/-!
# Error codes

The code of an error tells which phase of a request failed. Four codes are raised before anything
is executed; a response with such an error is a bad request.
-/

namespace GraphQL

/-- The phase in which an error arose. -/
inductive ErrorCode where
  | badRequest
  | internalServerError
  | operationParsingError
  | operationSelectionError
  | variableError
  | argumentError
  | resolverError
  | valueCompletionError
  | typeResolutionError
deriving DecidableEq, Repr

namespace ErrorCode

/-- All codes, in the order of their numbers. -/
def all : List ErrorCode :=
  [.badRequest, .internalServerError, .operationParsingError, .operationSelectionError,
    .variableError, .argumentError, .resolverError, .valueCompletionError, .typeResolutionError]

/-- The name that clients see. -/
def name : ErrorCode → String
  | .badRequest => "BAD_REQUEST"
  | .internalServerError => "INTERNAL_SERVER_ERROR"
  | .operationParsingError => "OPERATION_PARSING_ERROR"
  | .operationSelectionError => "OPERATION_SELECTION_ERROR"
  | .variableError => "VARIABLE_ERROR"
  | .argumentError => "ARGUMENT_ERROR"
  | .resolverError => "RESOLVER_ERROR"
  | .valueCompletionError => "VALUE_COMPLETION_ERROR"
  | .typeResolutionError => "TYPE_RESOLUTION_ERROR"

/-- The code of the given name. -/
def ofName? (name : String) : Option ErrorCode := all.find? fun code => code.name == name

/-- The number of a code. -/
def number (code : ErrorCode) : Nat := all.idxOf code

/-- The code of the given number. -/
def ofNumber? (number : Nat) : Option ErrorCode := all[number]?

/-- Whether an error of this code keeps the operation from being executed at all. -/
def isRequestFatal : ErrorCode → Bool
  | .badRequest | .operationParsingError | .operationSelectionError | .variableError => true
  | _ => false

/-- The HTTP status of an error, and its weight when several errors compete for the status. -/
def statusWithPriority : ErrorCode → Nat × Nat
  | .badRequest | .operationParsingError | .operationSelectionError | .variableError => (400, 1000)
  | .argumentError | .resolverError | .valueCompletionError | .typeResolutionError => (200, 100)
  | .internalServerError => (500, 0)

/-- The HTTP status of an error. -/
def status (code : ErrorCode) : Nat := code.statusWithPriority.1

theorem ofName?_name (code : ErrorCode) : ofName? code.name = some code := by
  cases code <;> decide

theorem ofNumber?_number (code : ErrorCode) : ofNumber? code.number = some code := by
  cases code <;> decide

theorem isRequestFatal_iff_status (code : ErrorCode) :
    code.isRequestFatal = true ↔ code.status = 400 := by
  cases code <;> decide

end ErrorCode

end GraphQL
