import GraphQL.Json.Decode

/-!
# Configuration

The settings that every request executed against a schema shares.
-/

namespace GraphQL

/-- The settings of the engine. -/
structure Config where
  /-- Variable coercion stops once this many errors have been found. -/
  maxVariableErrors : Nat
  /-- Whether the causes of errors are shown to clients. -/
  exposeErrorCauses : Bool
  /-- Whether the root fields of a mutation run one after the other. -/
  serialMutations : Bool
  /-- Whether a resolver that panics counts as one that fails. -/
  catchResolverPanics : Bool
deriving DecidableEq, Repr

namespace Config

/-- The settings where nothing else is said. -/
def standard : Config := ⟨50, false, true, true⟩

/-- The names of the settings, in the order of their JSON form. -/
def memberNames : List String :=
  ["max_variable_errors", "expose_error_causes", "serial_mutations", "catch_resolver_panics"]

/-- Reads one setting. -/
def readMember (config : Config) (name : String) (value : Json) : Except DecodeError Config :=
  match name with
  | "max_variable_errors" => do return { config with maxVariableErrors := ← value.asNat UInt64.size }
  | "expose_error_causes" => do return { config with exposeErrorCauses := ← value.asBool }
  | "serial_mutations" => do return { config with serialMutations := ← value.asBool }
  | "catch_resolver_panics" => do return { config with catchResolverPanics := ← value.asBool }
  | _ => .error .unknownField

/-- Reads settings; those left out are the standard ones, and no others are allowed. -/
def ofJson (json : Json) : Except DecodeError Config :=
  json.readRecord memberNames readMember standard

/-- The settings as JSON. -/
def toJson (config : Config) : Json :=
  .object [("max_variable_errors", Json.ofNat config.maxVariableErrors),
    ("expose_error_causes", .bool config.exposeErrorCauses),
    ("serial_mutations", .bool config.serialMutations),
    ("catch_resolver_panics", .bool config.catchResolverPanics)]

end Config

end GraphQL
