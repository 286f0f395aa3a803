import GraphQL.Json.Basic

/-!
# Reading records from JSON

What can be wrong with a JSON value that should be a record, and the readers of its members. Members
are visited in the order of the keys, so the first fault in the text is the one reported; a member
that must be present is looked for afterwards.
-/

namespace GraphQL

/-- What is wrong with a JSON value that should be a record. -/
inductive DecodeError where
  | unknownField
  | missingField
  | unknownVariant
  | invalidType
  | invalidValue
  | invalidLength
deriving DecidableEq, Repr

/-- The name of a fault. -/
def DecodeError.name : DecodeError → String
  | .unknownField => "unknown field"
  | .missingField => "missing field"
  | .unknownVariant => "unknown variant"
  | .invalidType => "invalid type"
  | .invalidValue => "invalid value"
  | .invalidLength => "invalid length"

namespace Json

/-- Reads a string. -/
def asString : Json → Except DecodeError String
  | .string s => .ok s
  | _ => .error .invalidType

/-- Reads a truth value. -/
def asBool : Json → Except DecodeError Bool
  | .bool b => .ok b
  | _ => .error .invalidType

/-- Reads an integer from zero up to below the given bound. -/
def asNat (bound : Nat) : Json → Except DecodeError Nat
  | .number (.int n) => if 0 ≤ n ∧ n < bound then .ok n.toNat else .error .invalidValue
  | _ => .error .invalidType

/-- Reads a record: the members visited in order, starting from a record of defaults. A record may
also be written as the list of its members, of which the last ones may be left out. -/
def readRecord {α : Type} (names : List String) (member : α → String → Json → Except DecodeError α)
    (start : α) : Json → Except DecodeError α
  | .object entries => entries.foldlM (fun record entry => member record entry.1 entry.2) start
  | .array items => do
      let record ← (names.zip items).foldlM (fun record entry => member record entry.1 entry.2) start
      if names.length < items.length then .error .invalidLength else .ok record
  | _ => .error .invalidType

end Json

end GraphQL
