import GraphQL.Json.Decode
import GraphQL.Value.Text

/-!
# Variables

The variables of a request by name, either as the client sent them or coerced to their declared
types. Names are in the order of their code points, whatever the order they came in.
-/

namespace GraphQL

/-- Values by variable name, in the order of the names. -/
structure Variables where
  entries : List (String × Value)

namespace Variables

/-- No variables. -/
def empty : Variables := ⟨[]⟩

instance : Inhabited Variables := ⟨empty⟩

/-- Puts an entry at its place in the order of names. -/
def insertEntry (name : String) (value : Value) :
    List (String × Value) → List (String × Value)
  | [] => [(name, value)]
  | (other, old) :: rest =>
      if name < other then (name, value) :: (other, old) :: rest
      else if name = other then (name, value) :: rest
      else (other, old) :: insertEntry name value rest

/-- Sets a variable. -/
def insert (vars : Variables) (name : String) (value : Value) : Variables :=
  ⟨insertEntry name value vars.entries⟩

/-- Removes a variable. -/
def erase (vars : Variables) (name : String) : Variables :=
  ⟨Entries.erase vars.entries name⟩

/-- The value of a variable. -/
def get? (vars : Variables) (name : String) : Option Value :=
  Entries.get? vars.entries name

/-- The variables with the given values. -/
def ofEntries (entries : List (String × Value)) : Variables :=
  entries.foldl (fun vars entry => vars.insert entry.1 entry.2) empty

/-- The variables that an object holds; any other value holds none. -/
def ofValue : Value → Variables
  | .object entries => ofEntries entries
  | _ => empty

/-- The variables that a JSON object holds; any other value holds none. -/
def ofJson (json : Json) : Variables := ofValue (.ofJson json)

/-- Reads the variables of a request: an object, or null for none. -/
def decode : Json → Except DecodeError Variables
  | .null => .ok empty
  | .object entries => .ok (ofJson (.object entries))
  | _ => .error .invalidType

/-- The variables as an object. -/
def toValue (vars : Variables) : Value := .object vars.entries

/-- The variables as JSON. -/
def toJson (vars : Variables) : Json := vars.toValue.toJson

/-- The text of the variables in messages. -/
def text (vars : Variables) : String := vars.toValue.text

/-- Whether two sets of variables have the same names and equal values. -/
def same (a b : Variables) : Bool := Value.same a.toValue b.toValue

end Variables

end GraphQL
