import GraphQL.Entries
import GraphQL.Number

/-!
# JSON values

The tree of a JSON text. Objects keep the order of their keys and may hold a key twice, as the texts
themselves may; `Json.same` is equality up to the order of keys and `Json.collapse` is the tree in
which every key occurs once.
-/

namespace GraphQL

/-- A JSON value. -/
inductive Json where
  | null
  | bool (value : Bool)
  | number (value : Number)
  | string (value : String)
  | array (items : List Json)
  | object (entries : List (String × Json))

instance : Inhabited Json := ⟨.null⟩

namespace Json

mutual

/-- Equality up to the order of keys. -/
def same : Json → Json → Bool
  | .null, .null => true
  | .bool a, .bool b => a == b
  | .number a, .number b => a == b
  | .string a, .string b => a == b
  | .array as, .array bs => sameItems as bs
  | .object as, .object bs => as.length == bs.length && sameEntries as bs
  | _, _ => false

/-- Item by item equality. -/
def sameItems : List Json → List Json → Bool
  | [], [] => true
  | a :: as, b :: bs => same a b && sameItems as bs
  | _, _ => false

/-- Whether each entry of the first list has an equal one in the second. -/
def sameEntries : List (String × Json) → List (String × Json) → Bool
  | [], _ => true
  | (key, a) :: as, bs =>
      (match Entries.get? bs key with
        | some b => same a b
        | none => false) && sameEntries as bs

end

instance : BEq Json := ⟨same⟩

mutual

/-- Keeps the first place and the last value of every repeated key. -/
def collapse : Json → Json
  | .array items => .array (collapseItems items)
  | .object entries => .object (Entries.ofPairs (collapseEntries entries))
  | value => value

/-- `collapse` on every item. -/
def collapseItems : List Json → List Json
  | [] => []
  | item :: rest => collapse item :: collapseItems rest

/-- `collapse` on every value. -/
def collapseEntries : List (String × Json) → List (String × Json)
  | [] => []
  | (key, value) :: rest => (key, collapse value) :: collapseEntries rest

end

/-- A natural number. -/
def ofNat (n : Nat) : Json := .number (.int n)

/-- A value that may be absent, with null for absence. -/
def ofOption {α : Type} (encode : α → Json) : Option α → Json
  | none => .null
  | some a => encode a

/-- The value under a key of an object. -/
def get? : Json → String → Option Json
  | .object entries, key => Entries.get? entries key
  | _, _ => none

end Json

end GraphQL
