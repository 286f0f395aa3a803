import GraphQL.Json.Basic

/-!
# Constant values

The values that variables hold, that arguments are coerced to and that responses are made of. A
value is a JSON value with two more forms: a bare enum name and a binary blob.

`Value.same` is the equality of the engine: an enum and a string of the same text are equal, and the
order of the keys of an object does not matter.
-/

namespace GraphQL

/-- A constant value. -/
inductive Value where
  | null
  | bool (value : Bool)
  | number (value : Number)
  | string (value : String)
  | enum (name : String)
  | binary (bytes : List UInt8)
  | list (items : List Value)
  | object (entries : List (String × Value))

instance : Inhabited Value := ⟨.null⟩

/-- What a message calls the form of a value. -/
inductive ValueKind where
  | string
  | integer
  | enum
  | float
  | object
  | boolean
  | list
  | null
  | binary
deriving DecidableEq, Repr

/-- The name of a kind. -/
def ValueKind.name : ValueKind → String
  | .string => "String"
  | .integer => "Integer"
  | .enum => "Enum"
  | .float => "Float"
  | .object => "Object"
  | .boolean => "Boolean"
  | .list => "List"
  | .null => "Null"
  | .binary => "Binary"

namespace Value

/-- An integer. -/
def int (n : Int) : Value := .number (.int n)

/-- The kind of a value. -/
def kind : Value → ValueKind
  | .null => .null
  | .bool _ => .boolean
  | .number (.int _) => .integer
  | .number (.float _) => .float
  | .string _ => .string
  | .enum _ => .enum
  | .binary _ => .binary
  | .list _ => .list
  | .object _ => .object

/-- Whether the value is null. -/
def isNull : Value → Bool
  | .null => true
  | _ => false

mutual

/-- The equality of the engine. -/
def same : Value → Value → Bool
  | .null, .null => true
  | .bool a, .bool b => a == b
  | .number a, .number b => a == b
  | .string a, .string b | .string a, .enum b | .enum a, .string b | .enum a, .enum b => a == b
  | .binary as, .binary bs => as == bs
  | .list as, .list bs => sameItems as bs
  | .object as, .object bs => as.length == bs.length && sameEntries as bs
  | _, _ => false

/-- Item by item equality. -/
def sameItems : List Value → List Value → Bool
  | [], [] => true
  | a :: as, b :: bs => same a b && sameItems as bs
  | _, _ => false

/-- Whether each entry of the first list has an equal one in the second. -/
def sameEntries : List (String × Value) → List (String × Value) → Bool
  | [], _ => true
  | (key, a) :: as, bs =>
      (match Entries.get? bs key with
        | some b => same a b
        | none => false) && sameEntries as bs

end

instance : BEq Value := ⟨same⟩

mutual

/-- The value of a JSON value. -/
def ofJson : Json → Value
  | .null => .null
  | .bool b => .bool b
  | .number n => .number n
  | .string s => .string s
  | .array items => .list (ofJsonItems items)
  | .object entries => .object (ofJsonEntries entries)

/-- `ofJson` on every item. -/
def ofJsonItems : List Json → List Value
  | [] => []
  | item :: rest => ofJson item :: ofJsonItems rest

/-- `ofJson` on every entry. -/
def ofJsonEntries : List (String × Json) → List (String × Value)
  | [] => []
  | (key, value) :: rest => (key, ofJson value) :: ofJsonEntries rest

end

/-- A byte as a JSON number. -/
def byteJson (byte : UInt8) : Json := Json.ofNat byte.toNat

mutual

/-- The JSON form of a value: an enum name is a string, a blob an array of bytes. -/
def toJson : Value → Json
  | .null => .null
  | .bool b => .bool b
  | .number n => .number n
  | .string s => .string s
  | .enum name => .string name
  | .binary bytes => .array (bytes.map byteJson)
  | .list items => .array (toJsonItems items)
  | .object entries => .object (toJsonEntries entries)

/-- `toJson` on every item. -/
def toJsonItems : List Value → List Json
  | [] => []
  | item :: rest => toJson item :: toJsonItems rest

/-- `toJson` on every entry. -/
def toJsonEntries : List (String × Value) → List (String × Json)
  | [] => []
  | (key, value) :: rest => (key, toJson value) :: toJsonEntries rest

end

end Value

end GraphQL
