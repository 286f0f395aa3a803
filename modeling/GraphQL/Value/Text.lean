import GraphQL.Value.Basic

/-!
# The text of a value

How values appear in messages: strings quoted, enum names bare, lists as `[a, b]` and objects as
keys and values between braces.
-/

namespace GraphQL

namespace Value

/-- Whether a character is a control character, the Unicode category Cc. -/
def isControl (c : Char) : Bool := c.toNat < 0x20 || (0x7F ≤ c.toNat && c.toNat < 0xA0)

/-- A number with at least four decimal digits. -/
def padded4 (n : Nat) : List Char :=
  let digits := Nat.toDigits 10 n
  List.replicate (4 - digits.length) '0' ++ digits

/-- A character inside a quoted string. Control characters without a letter of their own are written
with their decimal code. -/
def escapeChar (c : Char) : List Char :=
  if c = '\r' then ['\\', 'r']
  else if c = '\n' then ['\\', 'n']
  else if c = '\t' then ['\\', 't']
  else if c = '"' then ['\\', '"']
  else if c = '\\' then ['\\', '\\']
  else if isControl c then '\\' :: 'u' :: padded4 c.toNat
  else [c]

/-- A string in quotes. -/
def quote (s : String) : String :=
  "\"" ++ String.ofList (s.toList.flatMap escapeChar) ++ "\""

/-- Texts as a list. -/
def listText (texts : List String) : String := "[" ++ ", ".intercalate texts ++ "]"

/-- Texts of entries as an object. -/
def objectText (texts : List String) : String := "\x7b" ++ ", ".intercalate texts ++ "\x7d"

mutual

/-- The text of a value. -/
def text : Value → String
  | .null => "null"
  | .bool true => "true"
  | .bool false => "false"
  | .number n => n.text
  | .string s => quote s
  | .enum name => name
  | .binary bytes => listText (bytes.map fun byte => toString byte.toNat)
  | .list items => listText (itemTexts items)
  | .object entries => objectText (entryTexts entries)

/-- The texts of items. -/
def itemTexts : List Value → List String
  | [] => []
  | item :: rest => text item :: itemTexts rest

/-- The texts of entries. -/
def entryTexts : List (String × Value) → List String
  | [] => []
  | (key, value) :: rest => (key ++ ": " ++ text value) :: entryTexts rest

end

instance : ToString Value := ⟨text⟩

end Value

end GraphQL
