import GraphQL.Json.Basic

/-!
# Reading JSON text

A recursive descent reader on characters. Every nested value consumes a character, so the length of
the text bounds the depth of the recursion.
-/

namespace GraphQL

/-- The value of a hexadecimal digit. -/
def hexValue? (c : Char) : Option Nat :=
  if c.isDigit then some (digitValue c)
  else if 'a' ≤ c ∧ c ≤ 'f' then some (c.toNat - 'a'.toNat + 10)
  else if 'A' ≤ c ∧ c ≤ 'F' then some (c.toNat - 'A'.toNat + 10)
  else none

/-- The number that four hexadecimal digits stand for. -/
def hex4? (a b c d : Char) : Option Nat := do
  return (((← hexValue? a) * 16 + (← hexValue? b)) * 16 + (← hexValue? c)) * 16 + (← hexValue? d)

namespace Json

/-- A reader takes characters off the front of a text. -/
abbrev Reader (α : Type) := StateT (List Char) Option α

namespace Reader

/-- Skips white space. -/
def skipBlank : Reader Unit :=
  modify fun cs => cs.dropWhile fun c => c == ' ' || c == '\n' || c == '\t' || c == '\r'

/-- Takes the longest stretch of digits. -/
def digits : Reader (List Char) := do
  let cs ← get
  set (cs.dropWhile Char.isDigit)
  return cs.takeWhile Char.isDigit

/-- Takes the given character. -/
def char (c : Char) : Reader Unit := do
  match ← get with
  | d :: rest => if c = d then set rest else failure
  | [] => failure

/-- Takes the given text. -/
def word (text : String) : Reader Unit := text.toList.forM char

/-- Whether the given character follows; takes it if so. -/
def optional (c : Char) : Reader Bool := do
  match ← get with
  | d :: rest => if c = d then set rest; return true else return false
  | [] => return false

/-- Takes at least one digit. -/
def digits1 : Reader (List Char) := do
  let ds ← digits
  if ds.isEmpty then failure
  return ds

/-- Reads an exponent, if there is one. -/
def exponent? : Reader (Option Int) := do
  let lower ← optional 'e'
  let marked ← if lower then pure true else optional 'E'
  if marked then
    let negative ← optional '-'
    unless negative do discard (optional '+')
    let n := ofDigits (← digits1)
    return some (if negative then -n else n)
  return none

/-- Reads a number. -/
def number : Reader Number := do
  let negative ← optional '-'
  let whole ← digits1
  if whole.length > 1 ∧ whole.head? = some '0' then failure
  let fraction ← if ← optional '.' then some <$> digits1 else pure none
  let n := Number.ofLiteral ⟨negative, whole, fraction, ← exponent?⟩
  if n.isFinite then return n else failure

/-- The character of an escape of one letter. -/
def simpleEscape? (c : Char) : Option Char :=
  match c with
  | '"' => some '"'
  | '\\' => some '\\'
  | '/' => some '/'
  | 'b' => some (Char.ofNat 8)
  | 'f' => some (Char.ofNat 12)
  | 'n' => some '\n'
  | 'r' => some '\r'
  | 't' => some '\t'
  | _ => none

/-- The characters of a string after its opening quote, and what follows the closing one. A pair of
escapes in the surrogate range stands for one character. -/
def stringChars : Nat → List Char → Option (List Char × List Char)
  | 0, _ => none
  | _ + 1, [] => none
  | _ + 1, '"' :: rest => some ([], rest)
  | fuel + 1, '\\' :: 'u' :: a :: b :: c :: d :: rest => do
      let unit ← hex4? a b c d
      if 0xD800 ≤ unit ∧ unit < 0xDC00 then
        match rest with
        | '\\' :: 'u' :: a :: b :: c :: d :: rest =>
            let low ← hex4? a b c d
            if 0xDC00 ≤ low ∧ low < 0xE000 then
              let (cs, rest) ← stringChars fuel rest
              return (Char.ofNat (0x10000 + (unit - 0xD800) * 0x400 + (low - 0xDC00)) :: cs, rest)
            else none
        | _ => none
      else if 0xDC00 ≤ unit ∧ unit < 0xE000 then none
      else
        let (cs, rest) ← stringChars fuel rest
        return (Char.ofNat unit :: cs, rest)
  | fuel + 1, '\\' :: e :: rest => do
      let c ← simpleEscape? e
      let (cs, rest) ← stringChars fuel rest
      return (c :: cs, rest)
  | fuel + 1, c :: rest =>
      if c.toNat < 32 then none else do
        let (cs, rest) ← stringChars fuel rest
        return (c :: cs, rest)

/-- Reads a string. -/
def string : Reader String := do
  char '"'
  let cs ← get
  let (content, rest) ← liftM (stringChars (cs.length + 1) cs)
  set rest
  return String.ofList content

/-- Reads items separated by commas up to a closing character; the first item has not been read. -/
def separated {α : Type} (item : Reader α) (close : Char) : Nat → Reader (List α)
  | 0 => failure
  | fuel + 1 => do
      let first ← item
      skipBlank
      if ← optional ',' then return first :: (← separated item close fuel)
      char close
      return [first]

/-- Reads what stands between an opening character, already taken, and a closing one. -/
def bracketed {α : Type} (item : Reader α) (close : Char) : Reader (List α) := do
  skipBlank
  if ← optional close then return []
  separated item close ((← get).length + 1)

/-- Reads a value, nested at most `fuel` deep, with the white space around it. -/
def value : Nat → Reader Json
  | 0 => failure
  | fuel + 1 => do
      skipBlank
      let parsed ← match (← get).head? with
        | some '"' => Json.string <$> string
        | some '[' => do
            char '['
            pure <| .array (← bracketed (value fuel) ']')
        | some '\x7b' => do
            char '\x7b'
            let entry : Reader (String × Json) := do
              skipBlank
              let key ← string
              skipBlank
              char ':'
              pure (key, ← value fuel)
            pure <| .object (← bracketed entry '\x7d')
        | some 't' => do
            word "true"
            pure <| .bool true
        | some 'f' => do
            word "false"
            pure <| .bool false
        | some 'n' => do
            word "null"
            pure .null
        | _ => Json.number <$> number
      skipBlank
      return parsed

end Reader

/-- Reads a text that is one JSON value with white space around it. -/
def parse? (text : String) : Option Json :=
  let cs := text.toList
  match (Reader.value (cs.length + 1)).run cs with
  | some (json, []) => some json
  | _ => none

end Json

end GraphQL
