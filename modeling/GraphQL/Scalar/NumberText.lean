import GraphQL.Number

/-!
# Numbers in strings

The texts that resolvers may return in place of a number.
-/

namespace GraphQL.NumberText

/-- Splits a sign off. -/
def splitSign : List Char → Bool × List Char
  | '-' :: rest => (true, rest)
  | '+' :: rest => (false, rest)
  | cs => (false, cs)

/-- The signed integers of 32 bits. -/
def isInt32 (n : Int) : Bool := -2147483648 ≤ n && n ≤ 2147483647

/-- Reads an integer of 32 bits: an optional sign and digits. -/
def int32? (text : String) : Option Int :=
  let (negative, digits) := splitSign text.toList
  if digits.isEmpty || !digits.all Char.isDigit then none
  else
    let n : Int := if negative then -(ofDigits digits : Int) else ofDigits digits
    if isInt32 n then some n else none

/-- Reads the exponent behind the digits of a number, if there is one. -/
def exponent? : List Char → Option (Option Int)
  | [] => some none
  | c :: rest =>
      if c = 'e' ∨ c = 'E' then
        let (negative, digits) := splitSign rest
        if digits.isEmpty || !digits.all Char.isDigit then none
        else some (some (if negative then -(ofDigits digits : Int) else ofDigits digits))
      else none

/-- Reads a finite float: an optional sign, digits with an optional point among, before or behind
them, and an optional exponent. -/
def float? (text : String) : Option Float := do
  let (negative, cs) := splitSign text.toList
  let whole := cs.takeWhile Char.isDigit
  let rest := cs.dropWhile Char.isDigit
  let (fraction, rest) := match rest with
    | '.' :: rest => (rest.takeWhile Char.isDigit, rest.dropWhile Char.isDigit)
    | rest => ([], rest)
  if whole.isEmpty && fraction.isEmpty then none
  let literal : NumberLiteral := ⟨negative, whole, some fraction, ← exponent? rest⟩
  if literal.nearestFloat.isFinite then return literal.nearestFloat else none

end GraphQL.NumberText
