import GraphQL.Decimal.Format
import GraphQL.Decimal.Reading

/-!
# Numbers

A number is an integer or a float, and the two are never equal. An integer literal within the range
of 64-bit words, signed or unsigned, is an integer. Every other literal is a float: that of its
leading digits, as many as a word holds, scaled by a power of ten.
-/

namespace GraphQL

/-- An integer or a float. -/
inductive Number where
  | int (value : Int)
  | float (value : Float)

/-- A number as it is written: sign, digits before and after the point, exponent. -/
structure NumberLiteral where
  negative : Bool
  whole : List Char
  /-- The digits after the point, if there is one. -/
  fraction : Option (List Char)
  /-- The exponent, if there is one. -/
  exponent : Option Int

/-- The value of a digit. -/
def digitValue (c : Char) : Nat := c.toNat - '0'.toNat

/-- The number that decimal digits stand for. -/
def ofDigits (digits : List Char) : Nat := digits.foldl (fun n c => 10 * n + digitValue c) 0

/-- Appends digits to a number for as long as a word of 64 bits holds it, and gives the digits that
are left. -/
def appendWithinWord : Nat → List Char → Nat × List Char
  | n, [] => (n, [])
  | n, c :: rest =>
      let longer := 10 * n + digitValue c
      if longer < UInt64.size then appendWithinWord longer rest else (n, c :: rest)

namespace NumberLiteral

/-- A float with the sign of the literal. -/
def withSign (l : NumberLiteral) (f : Float) : Float := if l.negative then -f else f

/-- The magnitude of the literal. -/
def magnitude (l : NumberLiteral) : Decimal :=
  let fraction := l.fraction.getD []
  ⟨ofDigits (l.whole ++ fraction), l.exponent.getD 0 - fraction.length⟩

/-- The magnitude of the literal in as many of its digits as a word holds. The digits before the point
that are left out count in the exponent only; those after the point follow the ones that were taken,
where there is still room for them. -/
def leadingMagnitude (l : NumberLiteral) : Decimal :=
  let fraction := l.fraction.getD []
  let (whole, omitted) := appendWithinWord 0 l.whole
  let (digits, ignored) := appendWithinWord whole fraction
  ⟨digits, l.exponent.getD 0 + omitted.length - (fraction.length - ignored.length : Nat)⟩

/-- The float nearest to the literal. -/
def nearestFloat (l : NumberLiteral) : Float := l.withSign l.magnitude.nearestFloat

/-- The float that the leading digits of the literal are scaled to. -/
def scaledFloat (l : NumberLiteral) : Float := l.withSign l.leadingMagnitude.scaledFloat

end NumberLiteral

namespace Number

/-- The integers that a literal can denote: the words of 64 bits, signed or unsigned. -/
def isIntegerRange (n : Int) : Bool := -9223372036854775808 ≤ n && n ≤ 18446744073709551615

/-- The number that a literal denotes. Minus zero is a float. -/
def ofLiteral (l : NumberLiteral) : Number :=
  match l.fraction, l.exponent with
  | none, none =>
      let n : Int := if l.negative then -(ofDigits l.whole : Int) else ofDigits l.whole
      if isIntegerRange n && !(l.negative && n == 0) then .int n else .float l.scaledFloat
  | _, _ => .float l.scaledFloat

/-- Whether the number has no infinite value. -/
def isFinite : Number → Bool
  | .int _ => true
  | .float f => f.isFinite

/-- Numbers are equal as integers or as floats; the two zeros are equal. -/
def same : Number → Number → Bool
  | .int a, .int b => a == b
  | .float a, .float b => a == b
  | _, _ => false

instance : BEq Number := ⟨same⟩

/-- Whether the number is an integer. -/
def isInt : Number → Bool
  | .int _ => true
  | .float _ => false

/-- The nearest float. -/
def toFloat : Number → Float
  | .int n => Float.ofInt n
  | .float f => f

/-- Floats are written positionally from `0.00001` to below `1e16`. -/
def floatFormat : DecimalFormat := ⟨-5, 15⟩

/-- The text of a float: the shortest digits that read back. -/
def floatText (f : Float) : String :=
  match BinaryParts.ofFloat? f with
  | none => if f == Decimal.infinity then "inf" else if f == -Decimal.infinity then "-inf" else "NaN"
  | some parts =>
      let magnitude :=
        if parts.mantissa = 0 then "0.0" else (RoundingInterval.ofParts parts).shortest.text floatFormat
      if parts.negative then "-" ++ magnitude else magnitude

/-- The text of a number. -/
def text : Number → String
  | .int n => toString n
  | .float f => floatText f

instance : ToString Number := ⟨text⟩

end Number

end GraphQL
