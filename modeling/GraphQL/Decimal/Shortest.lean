import GraphQL.Decimal.Binary

/-!
# The shortest decimal that reads back as a float

A finite float stands for every real number that rounds to it. Among the decimals in that
interval, `Shortest.digits?` picks one with the fewest digits, and of those the nearest to the float
itself. Everything is exact arithmetic on natural numbers.
-/

namespace GraphQL

/-- A power of ten. -/
def powerOfTen (exponent : Nat) : Nat := Nat.pow 10 exponent

/-- The number `digits * 10 ^ exponent`. -/
structure Decimal where
  digits : Nat
  exponent : Int
deriving DecidableEq, Repr

namespace Decimal

/-- The number of decimal digits of a natural number. -/
def width (n : Nat) : Nat := (Nat.toDigits 10 n).length

/-- Moves the trailing zeros of the digits into the exponent, at most `fuel` of them. -/
def stripZeros : Nat → Decimal → Decimal
  | 0, d => d
  | fuel + 1, d =>
      if d.digits ≠ 0 ∧ d.digits % 10 = 0 then stripZeros fuel ⟨d.digits / 10, d.exponent + 1⟩ else d

/-- The exponent of the first digit, as scientific notation writes it. -/
def scientificExponent (d : Decimal) : Int := d.exponent + width d.digits - 1

end Decimal

/-- A positive float with the reals that round to it, as fractions over one denominator. -/
structure RoundingInterval where
  lower : Nat
  value : Nat
  upper : Nat
  denominator : Nat
  /-- Whether the ends round to the float as well. -/
  closed : Bool
deriving Repr

namespace RoundingInterval

/-- The interval of the magnitude of a float that is not zero. The gap below is half as wide when the
mantissa is the least one of its binade. -/
def ofParts (p : BinaryParts) : RoundingInterval :=
  let below := 4 * p.mantissa - (if p.isLeastOfBinade then 1 else 2)
  let above := 4 * p.mantissa + 2
  let shift := p.exponent - 2
  let factor := powerOfTwo shift.toNat
  ⟨below * factor, 4 * p.mantissa * factor, above * factor, powerOfTwo (-shift).toNat,
    p.mantissa % 2 == 0⟩

/-- The exponent of the first digit of the value in scientific notation. -/
def magnitude (i : RoundingInterval) : Int :=
  if i.denominator ≤ i.value then (Decimal.width (i.value / i.denominator) : Int) - 1
  else -(Decimal.width ((i.denominator + i.value - 1) / i.value - 1) : Int)

/-- Whether a decimal lies in the interval. -/
def contains (i : RoundingInterval) (d : Decimal) : Bool :=
  let scaled := d.digits * powerOfTen d.exponent.toNat * i.denominator
  let unit := powerOfTen (-d.exponent).toNat
  if i.closed then i.lower * unit ≤ scaled && scaled ≤ i.upper * unit
  else i.lower * unit < scaled && scaled < i.upper * unit

/-- The two neighbours of the value among the multiples of `10 ^ exponent`, the nearer one first; of
two equally near ones the one with the even last digit. -/
def neighbours (i : RoundingInterval) (exponent : Int) : List Decimal :=
  let numerator := i.value * powerOfTen (-exponent).toNat
  let denominator := i.denominator * powerOfTen exponent.toNat
  let floor := numerator / denominator
  let rest := numerator % denominator
  let low : Decimal := ⟨floor, exponent⟩
  let high : Decimal := ⟨floor + 1, exponent⟩
  if 2 * rest < denominator ∨ (2 * rest = denominator ∧ floor % 2 = 0) then [low, high]
  else [high, low]

/-- The decimal with the given number of digits that is nearest to the value, if it rounds to it. -/
def withDigits? (i : RoundingInterval) (count : Nat) : Option Decimal :=
  (i.neighbours (i.magnitude - count + 1)).find? i.contains

/-- The shortest decimal in the interval. Seventeen digits always suffice. -/
def shortest (i : RoundingInterval) : Decimal :=
  (((List.range 17).findSome? fun n => i.withDigits? (n + 1)).getD ⟨0, 0⟩).stripZeros 17

end RoundingInterval

end GraphQL
