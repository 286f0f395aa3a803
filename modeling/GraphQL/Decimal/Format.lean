import GraphQL.Decimal.Shortest

/-!
# Decimal text

How a decimal is written, as data: between which exponents it is written positionally, and how the
exponent looks otherwise.
-/

namespace GraphQL

/-- Which exponents of the first digit are written positionally. -/
structure DecimalFormat where
  leastPositional : Int
  greatestPositional : Int

namespace Decimal

/-- `count` zeros. -/
def zeros (count : Nat) : String := String.ofList (List.replicate count '0')

/-- The digits with a point in them, and at least one digit on either side of it. -/
def positional (d : Decimal) : String :=
  let digits := Nat.toDigits 10 d.digits
  if 0 ≤ d.exponent then String.ofList digits ++ zeros d.exponent.toNat ++ ".0"
  else
    let places := (-d.exponent).toNat
    if digits.length ≤ places then "0." ++ zeros (places - digits.length) ++ String.ofList digits
    else String.ofList (digits.take (digits.length - places)) ++ "." ++
      String.ofList (digits.drop (digits.length - places))

/-- The first digit, a point and the others if there are any, and the signed exponent. -/
def scientific (d : Decimal) : String :=
  let exponent := d.scientificExponent
  let fraction := (Nat.toDigits 10 d.digits).drop 1
  String.ofList ((Nat.toDigits 10 d.digits).take 1) ++
    (if fraction.isEmpty then "" else "." ++ String.ofList fraction) ++
    (if exponent < 0 then "e-" else "e+") ++ toString exponent.natAbs

/-- The text of a decimal. -/
def text (format : DecimalFormat) (d : Decimal) : String :=
  let exponent := d.scientificExponent
  if format.leastPositional ≤ exponent && exponent ≤ format.greatestPositional then d.positional
  else d.scientific

end Decimal

end GraphQL
