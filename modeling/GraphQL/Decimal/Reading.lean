import GraphQL.Decimal.Shortest

/-!
# Floats from decimals

The two ways from a decimal to a float.

* `Decimal.nearestFloat` is the float nearest to the decimal.
* `Decimal.scaledFloat` rounds twice: first the digits, then their product or quotient with a power of
  ten. It is exact where digits and power are floats; otherwise it may miss the nearest float by a
  little.
-/

namespace GraphQL

namespace Decimal

/-- The positive infinite float. -/
def infinity : Float := Float.ofBits 0x7FF0000000000000

/-- The float nearest to a decimal, ties to even. Magnitudes out of the range of floats are settled
before any power is formed. -/
def nearestFloat (d : Decimal) : Float :=
  let magnitude := d.scientificExponent
  if d.digits = 0 ∨ magnitude < -330 then 0.0
  else if 310 < magnitude then infinity
  else Float.ofScientific d.digits (d.exponent < 0) d.exponent.natAbs

/-- The exponent of the greatest power of ten within the range of floats. -/
def greatestPower : Nat := 308

/-- The float nearest to a power of ten. -/
def floatPowerOfTen (exponent : Nat) : Float := Float.ofScientific 1 false exponent

/-- Divides a float by a power of ten. A power beyond the range of floats is divided by in several
steps, as long as there is anything left. -/
def divideByPower (f : Float) (exponent : Nat) : Float :=
  if exponent ≤ greatestPower then f / floatPowerOfTen exponent
  else if f == 0.0 then f
  else divideByPower (f / floatPowerOfTen greatestPower) (exponent - greatestPower)
termination_by exponent
decreasing_by
  simp only [greatestPower] at *
  omega

/-- The rounded digits times, or divided by, the rounded power of ten. -/
def scaledFloat (d : Decimal) : Float :=
  let digits := Float.ofNat d.digits
  if d.exponent < 0 then divideByPower digits d.exponent.natAbs
  else if d.exponent ≤ greatestPower then digits * floatPowerOfTen d.exponent.natAbs
  else if d.digits = 0 then 0.0
  else infinity

end Decimal

end GraphQL
