/-!
# The parts of a float

A finite float is `±mantissa * 2 ^ exponent` with natural mantissa; `BinaryParts.ofFloat?` reads these parts
off its bits.
-/

namespace GraphQL

/-- A power of two. -/
def powerOfTwo (exponent : Nat) : Nat := Nat.pow 2 exponent

/-- The number `±mantissa * 2 ^ exponent`. -/
structure BinaryParts where
  negative : Bool
  mantissa : Nat
  exponent : Int
deriving DecidableEq, Repr

namespace BinaryParts

/-- The bits after the binary point of a mantissa. -/
def fractionBits : Nat := 52

/-- The exponent of the last bit of the smallest floats. -/
def leastExponent : Int := -1074

/-- The parts of a finite float. -/
def ofFloat? (f : Float) : Option BinaryParts :=
  let bits : Nat := f.toBits.toNat
  let negative := bits / powerOfTwo 63 == 1
  let fraction : Nat := bits % powerOfTwo fractionBits
  let biased : Nat := bits / powerOfTwo fractionBits % powerOfTwo 11
  if biased = 2047 then none
  else if biased = 0 then some ⟨negative, fraction, leastExponent⟩
  else some ⟨negative, powerOfTwo fractionBits + fraction, (biased : Int) - 1 + leastExponent⟩

/-- Whether the next smaller float is closer than the next greater one. -/
def isLeastOfBinade (p : BinaryParts) : Bool :=
  p.mantissa == powerOfTwo fractionBits && leastExponent < p.exponent

/-- The number, if it is an integer. -/
def toInt? (p : BinaryParts) : Option Int :=
  let magnitude : Option Nat :=
    if 0 ≤ p.exponent then some (p.mantissa * powerOfTwo p.exponent.toNat)
    else
      let unit := powerOfTwo (-p.exponent).toNat
      if p.mantissa % unit = 0 then some (p.mantissa / unit) else none
  magnitude.map fun n => if p.negative then -(n : Int) else n

end BinaryParts

end GraphQL
