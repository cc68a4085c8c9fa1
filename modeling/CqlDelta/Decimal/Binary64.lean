/-!
# From decimal parts to a double

A decimal number is taken as an integer coefficient that fits 64 bits and a power of ten. Its double
is the coefficient's double, multiplied or divided once by the double of the power; a power beyond
the largest finite one is applied in steps. The result is not always the nearest double, and the
order of the operations is part of the number format.
-/

namespace CqlDelta
namespace Decimal

/-- The largest exponent whose power of ten is a finite double. -/
def largestPower : Nat := 308

/-- The double nearest to a power of ten. -/
def tenTo (exponent : Nat) : Float :=
  Float.ofScientific 1 false exponent

/-- Divides by a power of ten, in steps of the largest finite power. Zero stays zero. -/
def divideByTen (value : Float) (exponent : Nat) : Float :=
  if exponent ≤ largestPower then
    value / tenTo exponent
  else if value == 0 then
    value
  else
    divideByTen (value / tenTo largestPower) (exponent - largestPower)
termination_by exponent
decreasing_by simp only [largestPower] at *; omega

/-- Multiplies by a power of ten; `none` if the result is not finite. -/
def multiplyByTen (value : Float) (exponent : Nat) : Option Float :=
  if exponent ≤ largestPower then
    let product := value * tenTo exponent
    if product.isInf then none else some product
  else if value == 0 then
    some value
  else
    none

/-- The double of a coefficient times a power of ten; `none` if it is out of range. -/
def toFloat? (coefficient : UInt64) (exponent : Int) : Option Float :=
  match exponent with
  | .ofNat n => multiplyByTen coefficient.toFloat n
  | .negSucc n => some (divideByTen coefficient.toFloat (n + 1))

end Decimal
end CqlDelta
