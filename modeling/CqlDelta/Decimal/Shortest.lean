/-!
# Shortest decimal text of a double

A finite positive double is `m · 2 ^ q`. The reals that round to it form an interval, whose ends
belong to it if `m` is even. Its shortest decimal is the multiple of the largest power of ten that
lies in the interval: of two such neighbours the nearer one, and on a tie the even one. All
arithmetic is on natural numbers.
-/

namespace CqlDelta
namespace Decimal

/-- A finite double without its sign: `mantissa · 2 ^ exponent`. The gap below it is half the gap
above it if `narrow` holds. -/
structure Dyadic where
  mantissa : Nat
  exponent : Int
  narrow : Bool
deriving DecidableEq, Repr

/-- The sizes of the parts of a double: 52 bits of fraction. -/
def fractionBits : Nat := 52

/-- Whether the sign bit is set. -/
def isNegative (bits : UInt64) : Bool :=
  decide (bits.toNat / Nat.pow 2 63 = 1)

/-- The value of a finite double's bits, without its sign. -/
def Dyadic.ofBits (bits : UInt64) : Dyadic :=
  let fraction : Nat := bits.toNat % Nat.pow 2 fractionBits
  let biased : Nat := (bits.toNat / Nat.pow 2 fractionBits) % Nat.pow 2 11
  if biased = 0 then
    ⟨fraction, -1074, false⟩
  else
    ⟨fraction + Nat.pow 2 fractionBits, (biased : Int) - 1075, decide (fraction = 0 ∧ 1 < biased)⟩

/-- A decimal number `coefficient · 10 ^ exponent`. -/
structure Scientific where
  coefficient : Nat
  exponent : Int
deriving DecidableEq, Repr

/-- The numerator of `2 ^ q / 10 ^ k`. -/
def scaleUp (q k : Int) : Nat :=
  Nat.pow 2 q.toNat * Nat.pow 10 (-k).toNat

/-- The denominator of `2 ^ q / 10 ^ k`. -/
def scaleDown (q k : Int) : Nat :=
  Nat.pow 2 (-q).toNat * Nat.pow 10 k.toNat

/-- The coefficient of the multiple of `10 ^ k` that stands for the double, if one rounds to it.

All quantities are in quarters of the double's unit: the double is `4 m`, and the interval reaches
from two quarters (one, if the gap below is narrow) under it to two quarters over it. -/
def onGrid? (value : Dyadic) (k : Int) : Option Nat :=
  let up := scaleUp (value.exponent - 2) k
  let down := scaleDown (value.exponent - 2) k
  let center := 4 * value.mantissa * up
  let low := (4 * value.mantissa - if value.narrow then 1 else 2) * up
  let high := (4 * value.mantissa + 2) * up
  let closed := value.mantissa % 2 == 0
  let inside (n : Nat) : Bool :=
    (low < n * down && n * down < high) || (closed && (n * down == low || n * down == high))
  let below := center / down
  let above := below + 1
  let left := center - below * down
  let right := above * down - center
  match inside below && 0 < below, inside above with
  | true, true =>
      if left < right then some below
      else if right < left then some above
      else if below % 2 == 0 then some below else some above
  | true, false => some below
  | false, true => some above
  | false, false => none

/-- The least exponent of a grid that is searched. -/
def leastGrid : Int := -324

/-- Searches the grids from `10 ^ (leastGrid + steps)` down to `10 ^ leastGrid`. -/
def searchGrid (value : Dyadic) : Nat → Option Scientific
  | 0 => (onGrid? value leastGrid).map fun n => ⟨n, leastGrid⟩
  | steps + 1 =>
      match onGrid? value (leastGrid + (steps + 1 : Nat)) with
      | some n => some ⟨n, leastGrid + (steps + 1 : Nat)⟩
      | none => searchGrid value steps

/-- The shortest decimal that rounds to a positive finite double. The grids from `10 ^ 309` down
hold one for every such double. -/
def shortest (value : Dyadic) : Scientific :=
  (searchGrid value 633).getD ⟨0, 0⟩

example : shortest (.ofBits 0x3FB999999999999A) = ⟨1, -1⟩ := by decide +kernel
example : shortest (.ofBits 0x0000000000000001) = ⟨5, -324⟩ := by decide +kernel
example : shortest (.ofBits 0x7FEFFFFFFFFFFFFF) = ⟨17976931348623157, 292⟩ := by decide +kernel

end Decimal
end CqlDelta
