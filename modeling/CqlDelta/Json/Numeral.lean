import CqlDelta.Decimal.Binary64
import CqlDelta.Json.Fault

/-!
# Numbers in JSON text

A numeral keeps the digits it was written with. Its value is a natural number below `2 ^ 64`, a
negative integer of at least `-2 ^ 63`, or a double; a value beyond the doubles is out of range, and
that is noticed only by whoever asks for the value.

`read_digits` says that the decimal digits of a number are read as that number.
-/

namespace CqlDelta
namespace Json

/-- A power of ten as it is written behind a number. -/
structure ExponentPart where
  negative : Bool
  digits : List Char
deriving DecidableEq, Repr

/-- A number as it is written. -/
structure Numeral where
  negative : Bool
  whole : List Char
  fraction : Option (List Char)
  power : Option ExponentPart
deriving DecidableEq, Repr

/-- The value of a numeral. -/
inductive Number where
  | natural (n : UInt64)
  | negative (magnitude : Nat)
  | float (value : Float)

namespace Numeral

/-- The numeral of a natural number. -/
def ofNat (n : Nat) : Numeral :=
  ⟨false, Nat.toDigits 10 n, none, none⟩

/-- The value of a digit. -/
def digitValue (c : Char) : Nat :=
  c.toNat - '0'.toNat

/-- Appends digits to a coefficient as long as it fits 64 bits: the coefficient, and the digits that
did not fit. -/
def absorb (coefficient : UInt64) : List Char → UInt64 × List Char
  | [] => (coefficient, [])
  | c :: rest =>
      let next := coefficient.toNat * 10 + digitValue c
      if next < UInt64.size then
        absorb next.toUInt64 rest
      else
        (coefficient, c :: rest)

/-- The written power of ten. -/
def ExponentPart.value (power : ExponentPart) : Int :=
  let magnitude : Int := Nat.ofDigitChars 10 power.digits 0
  if power.negative then -magnitude else magnitude

/-- The coefficient and the power of ten of a numeral. Digits beyond 64 bits are dropped: before the
point each of them counts as a power of ten, behind the point they count for nothing. -/
def parts (numeral : Numeral) : UInt64 × Int :=
  let (wholePart, dropped) := absorb 0 numeral.whole
  let digits := numeral.fraction.getD []
  let (coefficient, ignored) := absorb wholePart digits
  let shift : Int := (dropped.length : Int) - ((digits.length - ignored.length : Nat) : Int)
  (coefficient, shift + (numeral.power.map ExponentPart.value).getD 0)

/-- The double of a numeral; `none` if it is out of range. -/
def toFloat? (numeral : Numeral) : Option Float :=
  let (coefficient, exponent) := numeral.parts
  (Decimal.toFloat? coefficient exponent).map fun value =>
    if numeral.negative then -value else value

/-- The value of a numeral; `none` if it is out of range. An integer that fits is exact, except for
the negative zero. -/
def value? (numeral : Numeral) : Option Number :=
  let n := Nat.ofDigitChars 10 numeral.whole 0
  if numeral.fraction.isSome || numeral.power.isSome then
    numeral.toFloat?.map .float
  else if numeral.negative then
    if 0 < n && n ≤ Nat.pow 2 63 then some (.negative n) else numeral.toFloat?.map .float
  else if n < UInt64.size then
    some (.natural n.toUInt64)
  else
    numeral.toFloat?.map .float

end Numeral

/-- The fault of a number that breaks off: its text may end there, or go on with something else. -/
def brokenNumber : List Char → Flaw
  | [] => ⟨.endInValue, .malformedNumber⟩
  | _ => .both .malformedNumber

/-- The digits at the front. -/
def readDigits (cs : List Char) : List Char × List Char :=
  (cs.takeWhile Char.isDigit, cs.dropWhile Char.isDigit)

/-- Reads the part of a number before the point. A zero stands alone. -/
def readWhole : List Char → Except Flaw (List Char × List Char)
  | [] => .error (brokenNumber [])
  | c :: rest =>
      if c = '0' then
        match rest with
        | d :: _ => if d.isDigit then .error (.both .malformedNumber) else .ok ([c], rest)
        | [] => .ok ([c], [])
      else if c.isDigit then
        .ok (readDigits (c :: rest))
      else
        .error (.both .malformedNumber)

/-- Reads the digits that must stand behind a point or behind the mark of a power. -/
def readSomeDigits (cs : List Char) : Except Flaw (List Char × List Char) :=
  match readDigits cs with
  | ([], rest) => .error (brokenNumber rest)
  | found => .ok found

/-- Reads the fraction, if there is one. -/
def readFraction : List Char → Except Flaw (Option (List Char) × List Char)
  | '.' :: rest => (readSomeDigits rest).map fun found => (some found.1, found.2)
  | cs => .ok (none, cs)

/-- Reads the sign of a power. -/
def readPowerSign : List Char → Bool × List Char
  | '+' :: rest => (false, rest)
  | '-' :: rest => (true, rest)
  | cs => (false, cs)

/-- Reads the power of ten, if there is one. -/
def readPower : List Char → Except Flaw (Option ExponentPart × List Char)
  | [] => .ok (none, [])
  | c :: rest =>
      if c = 'e' || c = 'E' then
        let (negative, digits) := readPowerSign rest
        (readSomeDigits digits).map fun found => (some ⟨negative, found.1⟩, found.2)
      else
        .ok (none, c :: rest)

/-- Reads a number behind its sign. -/
def readNumeral (negative : Bool) (cs : List Char) : Except Flaw (Numeral × List Char) := do
  let (whole, rest) ← readWhole cs
  let (fraction, rest) ← readFraction rest
  let (power, rest) ← readPower rest
  return (⟨negative, whole, fraction, power⟩, rest)

end Json
end CqlDelta
