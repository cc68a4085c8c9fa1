import CqlDelta.Decimal.Shortest

/-!
# Layout of a decimal number

A decimal is written positionally in a window of exponents and in scientific notation outside it.
`Layout` is the one record of the choices, and `numberLayout` the choices for numbers in messages
and in factors.
-/

namespace CqlDelta
namespace Decimal

/-- How the digits of a number are laid out. The exponent is that of the leading digit. -/
structure Layout where
  /-- The least exponent that is written positionally. -/
  leastPlain : Int
  /-- The least exponent above that is written in scientific notation. -/
  leastLarge : Int
  /-- What follows a positional number without a fraction. -/
  wholeSuffix : String
  /-- The sign of an exponent that is not negative. -/
  plusSign : String

/-- Numbers are positional from `0.00001` to below `10 ^ 16`, always with a point, and an exponent
has a sign. -/
def numberLayout : Layout :=
  { leastPlain := -5
    leastLarge := 16
    wholeSuffix := ".0"
    plusSign := "+" }

/-- A run of zeros. -/
def zeros (count : Nat) : String :=
  String.ofList (List.replicate count '0')

/-- The digits of a coefficient with the point before the last `places` of them. -/
def pointed (digits : List Char) (places : Nat) : String :=
  if places < digits.length then
    String.ofList (digits.take (digits.length - places)) ++ "."
      ++ String.ofList (digits.drop (digits.length - places))
  else
    "0." ++ zeros (places - digits.length) ++ String.ofList digits

/-- A decimal in scientific notation, with the given exponent of its leading digit. -/
def scientific (layout : Layout) (digits : List Char) (exponent : Int) : String :=
  let lead := String.ofList (digits.take 1)
  let fraction :=
    match digits.drop 1 with
    | [] => ""
    | more => "." ++ String.ofList more
  let sign := if exponent < 0 then "-" else layout.plusSign
  lead ++ fraction ++ "e" ++ sign ++ toString exponent.natAbs

/-- The text of a decimal. -/
def Layout.write (layout : Layout) (number : Scientific) : String :=
  let digits := Nat.toDigits 10 number.coefficient
  let exponent : Int := number.exponent + digits.length - 1
  if exponent < layout.leastPlain || layout.leastLarge ≤ exponent then
    scientific layout digits exponent
  else
    match number.exponent with
    | .ofNat count => String.ofList digits ++ zeros count ++ layout.wholeSuffix
    | .negSucc places => pointed digits (places + 1)

/-- The text of a finite double, by its bits. -/
def Layout.writeBits (layout : Layout) (bits : UInt64) : String :=
  let value := Dyadic.ofBits bits
  let sign := if isNegative bits then "-" else ""
  let body :=
    if value.mantissa = 0 then "0" ++ layout.wholeSuffix
    else layout.write (shortest value)
  sign ++ body

/-- The text of a finite double. -/
def floatText (value : Float) : String :=
  numberLayout.writeBits value.toBits

example : numberLayout.write ⟨1, -5⟩ = "0.00001" := by decide +kernel
example : numberLayout.write ⟨1, -7⟩ = "1e-7" := by decide +kernel
example : numberLayout.write ⟨1, 15⟩ = "1000000000000000.0" := by decide +kernel
example : numberLayout.write ⟨1, 20⟩ = "1e+20" := by decide +kernel
example : numberLayout.write ⟨9223372036854776, 3⟩ = "9.223372036854776e+18" := by
  decide +kernel

end Decimal
end CqlDelta
