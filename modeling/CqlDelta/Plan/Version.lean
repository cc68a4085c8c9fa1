/-!
# Versions

A model declares its database version in free text. Its major version is the first run of digits, if
that fits 32 bits.
-/

namespace CqlDelta
namespace Plan

/-- The first run of decimal digits. -/
def firstDigits (cs : List Char) : List Char :=
  (cs.dropWhile fun c => !c.isDigit).takeWhile Char.isDigit

/-- The major version of a version text. -/
def majorVersion? (version : String) : Option UInt32 :=
  match firstDigits version.toList with
  | [] => none
  | digits =>
      let n := Nat.ofDigitChars 10 digits 0
      if n < UInt32.size then some n.toUInt32 else none

end Plan
end CqlDelta
