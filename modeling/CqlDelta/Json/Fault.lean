/-!
# Faults in JSON text

A fault is a reason why a JSON text cannot be read on. Reading a value and passing over a value that
nobody asked for follow the same grammar, yet they notice different things: whoever passes over a
number or a text does not look at its meaning. `Flaw` records, for one place of a text, the fault
that each of the two reports there.
-/

namespace CqlDelta
namespace Json

/-- Why a JSON text cannot be read on. -/
inductive Fault where
  | endInValue
  | endInList
  | endInObject
  | endInText
  | identExpected
  | valueExpected
  | colonExpected
  | listSeparatorExpected
  | objectSeparatorExpected
  | keyNotText
  | trailingComma
  | trailingCharacters
  | malformedNumber
  | numberOutOfRange
  | malformedEscape
  | loneSurrogate
  | unpairedSurrogate
  | controlCharacter
  | nestingTooDeep
deriving DecidableEq, Repr

/-- The wording of a fault. -/
def Fault.message : Fault → String
  | .endInValue => "EOF while parsing a value"
  | .endInList => "EOF while parsing a list"
  | .endInObject => "EOF while parsing an object"
  | .endInText => "EOF while parsing a string"
  | .identExpected => "expected ident"
  | .valueExpected => "expected value"
  | .colonExpected => "expected `:`"
  | .listSeparatorExpected => "expected `,` or `]`"
  | .objectSeparatorExpected => "expected `,` or `\x7d`"
  | .keyNotText => "key must be a string"
  | .trailingComma => "trailing comma"
  | .trailingCharacters => "trailing characters"
  | .malformedNumber => "invalid number"
  | .numberOutOfRange => "number out of range"
  | .malformedEscape => "invalid escape"
  | .loneSurrogate => "lone leading surrogate in hex escape"
  | .unpairedSurrogate => "unexpected end of hex escape"
  | .controlCharacter => "control character (\\u0000-\\u001F) found while parsing a string"
  | .nestingTooDeep => "recursion limit exceeded"

/-- Whether a fault lies inside a quoted text. -/
def Fault.isInText : Fault → Bool
  | .endInText => true
  | .malformedEscape => true
  | .loneSurrogate => true
  | .unpairedSurrogate => true
  | .controlCharacter => true
  | _ => false

/-- A place past which a text cannot be read: the fault that a reader finds there, and the fault
that is found when the place is passed over. -/
structure Flaw where
  read : Fault
  pass : Fault
deriving DecidableEq, Repr

/-- A flaw that is the same fault either way. -/
def Flaw.both (fault : Fault) : Flaw :=
  ⟨fault, fault⟩

end Json
end CqlDelta
