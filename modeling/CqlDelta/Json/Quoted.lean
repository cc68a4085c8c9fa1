import CqlDelta.Json.Fault

/-!
# Quoted text in JSON

A text is read in two steps. The first cuts it into pieces, characters and four-digit codes, up to
its closing quote: this is all that passing over a text takes. The second joins the pieces into
characters, which needs the codes of surrogates to stand in pairs.
-/

namespace CqlDelta
namespace Json

/-- A piece of a quoted text. -/
inductive Piece where
  | char (c : Char)
  | code (unit : Nat)
deriving DecidableEq, Repr

/-- How the pieces of a quoted text end. -/
inductive Close where
  | quote (rest : List Char)
  | endOfText
  | unknownEscape
  | malformedCode
  | controlCharacter
deriving DecidableEq, Repr

/-- The fault of an end that is not the closing quote. -/
def Close.fault : Close → Fault
  | .quote _ => .endInText
  | .endOfText => .endInText
  | .unknownEscape => .malformedEscape
  | .malformedCode => .malformedEscape
  | .controlCharacter => .controlCharacter

/-- The value of a hexadecimal digit. -/
def hexValue? (c : Char) : Option Nat :=
  if c.isDigit then some (c.toNat - '0'.toNat)
  else if 'a' ≤ c && c ≤ 'f' then some (c.toNat - 'a'.toNat + 10)
  else if 'A' ≤ c && c ≤ 'F' then some (c.toNat - 'A'.toNat + 10)
  else none

/-- The value of four hexadecimal digits. -/
def hexCode? (a b c d : Char) : Option Nat := do
  return (((← hexValue? a) * 16 + (← hexValue? b)) * 16 + (← hexValue? c)) * 16 + (← hexValue? d)

/-- The character that a one-letter escape stands for. -/
def escapedChar? : Char → Option Char
  | '\x22' => some '\x22'
  | '\\' => some '\\'
  | '/' => some '/'
  | 'b' => some '\x08'
  | 'f' => some '\x0c'
  | 'n' => some '\n'
  | 'r' => some '\r'
  | 't' => some '\t'
  | _ => none

/-- How a code ends the text if its four digits are not there: the code takes four bytes, whatever
they hold. -/
def brokenCode (cs : List Char) : Close :=
  if 4 ≤ (String.ofList (cs.take 4)).utf8ByteSize then .malformedCode else .endOfText

/-- Puts a piece in front. -/
def addPiece (piece : Piece) (found : List Piece × Close) : List Piece × Close :=
  (piece :: found.1, found.2)

/-- Cuts a text into its pieces, from behind its opening quote. -/
def pieces : List Char → List Piece × Close
  | [] => ([], .endOfText)
  | '\x22' :: rest => ([], .quote rest)
  | ['\\'] => ([], .endOfText)
  | '\\' :: 'u' :: a :: b :: c :: d :: rest =>
      match hexCode? a b c d with
      | some unit => addPiece (.code unit) (pieces rest)
      | none => ([], .malformedCode)
  | '\\' :: 'u' :: rest => ([], brokenCode rest)
  | '\\' :: c :: rest =>
      match escapedChar? c with
      | some plain => addPiece (.char plain) (pieces rest)
      | none => ([], .unknownEscape)
  | c :: rest =>
      if c.toNat < 0x20 then ([], .controlCharacter) else addPiece (.char c) (pieces rest)

/-- A code that opens a pair. -/
def isHighSurrogate (unit : Nat) : Bool :=
  0xD800 ≤ unit && unit ≤ 0xDBFF

/-- A code that closes a pair. -/
def isLowSurrogate (unit : Nat) : Bool :=
  0xDC00 ≤ unit && unit ≤ 0xDFFF

/-- The character of a pair of codes. -/
def pairedChar (high low : Nat) : Char :=
  Char.ofNat ((high - 0xD800) * 0x400 + (low - 0xDC00) + 0x10000)

/-- The fault of a code that opens a pair where no further code follows. -/
def unpaired : Close → Fault
  | .endOfText => .endInText
  | .malformedCode => .malformedEscape
  | _ => .unpairedSurrogate

/-- The characters of the pieces, or the first fault among them and their end. -/
def joinPieces : List Piece → Close → Except Fault (List Char)
  | [], .quote _ => .ok []
  | [], close => .error close.fault
  | .char c :: rest, close => (joinPieces rest close).map (c :: ·)
  | .code unit :: rest, close =>
      if isLowSurrogate unit then
        .error .loneSurrogate
      else if isHighSurrogate unit then
        match rest with
        | [] => .error (unpaired close)
        | .char _ :: _ => .error .unpairedSurrogate
        | .code second :: rest =>
            if isLowSurrogate second then
              (joinPieces rest close).map (pairedChar unit second :: ·)
            else
              .error .loneSurrogate
      else
        (joinPieces rest close).map (Char.ofNat unit :: ·)

/-- Reads a quoted text from behind its opening quote. Where it is closed, its content may still be
at fault for whoever reads it. -/
def readQuoted (cs : List Char) : Except Flaw (Except Fault String × List Char) :=
  let (found, close) := pieces cs
  let content := (joinPieces found close).map String.ofList
  match close with
  | .quote rest => .ok (content, rest)
  | close =>
      match content with
      | .error fault => .error ⟨fault, close.fault⟩
      | .ok _ => .error (.both close.fault)

/-- A digit of a code. -/
def hexDigit (n : Nat) : Char :=
  Nat.digitChar n

/-- The written form of a character inside quotes. -/
def escapeChar (c : Char) : List Char :=
  if c = '\x22' then ['\\', '\x22']
  else if c = '\\' then ['\\', '\\']
  else if c = '\x08' then ['\\', 'b']
  else if c = '\x0c' then ['\\', 'f']
  else if c = '\n' then ['\\', 'n']
  else if c = '\r' then ['\\', 'r']
  else if c = '\t' then ['\\', 't']
  else if c.toNat < 0x20 then
    ['\\', 'u', '0', '0', hexDigit (c.toNat / 16), hexDigit (c.toNat % 16)]
  else [c]

/-- A text in quotes. Only the quote, the backslash and control characters are escaped. -/
def writeQuoted (text : String) : List Char :=
  '\x22' :: (text.toList.flatMap escapeChar ++ ['\x22'])

end Json
end CqlDelta
