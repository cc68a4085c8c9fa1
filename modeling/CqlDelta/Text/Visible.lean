import CqlDelta.Text.Unprintable

/-!
# Quoted text in messages

A message shows a text in double quotes, with everything that could be mistaken in print escaped:
the quote and the backslash, the line and tab controls by a letter, and every other unprintable
character by its code point.
-/

namespace CqlDelta
namespace Text

/-- The hexadecimal digits of a code point, in braces. -/
def codePointEscape (c : Char) : List Char :=
  ['\\', 'u', '\x7b'] ++ Nat.toDigits 16 c.toNat ++ ['\x7d']

/-- A character as it is shown. -/
def showChar (c : Char) : List Char :=
  if c = '\x00' then ['\\', '0']
  else if c = '\t' then ['\\', 't']
  else if c = '\r' then ['\\', 'r']
  else if c = '\n' then ['\\', 'n']
  else if c = '\\' then ['\\', '\\']
  else if c = '\x22' then ['\\', '\x22']
  else if isUnprintable c then codePointEscape c
  else [c]

/-- A text as it is shown, in quotes. -/
def showQuoted (text : String) : String :=
  String.ofList ('\x22' :: (text.toList.flatMap showChar ++ ['\x22']))

end Text
end CqlDelta
