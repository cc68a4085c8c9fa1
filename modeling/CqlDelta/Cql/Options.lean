import CqlDelta.Cql.Statement
import CqlDelta.Text.Blank
import CqlDelta.Text.Lines
import CqlDelta.Text.Quoted

/-!
# Table options

The options of a table are stored as one text: clauses `key = value` with a line break and `AND`
between them. Clauses are compared as they are written. A value that is a CQL literal already is
written as it stands, any other becomes a string literal.
-/

namespace CqlDelta
namespace Cql

open Text

/-- What stands between two clauses. -/
def clauseSeparator : List Char :=
  ['\n', 'A', 'N', 'D', ' ']

/-- What stands between the key and the value of a clause. -/
def valueSeparator : List Char :=
  [' ', '=', ' ']

/-- The clauses of an option text. -/
def clauses (options : String) : List String :=
  (splitAt clauseSeparator options.toList).map String.ofList

/-- A clause with its key and value; one without a separator is all key. -/
def OptionClause.ofText (clause : String) : OptionClause :=
  match cutAt valueSeparator clause.toList with
  | some (key, value) => ⟨String.ofList key, String.ofList value⟩
  | none => ⟨clause, ""⟩

/-- The clauses of the new options that the old ones do not have, in order. -/
def changedOptions (new old : String) : List OptionClause :=
  let known := clauses old
  ((clauses new).filter fun clause => !known.contains clause).map OptionClause.ofText

/-! ## Values -/

/-- The rest behind a run of digits, if there is at least one. -/
def skipDigits? (cs : List Char) : Option (List Char) :=
  match cs with
  | [] => none
  | c :: rest => if c.isDigit then some (rest.dropWhile Char.isDigit) else none

/-- The rest behind the sign of an exponent. -/
def skipSign : List Char → List Char
  | '+' :: rest => rest
  | '-' :: rest => rest
  | cs => cs

/-- Whether a text is empty or an exponent. -/
def isExponentOrEmpty : List Char → Bool
  | [] => true
  | c :: rest =>
      (c = 'e' || c = 'E') && (skipDigits? (skipSign rest)).any List.isEmpty

/-- Whether a text is an unsigned decimal: digits, a point among or around them, an exponent. -/
def isUnsignedDecimal (cs : List Char) : Bool :=
  match skipDigits? cs with
  | some ('.' :: rest) => isExponentOrEmpty (rest.dropWhile Char.isDigit)
  | some rest => isExponentOrEmpty rest
  | none =>
      match cs with
      | '.' :: rest => (skipDigits? rest).any isExponentOrEmpty
      | _ => false

/-- Whether a text is one of the words for a number without digits, in letters of either case. -/
def isNumberWord (cs : List Char) : Bool :=
  let word := cs.map Char.toLower
  word == ['i', 'n', 'f'] || word == ['i', 'n', 'f', 'i', 'n', 'i', 't', 'y']
    || word == ['n', 'a', 'n']

/-- Whether a value counts as a number. The words are taken only behind a minus sign, and a plus
sign never starts a number. -/
def isNumeric : List Char → Bool
  | '-' :: rest => isUnsignedDecimal rest || isNumberWord rest
  | cs => isUnsignedDecimal cs

/-- Whether a value is a truth value, in letters of either case. -/
def isTruthValue (cs : List Char) : Bool :=
  let word := cs.map Char.toLower
  word == ['t', 'r', 'u', 'e'] || word == ['f', 'a', 'l', 's', 'e']

/-- Whether a text starts with one character and ends with another, at different places. -/
def isBetween (first last : Char) : List Char → Bool
  | [] => false
  | c :: rest => c = first && rest.getLast? == some last

/-- Whether a trimmed value is written as it stands. -/
def isLiteral (cs : List Char) : Bool :=
  isBetween literalMark literalMark cs || isBetween '\x7b' '\x7d' cs || isNumeric cs
    || isTruthValue cs

/-- The written form of an option's value. -/
def optionValue (value : String) : String :=
  let trimmed := trim value.toList
  if isLiteral trimmed then String.ofList trimmed
  else String.ofList (enclose literalMark trimmed)

/-- The written form of a clause. -/
def OptionClause.render (clause : OptionClause) : String :=
  s!"{clause.key} = {optionValue clause.value}"

end Cql
end CqlDelta
