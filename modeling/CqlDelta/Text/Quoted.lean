/-!
# Quoting by doubling

A quoted text stands between two marks, and a mark inside it is written twice. Identifiers are
quoted with `"` and string literals with `'`. The main statement, `readEnclosed_append`, says that a
quoted text ends where it seems to end: read from its opening mark, with a doubled mark taken as
one character, it gives the text back and stops at what follows.
-/

namespace CqlDelta
namespace Text

/-- The mark around identifiers. -/
def identifierMark : Char := '\x22'

/-- The mark around string literals. -/
def literalMark : Char := '\x27'

/-- Writes every mark twice and all else once. -/
def double (mark : Char) : List Char → List Char
  | [] => []
  | c :: rest => if c = mark then mark :: mark :: double mark rest else c :: double mark rest

/-- A text between two marks. -/
def enclose (mark : Char) (cs : List Char) : List Char :=
  mark :: (double mark cs ++ [mark])

/-- An identifier, quoted. -/
def quoteIdentifier (name : String) : String :=
  String.ofList (enclose identifierMark name.toList)

/-- A string literal. -/
def quoteLiteral (value : String) : String :=
  String.ofList (enclose literalMark value.toList)

/-- Reads up to the closing mark: the content, and what follows the mark. -/
def readToMark (mark : Char) : List Char → Option (List Char × List Char)
  | [] => none
  | [c] => if c = mark then some ([], []) else none
  | c :: d :: rest =>
      if c = mark then
        if d = mark then
          (readToMark mark rest).map fun found => (mark :: found.1, found.2)
        else
          some ([], d :: rest)
      else
        (readToMark mark (d :: rest)).map fun found => (c :: found.1, found.2)

/-- Reads a quoted text that starts at its opening mark. -/
def readEnclosed (mark : Char) : List Char → Option (List Char × List Char)
  | [] => none
  | c :: rest => if c = mark then readToMark mark rest else none

theorem readToMark_double
    (mark : Char)
    (cs rest : List Char)
    (hrest : rest.head? ≠ some mark) :
    readToMark mark (double mark cs ++ mark :: rest) = some (cs, rest) := by
  induction cs with
  | nil =>
      cases rest with
      | nil => simp [double, readToMark]
      | cons d rest =>
          have hd : d ≠ mark := by simpa using hrest
          simp [double, readToMark, hd]
  | cons c cs ih =>
      by_cases hc : c = mark
      · subst hc
        simp [double, readToMark, ih]
      · cases hcs : double mark cs ++ mark :: rest with
        | nil => simp at hcs
        | cons d more =>
            rw [hcs] at ih
            simp [double, hc, hcs, readToMark, ih]

/-- A quoted text, before anything that does not start with its mark, reads back as what it
quotes. -/
theorem readEnclosed_append
    (mark : Char)
    (cs rest : List Char)
    (hrest : rest.head? ≠ some mark) :
    readEnclosed mark (enclose mark cs ++ rest) = some (cs, rest) := by
  simpa [enclose, readEnclosed] using readToMark_double mark cs rest hrest

end Text
end CqlDelta
