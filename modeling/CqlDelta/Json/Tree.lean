import CqlDelta.Json.Numeral
import CqlDelta.Json.Quoted

/-!
# JSON text as a tree

A `Tree` is a JSON text as far as it can be read. Members keep their order and their repetitions.
Where the text is flawed the tree holds the flaw: a place that is no value, a list or an object that
stops without its bracket, a text whose content is at fault. Whoever reads the tree in the order of
the text finds the same faults as a reader of the text itself, and finds them at the same moment.
-/

namespace CqlDelta
namespace Json

/-- How a list ends. -/
inductive ListStop where
  | closed
  /-- The text ends where a separator or the bracket is due. -/
  | unfinished
  /-- Something else stands where a separator or the bracket is due. -/
  | noSeparator
  /-- A comma stands before the bracket. -/
  | danglingComma
  /-- The text ends behind a comma. -/
  | endAfterComma
deriving DecidableEq, Repr

/-- How an object ends. -/
inductive ObjectStop where
  | closed
  /-- The text ends where a separator or the brace is due. -/
  | unfinished
  /-- Something else stands where a separator or the brace is due. -/
  | noSeparator
  /-- A comma stands before the brace. -/
  | danglingComma
  /-- The text ends behind a comma. -/
  | endAfterComma
  /-- No text stands where a key is due. -/
  | noKey
  /-- The text of a key does not end well. -/
  | brokenKey (flaw : Flaw)
deriving DecidableEq, Repr

/-- The fault that a reader of the elements finds at the end of a list. -/
def ListStop.readFault? : ListStop → Option Fault
  | .closed => none
  | .unfinished => some .endInList
  | .noSeparator => some .listSeparatorExpected
  | .danglingComma => some .trailingComma
  | .endAfterComma => some .endInValue

/-- The fault that is found at the end of a list that is passed over. -/
def ListStop.passFault? : ListStop → Option Fault
  | .closed => none
  | .unfinished => some .endInList
  | .noSeparator => some .listSeparatorExpected
  | .danglingComma => some .valueExpected
  | .endAfterComma => some .endInValue

/-- The fault that is found where a list should end because all that was wanted of it is read. -/
def ListStop.closingFault? : ListStop → Option Fault
  | .closed => none
  | .unfinished => some .endInList
  | .noSeparator => some .trailingCharacters
  | .danglingComma => some .trailingComma
  | .endAfterComma => some .trailingCharacters

/-- The fault that a reader of the members finds at the end of an object. -/
def ObjectStop.readFault? : ObjectStop → Option Fault
  | .closed => none
  | .unfinished => some .endInObject
  | .noSeparator => some .objectSeparatorExpected
  | .danglingComma => some .trailingComma
  | .endAfterComma => some .endInValue
  | .noKey => some .keyNotText
  | .brokenKey flaw => some flaw.read

/-- The fault that is found at the end of an object that is passed over. -/
def ObjectStop.passFault? : ObjectStop → Option Fault
  | .closed => none
  | .unfinished => some .endInObject
  | .noSeparator => some .objectSeparatorExpected
  | .danglingComma => some .keyNotText
  | .endAfterComma => some .endInObject
  | .noKey => some .keyNotText
  | .brokenKey flaw => some flaw.pass

/-- The content of a quoted text, or the fault that whoever reads it finds. -/
abbrev Content := Except Fault String

/-- A JSON text as far as it can be read. Behind a broken value, and behind a stop other than
`closed`, nothing more is known. -/
inductive Tree where
  | null
  | bool (value : Bool)
  | number (numeral : Numeral)
  | text (content : Content)
  | list (items : List Tree) (stop : ListStop)
  | object (members : List (Content × Tree)) (stop : ObjectStop)
  | broken (flaw : Flaw)

/-- A whole text: its first value, and whether something other than blanks follows it. -/
structure Document where
  root : Tree
  trailing : Bool

/-- Whether a tree is the literal `null`. -/
def Tree.isNull : Tree → Bool
  | .null => true
  | _ => false

end Json
end CqlDelta
