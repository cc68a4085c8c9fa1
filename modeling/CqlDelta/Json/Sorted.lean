import CqlDelta.Json.Typed

/-!
# Trees with sorted members

A document that is read as a whole first has the members of every object sorted by key, in the order
of code points. Of several members with one key the last one stays.
-/

namespace CqlDelta
namespace Json

/-- The text of a key; that of a key at fault is empty. -/
def keyText : Content → String
  | .ok key => key
  | .error _ => ""

/-- Inserts a member among members sorted by key, unless its key is there. -/
def insertAbsent (key : Content) (value : Tree) : List (Content × Tree) → List (Content × Tree)
  | [] => [(key, value)]
  | (other, present) :: rest =>
      if keyText key < keyText other then
        (key, value) :: (other, present) :: rest
      else if keyText key = keyText other then
        (other, present) :: rest
      else
        (other, present) :: insertAbsent key value rest

mutual

/-- Sorts the members of every object. -/
def Tree.sorted : Tree → Tree
  | .list items stop => .list (sortedItems items) stop
  | .object members stop => .object (sortedMembers members) stop
  | .null => .null
  | .bool value => .bool value
  | .number numeral => .number numeral
  | .text content => .text content
  | .broken flaw => .broken flaw

/-- Sorts inside every element. -/
def sortedItems : List Tree → List Tree
  | [] => []
  | item :: more => item.sorted :: sortedItems more

/-- Sorts members by key, after sorting inside each of them. -/
def sortedMembers : List (Content × Tree) → List (Content × Tree)
  | [] => []
  | (key, value) :: more => insertAbsent key value.sorted (sortedMembers more)

end

/-- A text of JSON whose objects are sorted before a reader looks at it. The text is read as a whole
first, with all its faults. -/
def Document.readSorted
    {α : Type}
    (reader : Reader α)
    (document : Document) :
    Except ReadError α := do
  let tree ← document.read readAhead
  reader .whole tree.sorted

end Json
end CqlDelta
