import CqlDelta.Json.Tree

/-!
# JSON values and their text

`Value` is what this library writes: the numbers are natural, and every text is sound. A value is
written compactly, or with every element on a line of its own. `Value.toTree` is the tree that a
value is read back as.
-/

namespace CqlDelta
namespace Json

/-- A JSON value to be written. -/
inductive Value where
  | null
  | bool (value : Bool)
  | number (n : Nat)
  | text (content : String)
  | list (items : List Value)
  | object (members : List (String × Value))

namespace Value

/-- A text, or `null`. -/
def ofText? : Option String → Value
  | none => .null
  | some content => .text content

/-- The members that are present. -/
def present (members : List (String × Option Value)) : List (String × Value) :=
  members.filterMap fun member => member.2.map fun value => (member.1, value)

mutual

/-- The tree of a value. -/
def toTree : Value → Tree
  | .null => .null
  | .bool value => .bool value
  | .number n => .number (.ofNat n)
  | .text content => .text (.ok content)
  | .list items => .list (treesOf items) .closed
  | .object members => .object (treeMembersOf members) .closed

/-- The trees of a list's elements. -/
def treesOf : List Value → List Tree
  | [] => []
  | item :: more => item.toTree :: treesOf more

/-- The trees of an object's members. -/
def treeMembersOf : List (String × Value) → List (Content × Tree)
  | [] => []
  | (key, value) :: more => (.ok key, value.toTree) :: treeMembersOf more

end

/-- The literal of a truth value. -/
def boolChars (value : Bool) : List Char :=
  if value then ['t', 'r', 'u', 'e'] else ['f', 'a', 'l', 's', 'e']

mutual

/-- The compact text of a value. -/
def compactChars : Value → List Char
  | .null => ['n', 'u', 'l', 'l']
  | .bool value => boolChars value
  | .number n => Nat.toDigits 10 n
  | .text content => writeQuoted content
  | .list items => '[' :: (compactItems items ++ [']'])
  | .object members => '\x7b' :: (compactMembers members ++ ['\x7d'])

/-- The elements of a list, with commas between them. -/
def compactItems : List Value → List Char
  | [] => []
  | [item] => compactChars item
  | item :: more => compactChars item ++ ',' :: compactItems more

/-- The members of an object, with commas between them. -/
def compactMembers : List (String × Value) → List Char
  | [] => []
  | [(key, value)] => writeQuoted key ++ ':' :: compactChars value
  | (key, value) :: more =>
      writeQuoted key ++ ':' :: (compactChars value ++ ',' :: compactMembers more)

end

/-- The compact text of a value. -/
def compact (value : Value) : String :=
  String.ofList value.compactChars

/-- A line break and two blanks for each level. -/
def newLine (level : Nat) : List Char :=
  '\n' :: List.replicate (2 * level) ' '

mutual

/-- The text of a value at a level of indentation. -/
def indentedChars (level : Nat) : Value → List Char
  | .list [] => ['[', ']']
  | .object [] => ['\x7b', '\x7d']
  | .list (item :: more) =>
      '[' :: (newLine (level + 1) ++ indentedChars (level + 1) item
        ++ indentedItems (level + 1) more ++ newLine level ++ [']'])
  | .object ((key, value) :: more) =>
      '\x7b' :: (newLine (level + 1) ++ writeQuoted key ++ [':', ' ']
        ++ indentedChars (level + 1) value ++ indentedMembers (level + 1) more
        ++ newLine level ++ ['\x7d'])
  | .null => compactChars .null
  | .bool value => compactChars (.bool value)
  | .number n => compactChars (.number n)
  | .text content => compactChars (.text content)

/-- The elements behind the first, each behind a comma and on a line of its own. -/
def indentedItems (level : Nat) : List Value → List Char
  | [] => []
  | item :: more =>
      ',' :: (newLine level ++ indentedChars level item ++ indentedItems level more)

/-- The members behind the first, each behind a comma and on a line of its own. -/
def indentedMembers (level : Nat) : List (String × Value) → List Char
  | [] => []
  | (key, value) :: more =>
      ',' :: (newLine level ++ writeQuoted key ++ [':', ' '] ++ indentedChars level value
        ++ indentedMembers level more)

end

/-- The text of a value with every element on a line of its own. -/
def indented (value : Value) : String :=
  String.ofList (value.indentedChars 0)

end Value
end Json
end CqlDelta
