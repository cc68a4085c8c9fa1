import CqlDelta.Json.Tree

/-!
# Reading JSON text

`Document.ofText` turns a text into the tree of its first value. Every function returns what it
found together with the text behind it, or with nothing if the text cannot be read on. The number
that decreases through the calls bounds their nesting; three steps for each character suffice,
because a value, the list or object around it, and its place in that each take one.
-/

namespace CqlDelta
namespace Json

/-- Drops the blanks of the JSON grammar. -/
def skipBlanks (cs : List Char) : List Char :=
  cs.dropWhile fun c => c = ' ' || c = '\n' || c = '\r' || c = '\t'

/-- What was found, and the text behind it if that can be read. -/
structure Found (α : Type) where
  value : α
  rest : Option (List Char)

/-- A place that is no value. -/
def Found.broken (flaw : Flaw) : Found Tree :=
  ⟨.broken flaw, none⟩

/-- Reads the letters of a literal behind its first one. -/
def readLiteral (value : Tree) : List Char → List Char → Found Tree
  | [], rest => ⟨value, some rest⟩
  | _ :: _, [] => .broken (.both .endInValue)
  | expected :: more, c :: rest =>
      if c = expected then readLiteral value more rest else .broken (.both .identExpected)

/-- A number as a tree. -/
def readNumber (negative : Bool) (cs : List Char) : Found Tree :=
  match readNumeral negative cs with
  | .ok (numeral, rest) => ⟨.number numeral, some rest⟩
  | .error flaw => .broken flaw

/-- A quoted text as a tree. -/
def readText (cs : List Char) : Found Tree :=
  match readQuoted cs with
  | .ok (content, rest) => ⟨.text content, some rest⟩
  | .error flaw => .broken flaw

/-- The elements of a list and how it ends. -/
abbrev Elements := List Tree × ListStop

/-- The members of an object and how it ends. -/
abbrev Entries := List (Content × Tree) × ObjectStop

/-- Puts an element in front. -/
def consElement (item : Tree) (more : Found Elements) : Found Elements :=
  ⟨(item :: more.value.1, more.value.2), more.rest⟩

/-- Puts a member in front. -/
def consMember (key : Content) (value : Tree) (more : Found Entries) : Found Entries :=
  ⟨((key, value) :: more.value.1, more.value.2), more.rest⟩

mutual

/-- Reads a value. -/
def readValue : Nat → List Char → Found Tree
  | 0, _ => .broken (.both .endInValue)
  | fuel + 1, cs =>
      match skipBlanks cs with
      | [] => .broken (.both .endInValue)
      | c :: rest =>
          match c with
          | 'n' => readLiteral .null ['u', 'l', 'l'] rest
          | 't' => readLiteral (.bool true) ['r', 'u', 'e'] rest
          | 'f' => readLiteral (.bool false) ['a', 'l', 's', 'e'] rest
          | '\x22' => readText rest
          | '-' => readNumber true rest
          | '[' =>
              let found := readElements fuel rest
              ⟨.list found.value.1 found.value.2, found.rest⟩
          | '\x7b' =>
              let found := readMembers fuel rest
              ⟨.object found.value.1 found.value.2, found.rest⟩
          | _ =>
              if c.isDigit then readNumber false (c :: rest)
              else .broken (.both .valueExpected)

/-- Reads a list from behind its opening bracket. -/
def readElements : Nat → List Char → Found Elements
  | 0, _ => ⟨([], .unfinished), none⟩
  | fuel + 1, cs =>
      match skipBlanks cs with
      | [] => ⟨([], .unfinished), none⟩
      | ']' :: rest => ⟨([], .closed), some rest⟩
      | cs => readElement fuel cs

/-- Reads an element and what follows it. -/
def readElement : Nat → List Char → Found Elements
  | 0, _ => ⟨([], .unfinished), none⟩
  | fuel + 1, cs =>
      let item := readValue fuel cs
      match item.rest with
      | none => ⟨([item.value], .closed), none⟩
      | some rest =>
          consElement item.value <|
            match skipBlanks rest with
            | [] => ⟨([], .unfinished), none⟩
            | ']' :: rest => ⟨([], .closed), some rest⟩
            | ',' :: rest =>
                match skipBlanks rest with
                | [] => ⟨([], .endAfterComma), none⟩
                | ']' :: _ => ⟨([], .danglingComma), none⟩
                | cs => readElement fuel cs
            | _ => ⟨([], .noSeparator), none⟩

/-- Reads an object from behind its opening brace. -/
def readMembers : Nat → List Char → Found Entries
  | 0, _ => ⟨([], .unfinished), none⟩
  | fuel + 1, cs =>
      match skipBlanks cs with
      | [] => ⟨([], .unfinished), none⟩
      | '\x7d' :: rest => ⟨([], .closed), some rest⟩
      | '\x22' :: rest => readMember fuel rest
      | _ => ⟨([], .noKey), none⟩

/-- Reads a member from behind the opening quote of its key, and what follows it. -/
def readMember : Nat → List Char → Found Entries
  | 0, _ => ⟨([], .unfinished), none⟩
  | fuel + 1, cs =>
      match readQuoted cs with
      | .error flaw => ⟨([], .brokenKey flaw), none⟩
      | .ok (key, rest) =>
          match skipBlanks rest with
          | [] => ⟨([(key, .broken (.both .endInObject))], .closed), none⟩
          | ':' :: rest =>
              let value := readValue fuel rest
              match value.rest with
              | none => ⟨([(key, value.value)], .closed), none⟩
              | some rest =>
                  consMember key value.value <|
                    match skipBlanks rest with
                    | [] => ⟨([], .unfinished), none⟩
                    | '\x7d' :: rest => ⟨([], .closed), some rest⟩
                    | ',' :: rest =>
                        match skipBlanks rest with
                        | [] => ⟨([], .endAfterComma), none⟩
                        | '\x7d' :: _ => ⟨([], .danglingComma), none⟩
                        | '\x22' :: rest => readMember fuel rest
                        | _ => ⟨([], .noKey), none⟩
                    | _ => ⟨([], .noSeparator), none⟩
          | _ => ⟨([(key, .broken (.both .colonExpected))], .closed), none⟩

end

/-- Reads a text. -/
def Document.ofChars (cs : List Char) : Document :=
  let found := readValue (3 * cs.length + 3) cs
  ⟨found.value, (found.rest.map fun rest => !(skipBlanks rest).isEmpty).getD false⟩

/-- Reads a text. -/
def Document.ofText (text : String) : Document :=
  Document.ofChars text.toList

end Json
end CqlDelta
