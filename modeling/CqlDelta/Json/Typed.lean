import CqlDelta.Decimal.Layout
import CqlDelta.Json.Tree
import CqlDelta.Text.Visible

/-!
# Typed reading of JSON

A typed reader takes a tree, in the order of its text, to a value of a type or to the first error.
How deep the text may nest, and what is said about elements too many, depends on the route by which
the tree is reached: straight from its text, out of a value that was read ahead, or from a document
that was read as a whole first.

The error of a reader is a fault of the text or a mismatch between the text and the type.
-/

namespace CqlDelta
namespace Json

/-- A kind of value that was found where another was wanted. -/
inductive Shape where
  | null
  | bool (value : Bool)
  | integer (value : Int)
  | float (value : Float)
  | text (content : String)
  | list
  | object

/-- The words for a found value. -/
def Shape.describe : Shape → String
  | .null => "null"
  | .bool value => s!"boolean `{value}`"
  | .integer value => s!"integer `{value}`"
  | .float value => s!"floating point `{Decimal.floatText value}`"
  | .text content => s!"string {Text.showQuoted content}"
  | .list => "sequence"
  | .object => "map"

/-- Why a tree is no value of the wanted type. -/
inductive ReadError where
  | fault (cause : Fault)
  | wrongShape (found : Shape) (wanted : String)
  | wrongLength (count : Nat) (wanted : String)
  | missingKey (key : String)
  | repeatedKey (key : String)
  | unknownName (name : String) (known : List String)
  | noAlternative (type : String)

/-- A list of names, each in backticks. -/
def nameList (names : List String) : String :=
  String.intercalate ", " (names.map fun name => s!"`{name}`")

/-- The wording of an error. -/
def ReadError.message : ReadError → String
  | .fault cause => cause.message
  | .wrongShape found wanted => s!"invalid type: {found.describe}, expected {wanted}"
  | .wrongLength count wanted => s!"invalid length {count}, expected {wanted}"
  | .missingKey key => s!"missing field `{key}`"
  | .repeatedKey key => s!"duplicate field `{key}`"
  | .unknownName name known => s!"unknown variant `{name}`, expected one of {nameList known}"
  | .noAlternative type => s!"data did not match any variant of untagged enum {type}"

/-- How a tree is reached. -/
inductive Route where
  /-- Straight from its text, with so many levels of nesting left. -/
  | text (levels : Nat)
  /-- Out of a value that was read ahead. -/
  | ahead
  /-- From a document that was read as a whole. -/
  | whole
deriving DecidableEq, Repr

/-- The greatest nesting of a text. -/
def nestingLimit : Nat := 127

/-- The route to the root of a text. -/
def Route.root : Route := .text nestingLimit

/-- The route into a list or an object. -/
def Route.enter : Route → Except ReadError Route
  | .text 0 => .error (.fault .nestingTooDeep)
  | .text (levels + 1) => .ok (.text levels)
  | .ahead => .ok .ahead
  | .whole => .ok .whole

/-- A typed reader. -/
abbrev Reader (α : Type) := Route → Tree → Except ReadError α

/-- Turns the fault of an end into an error. -/
def ending : Option Fault → Except ReadError Unit
  | none => .ok ()
  | some fault => .error (.fault fault)

/-- The content of a text, for whoever reads it. -/
def contentOf : Content → Except ReadError String
  | .ok content => .ok content
  | .error fault => .error (.fault fault)

/-- The shape of a number. -/
def Number.shape : Number → Shape
  | .natural n => .integer n.toNat
  | .negative magnitude => .integer (-magnitude)
  | .float value => .float value

/-- The error of finding a tree where something else is wanted. Its own fault comes first, except
inside a list or an object, which is not entered. -/
def Tree.mismatch (wanted : String) : Tree → ReadError
  | .null => .wrongShape .null wanted
  | .bool value => .wrongShape (.bool value) wanted
  | .number numeral =>
      match numeral.value? with
      | none => .fault .numberOutOfRange
      | some value => .wrongShape value.shape wanted
  | .text (.ok content) => .wrongShape (.text content) wanted
  | .text (.error fault) => .fault fault
  | .list _ _ => .wrongShape .list wanted
  | .object _ _ => .wrongShape .object wanted
  | .broken flaw => .fault flaw.read

/-! ## Reading ahead and passing over -/

mutual

/-- Reads a value of any kind: the first fault in it, if there is one. -/
def readAny (route : Route) : Tree → Except ReadError Unit
  | .null => .ok ()
  | .bool _ => .ok ()
  | .number numeral =>
      match numeral.value? with
      | none => .error (.fault .numberOutOfRange)
      | some _ => .ok ()
  | .text content => do
      let _ ← contentOf content
  | .list items stop => do
      let inner ← route.enter
      readAnyItems inner items
      ending stop.readFault?
  | .object members stop => do
      let inner ← route.enter
      readAnyMembers inner members
      ending stop.readFault?
  | .broken flaw => .error (.fault flaw.read)

/-- Reads elements of any kind. -/
def readAnyItems (route : Route) : List Tree → Except ReadError Unit
  | [] => .ok ()
  | item :: more => do
      readAny route item
      readAnyItems route more

/-- Reads members of any kind. -/
def readAnyMembers (route : Route) : List (Content × Tree) → Except ReadError Unit
  | [] => .ok ()
  | (key, value) :: more => do
      let _ ← contentOf key
      readAny route value
      readAnyMembers route more

end

mutual

/-- Passes over a value: the first fault of its grammar, if there is one. -/
def passOver : Tree → Except ReadError Unit
  | .list items stop => do
      passOverItems items
      ending stop.passFault?
  | .object members stop => do
      passOverMembers members
      ending stop.passFault?
  | .broken flaw => .error (.fault flaw.pass)
  | _ => .ok ()

/-- Passes over elements. -/
def passOverItems : List Tree → Except ReadError Unit
  | [] => .ok ()
  | item :: more => do
      passOver item
      passOverItems more

/-- Passes over members. -/
def passOverMembers : List (Content × Tree) → Except ReadError Unit
  | [] => .ok ()
  | (_, value) :: more => do
      passOver value
      passOverMembers more

end

/-- Reads a value ahead, to be looked at afterwards. -/
def readAhead (route : Route) (tree : Tree) : Except ReadError Tree := do
  readAny route tree
  return tree

/-! ## Simple readers -/

/-- A text. -/
def readString : Reader String := fun _ tree =>
  match tree with
  | .text (.ok content) => .ok content
  | tree => .error (tree.mismatch "a string")

/-- A truth value. -/
def readBool : Reader Bool := fun _ tree =>
  match tree with
  | .bool value => .ok value
  | tree => .error (tree.mismatch "a boolean")

/-- A value that `null` stands in for when it is absent. -/
def readOption {α : Type} (reader : Reader α) : Reader (Option α) := fun route tree =>
  if tree.isNull then .ok none else (reader route tree).map some

/-- The elements of a list, in order. -/
def readItems {α : Type} (reader : Reader α) (route : Route) : List Tree → Except ReadError (List α)
  | [] => .ok []
  | item :: more => do
      let value ← reader route item
      let values ← readItems reader route more
      return value :: values

/-- A list. -/
def readList {α : Type} (reader : Reader α) : Reader (List α) := fun route tree =>
  match tree with
  | .list items stop => do
      let inner ← route.enter
      let values ← readItems reader inner items
      ending stop.readFault?
      return values
  | tree => .error (tree.mismatch "a sequence")

/-- A text of JSON, read as a whole: nothing but blanks may follow the value. -/
def Document.read {α : Type} (reader : Reader α) (document : Document) : Except ReadError α := do
  let value ← reader .root document.root
  if document.trailing then .error (.fault .trailingCharacters) else .ok value

end Json
end CqlDelta
