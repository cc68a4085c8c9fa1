import CqlDelta.Json.Typed
import CqlDelta.Listing

/-!
# Records

A record is a value with declared keys. It is read from an object, whose members come in any order
and may bring keys that are not declared, or from a list that holds the values in the order of the
declaration. Each declared value updates the record read so far.
-/

namespace CqlDelta
namespace Json

/-- What it means that a declared key has no value. -/
inductive Absence where
  /-- An error. -/
  | fatal
  /-- Nothing in an object; an error in a list. -/
  | optional
  /-- Nothing: the record keeps its initial value. -/
  | fine
deriving DecidableEq, Repr

/-- A declared key of a record, and how its value updates the record. -/
structure RecordField (σ : Type) where
  key : String
  absence : Absence
  update : Reader (σ → σ)

/-- A field whose value is read by a reader and set in the record. -/
def RecordField.of
    {σ α : Type}
    (key : String)
    (absence : Absence)
    (reader : Reader α)
    (set : α → σ → σ) :
    RecordField σ :=
  ⟨key, absence, fun route tree => (reader route tree).map set⟩

/-- The declaration of a record. -/
structure Record (σ : Type) where
  title : String
  fields : List (RecordField σ)
  initial : σ

namespace Record

variable {σ : Type}

/-- A number of elements, in words. -/
def elementCount (count : Nat) : String :=
  if count = 1 then "1 element" else s!"{count} elements"

/-- The first field that must have a value and has none. -/
def missing? (fields : List (RecordField σ)) (seen : List String) : Option String :=
  (fields.find? fun field => field.absence == .fatal && !seen.contains field.key).map fun field =>
    field.key

/-- Ends an object: its own fault comes before a missing key. -/
def finishObject
    (fields : List (RecordField σ))
    (stop : ObjectStop)
    (seen : List String)
    (value : σ) :
    Except ReadError σ := do
  ending stop.readFault?
  match missing? fields seen with
  | some key => .error (.missingKey key)
  | none => .ok value

/-- Reads the members of an object. A repeated key is an error before its value is looked at. -/
def readMembers
    (fields : List (RecordField σ))
    (route : Route)
    (stop : ObjectStop) :
    List (Content × Tree) → List String → σ → Except ReadError σ
  | [], seen, value => finishObject fields stop seen value
  | (key, tree) :: more, seen, value => do
      let key ← contentOf key
      match fields.find? fun field => field.key == key with
      | none => do
          passOver tree
          readMembers fields route stop more seen value
      | some field =>
          if seen.contains key then
            .error (.repeatedKey key)
          else do
            let update ← field.update route tree
            readMembers fields route stop more (key :: seen) (update value)

/-- Ends a list behind the last declared value. -/
def finishList
    (route : Route)
    (count : Nat)
    (left : List Tree)
    (stop : ListStop) :
    Except ReadError Unit :=
  match route with
  | .text _ =>
      if left.isEmpty then ending stop.closingFault? else .error (.fault .trailingCharacters)
  | .ahead =>
      if left.isEmpty then .ok ()
      else .error (.wrongLength (count + left.length) s!"{elementCount count} in sequence")
  | .whole =>
      if left.isEmpty then .ok ()
      else .error (.wrongLength (count + left.length) "fewer elements in array")

/-- Reads the elements of a list as the values of the declared keys, in order. The list's own fault
comes before a missing value. -/
def readElements
    (record : Record σ)
    (route : Route)
    (stop : ListStop) :
    List (RecordField σ) → Nat → List Tree → σ → Except ReadError σ
  | [], index, items, value => do
      finishList route index items stop
      return value
  | field :: fields, index, [], value => do
      ending stop.readFault?
      match field.absence with
      | .fine => readElements record route stop fields index [] value
      | _ =>
          .error <| .wrongLength index
            s!"{record.title} with {elementCount record.fields.length}"
  | field :: fields, index, item :: items, value => do
      let update ← field.update route item
      readElements record route stop fields (index + 1) items (update value)

/-- Reads a record. -/
def read (record : Record σ) : Reader σ := fun route tree =>
  match tree with
  | .object members stop => do
      let inner ← route.enter
      readMembers record.fields inner stop members [] record.initial
  | .list items stop => do
      let inner ← route.enter
      readElements record inner stop record.fields 0 items record.initial
  | tree => .error (tree.mismatch record.title)

end Record

/-- Reads the members of an object whose keys are free, in order. -/
def readEntries
    {α : Type}
    (reader : Reader α)
    (route : Route) :
    List (Content × Tree) → Except ReadError (List (String × α))
  | [] => .ok []
  | (key, tree) :: more => do
      let key ← contentOf key
      let value ← reader route tree
      let entries ← readEntries reader route more
      return (key, value) :: entries

/-- Reads an object whose keys are free. -/
def readListing {α : Type} (reader : Reader α) : Reader (Listing α) := fun route tree =>
  match tree with
  | .object members stop => do
      let inner ← route.enter
      let entries ← readEntries reader inner members
      ending stop.readFault?
      return Listing.ofEntries entries
  | tree => .error (tree.mismatch "a map")

/-- Reads one of a list of names. -/
def readName {α : Type} (known : Listing α) : Reader α := fun _ tree =>
  match tree with
  | .text (.ok name) =>
      match Listing.get? name known with
      | some value => .ok value
      | none => .error (.unknownName name (Listing.names known))
  | tree => .error (tree.mismatch "variant identifier")

end Json
end CqlDelta
