import CqlDelta.Listing

/-!
# What a comparison says about one schema element

A comparison of two versions of a schema describes keyspaces, tables, columns and user-defined types
alike: an element has a name and settings, a change says what became of it, and a declaration gives
the type of a column or of a type's field.
-/

namespace CqlDelta
namespace Delta

/-- The type declaration of a column or of a type's field. -/
structure Declaration where
  /-- The logical type. -/
  logical : Option String := none
  /-- The physical type, which goes before the logical one. -/
  physical : Option String := none
  /-- The reference to a user-defined type. -/
  reference : Option String := none
  /-- The type of a collection's elements. -/
  element : Option String := none
  /-- The type of a map's keys. -/
  mapKey : Option String := none
  /-- The identifier by which key lists name the column. -/
  guid : Option String := none
  inPartitionKey : Bool := false
  inClusteringKey : Bool := false
deriving DecidableEq, Repr

/-- A value before and after. -/
structure Revision where
  new : Option String := none
  old : Option String := none
deriving DecidableEq, Repr

/-- The old and the new value, if both are there and differ. -/
def Revision.changed? (revision : Revision) : Option (String × String) :=
  match revision.old, revision.new with
  | some old, some new => if old = new then none else some (old, new)
  | _, _ => none

/-- A declaration on one side of the comparison. -/
structure Snapshot where
  declaration : Option Declaration := none
deriving DecidableEq, Repr

/-- A table that uses a type. Its name may be empty. -/
structure TableUse where
  table : String := ""
deriving DecidableEq, Repr

/-- The keyspaces that define a type, each with its tables that use it. -/
abbrev Placement := Listing (List TableUse)

/-- What became of an element. -/
structure Change where
  created : Bool := false
  deleted : Bool := false
  keyspace : Option String := none
  options : Option Revision := none
  comment : Option Revision := none
  before : Option Snapshot := none
  after : Option Snapshot := none
  name : Option Revision := none
  placement : Option Placement := none
deriving DecidableEq, Repr

/-- A replication factor. -/
inductive Factor where
  | number (n : UInt64)
  | text (content : String)
deriving DecidableEq, Repr

/-- The text of a factor. -/
def Factor.display : Factor → String
  | .number n => toString n.toNat
  | .text content => content

/-- The replication factor of one data center. -/
structure DataCenter where
  name : String := ""
  factor : Option Factor := none
deriving DecidableEq, Repr

/-- A schema element: its name, its change, and its settings as a keyspace or a table. -/
structure Element where
  name : Option String := none
  change : Option Change := none
  strategy : Option String := none
  factor : Option Factor := none
  dataCenters : Option (List DataCenter) := none
  durableWrites : Option Bool := none
  options : Option String := none
  comment : Option String := none
deriving DecidableEq, Repr

/-- The text behind the last slash. -/
def lastSegment (path : String) : String :=
  String.ofList (path.toList.reverse.takeWhile (· ≠ '/')).reverse

/-- The name of the referenced type: the last segment of the reference. -/
def Declaration.referenceName? (declaration : Declaration) : Option String :=
  declaration.reference.map lastSegment

/-- Whether a type is declared at all. -/
def Declaration.declaresType (declaration : Declaration) : Bool :=
  declaration.logical.isSome || declaration.physical.isSome || declaration.reference.isSome

end Delta
end CqlDelta
