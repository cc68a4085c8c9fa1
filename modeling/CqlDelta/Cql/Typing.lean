import CqlDelta.Delta.Attributes
import CqlDelta.Text.Quoted

/-!
# Column types

The CQL type of a declaration: a reference to a user-defined type goes before the physical type, and
that before the logical one. The second part is the table of conversions that a column type admits
in place; it has a direction, and no type converts to itself.
-/

namespace CqlDelta
namespace Cql

open Delta

/-- The CQL name of a logical scalar type. -/
def scalarType (logical : String) : String :=
  match logical with
  | "string" => "text"
  | "number" => "int"
  | "integer" => "int"
  | "bool" => "boolean"
  | "boolean" => "boolean"
  | other => other

/-- The CQL name of an element type; texts if none is given. -/
def elementType (logical : Option String) : String :=
  scalarType (logical.getD "text")

/-- The CQL type of a logical type; texts if none is given. -/
def logicalType (declaration : Declaration) : String :=
  match declaration.logical with
  | none => "text"
  | some "list" => s!"list<{elementType declaration.element}>"
  | some "set" => s!"set<{elementType declaration.element}>"
  | some "map" =>
      s!"map<{elementType declaration.mapKey}, {elementType declaration.element}>"
  | some logical => scalarType logical

/-- The name of the type that a reference points at: its registered name, or the last segment of the
reference. -/
def referencedName (names : Listing String) (reference : String) : String :=
  (Listing.get? reference names).getD (lastSegment reference)

/-- The physical type of a declaration, if it gives one. -/
def physicalType? (declaration : Declaration) : Option String :=
  declaration.physical.filter fun type => !type.isEmpty

/-- The CQL type of a declaration. -/
def cqlType (names : Listing String) (declaration : Declaration) : String :=
  match declaration.reference with
  | some reference => s!"frozen<{Text.quoteIdentifier (referencedName names reference)}>"
  | none => (physicalType? declaration).getD (logicalType declaration)

/-- For each type that others convert to in place, these others. -/
def conversions : Listing (List String) :=
  [ ("blob",
      [ "ascii", "bigint", "boolean", "decimal", "double", "float", "inet", "int", "timestamp",
        "timeuuid", "uuid", "varchar", "varint" ]),
    ("varint", ["int"]),
    ("varchar", ["text"]),
    ("uuid", ["timeuuid"]),
    ("text", ["varchar"]) ]

/-- The types that convert to a type in place. -/
def acceptedSources? (new : String) : Option (List String) :=
  Listing.get? new conversions

/-- Whether a type converts to another in place. -/
def isConvertible (old new : String) : Bool :=
  ((acceptedSources? new).getD []).contains old

end Cql
end CqlDelta
