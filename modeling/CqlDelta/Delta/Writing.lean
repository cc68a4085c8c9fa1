import CqlDelta.Delta.Node
import CqlDelta.Json.Value

/-!
# Writing a comparison

The JSON form of a comparison. A node leaves out what is absent, and a declaration leaves out flags
that are not set; every other attribute is written, `null` if it is absent. Members are written as
an object, in their order.
-/

namespace CqlDelta
namespace Delta

open Json

/-- A value, or `null`. -/
def valueOr {α : Type} (write : α → Value) : Option α → Value
  | none => .null
  | some value => write value

/-- A flag, if it is set. -/
def setFlag? (flag : Bool) : Option Value :=
  if flag then some (.bool true) else none

/-- The members of a declaration. -/
def Declaration.members (declaration : Declaration) : List (String × Value) :=
  Value.present
    [ ("type", declaration.logical.map .text),
      ("mode", declaration.physical.map .text),
      ("$ref", declaration.reference.map .text),
      ("subtype", declaration.element.map .text),
      ("keySubtype", declaration.mapKey.map .text),
      ("GUID", declaration.guid.map .text),
      ("compositePartitionKey", setFlag? declaration.inPartitionKey),
      ("compositeClusteringKey", setFlag? declaration.inClusteringKey) ]

/-- A declaration. -/
def Declaration.toValue (declaration : Declaration) : Value :=
  .object declaration.members

/-- A value before and after. -/
def Revision.toValue (revision : Revision) : Value :=
  .object [("new", .ofText? revision.new), ("old", .ofText? revision.old)]

/-- A declaration on one side. -/
def Snapshot.toValue (snapshot : Snapshot) : Value :=
  .object [("properties", valueOr Declaration.toValue snapshot.declaration)]

/-- A table that uses a type. -/
def TableUse.toValue (use : TableUse) : Value :=
  .object [("collectionName", .text use.table)]

/-- The keyspaces of a type. -/
def placementValue (placement : Placement) : Value :=
  .object (placement.map fun entry => (entry.1, .list (entry.2.map TableUse.toValue)))

/-- A change. -/
def Change.toValue (change : Change) : Value :=
  .object
    [ ("created", .bool change.created),
      ("deleted", .bool change.deleted),
      ("keyspaceName", .ofText? change.keyspace),
      ("tableOptions", valueOr Revision.toValue change.options),
      ("comments", valueOr Revision.toValue change.comment),
      ("oldField", valueOr Snapshot.toValue change.before),
      ("newField", valueOr Snapshot.toValue change.after),
      ("name", valueOr Revision.toValue change.name),
      ("bucketsWithCurrentDefinition", valueOr placementValue change.placement) ]

/-- A factor. -/
def Factor.toValue : Factor → Value
  | .number n => .number n.toNat
  | .text content => .text content

/-- A data center. -/
def DataCenter.toValue (center : DataCenter) : Value :=
  .object
    [ ("dataCenterName", .text center.name),
      ("replFactorValue", valueOr Factor.toValue center.factor) ]

/-- An element. -/
def Element.toValue (element : Element) : Value :=
  .object
    [ ("name", .ofText? element.name),
      ("compMod", valueOr Change.toValue element.change),
      ("replStrategy", .ofText? element.strategy),
      ("replFactor", valueOr Factor.toValue element.factor),
      ("dataCenters",
        valueOr (fun centers => .list (centers.map DataCenter.toValue)) element.dataCenters),
      ("durableWrites", valueOr .bool element.durableWrites),
      ("tableOptions", .ofText? element.options),
      ("comments", .ofText? element.comment) ]

mutual

/-- A node. -/
def Node.toValue : Node → Value
  | ⟨properties, items, containers, entities, definitions, modified, deleted, added, element,
      change, declaration⟩ =>
      .object <|
        Value.present
          [ ("properties", membersValue? properties),
            ("items", itemsValue? items),
            ("containers", innerValue? containers),
            ("entities", innerValue? entities),
            ("modelDefinitions", innerValue? definitions),
            ("modified", innerValue? modified),
            ("deleted", innerValue? deleted),
            ("added", innerValue? added),
            ("role", element.map Element.toValue),
            ("compMod", change.map Change.toValue) ]
        ++ declaration.members

/-- The members of a node. -/
def membersValue? : Option (List (String × Node)) → Option Value
  | none => none
  | some members => some (.object (memberValues members))

/-- Named nodes. -/
def memberValues : List (String × Node) → List (String × Value)
  | [] => []
  | (name, node) :: rest => (name, node.toValue) :: memberValues rest

/-- The items of a node. -/
def itemsValue? : Option (Items Node) → Option Value
  | none => none
  | some (.one node) => some node.toValue
  | some (.many nodes) => some (.list (nodeValues nodes))

/-- A list of nodes. -/
def nodeValues : List Node → List Value
  | [] => []
  | node :: rest => node.toValue :: nodeValues rest

/-- The node in a part. -/
def innerValue? : Option Node → Option Value
  | none => none
  | some node => some node.toValue

end

/-- The names of user-defined types. -/
def typeNamesValue (names : Listing String) : Value :=
  .object (names.map fun entry => (entry.1, .text entry.2))

end Delta
end CqlDelta
