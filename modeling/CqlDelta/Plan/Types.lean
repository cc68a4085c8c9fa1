import CqlDelta.Plan.Making
import CqlDelta.Plan.Scope

/-!
# Changes of user-defined types

A type may be defined in several keyspaces, and what is said about it is said in each of them, in
the order of its placement. New types are created whole, except for fields that refer to other
types; a deleted type is first taken out of the tables that use it; a changed field is retyped under
its old name and then renamed.
-/

namespace CqlDelta
namespace Plan

open Cql Delta

/-- Whether a type is created. -/
def isCreated (type : Node) : Bool :=
  type.changes.any Change.created

/-- Whether a type is deleted. -/
def isDeleted (type : Node) : Bool :=
  type.changes.any Change.deleted

/-- The members of a node; none if they are absent. -/
def fieldsOf (node : Node) : Members :=
  node.properties.getD []

/-- A field with its CQL type. -/
def typeField (scope : Scope) (field : String × Node) : TypeField :=
  ⟨field.1, cqlType scope.names field.2.declaration⟩

/-- The fields with which a type is created. -/
def initialFields (scope : Scope) (type : Node) : List TypeField :=
  ((fieldsOf type).filter fun field => field.2.declaration.reference.isNone).map (typeField scope)

/-- A created type: in every keyspace of its placement, or in the default keyspace if it has
none. -/
def createType (scope : Scope) (name : String) (type : Node) : List Event :=
  let fields := initialFields scope type
  let create (keyspace : String) : Event := .statement (.createType ⟨keyspace, name⟩ fields)
  match type.placement? with
  | some placement => placement.names.map create
  | none =>
      let keyspace := scope.options.defaultKeyspace
      [.note (.defaultKeyspace name keyspace), create keyspace]

/-- New fields of a type, one after another, each in every keyspace. -/
def addTypeFields (scope : Scope) (name : String) (type : Node) : List Event :=
  match type.placement? with
  | none => []
  | some placement =>
      (fieldsOf type).flatMap fun field =>
        placement.names.map fun keyspace =>
          .statement (.addTypeField ⟨keyspace, name⟩ (typeField scope field))

/-- An entry among the added types. -/
def addedType (scope : Scope) (entry : String × Node) : List Event :=
  if isCreated entry.2 then createType scope entry.1 entry.2
  else addTypeFields scope entry.1 entry.2

/-- The columns of a type in the tables of a keyspace that use it. Tables without a name are left
out. -/
def dropTypeColumns (name : String) (home : String × List TableUse) : List Event :=
  (home.2.filter fun use => !use.table.isEmpty).map fun use =>
    .statement (.dropColumn ⟨some home.1, use.table⟩ name)

/-- An entry among the deleted types: out of all tables, then out of all keyspaces. -/
def deletedType (entry : String × Node) : List Event :=
  if isDeleted entry.2 then
    match entry.2.placement? with
    | none => []
    | some placement =>
        placement.flatMap (dropTypeColumns entry.1)
          ++ placement.names.map fun keyspace => .statement (.dropType ⟨keyspace, entry.1⟩)
  else
    []

/-- The retype of a type's field: both sides declare a type, and the types differ. -/
def fieldRetype? (scope : Scope) (change : Change) : Option Retype := do
  let sides ← declarations? change
  let types := scope.retype sides
  if sides.1.declaresType && sides.2.declaresType && types.old ≠ types.new then
    return types
  else
    none

/-- A changed field of a type. A retype that is not possible in place is only noted. -/
def modifiedField
    (scope : Scope)
    (name : String)
    (placement : Placement)
    (field : String × Node) :
    List Event :=
  match field.2.changes with
  | [] => []
  | change :: _ =>
      let rename := change.name.bind Revision.changed?
      let current := (rename.map Prod.fst).getD field.1
      let retype := fieldRetype? scope change
      let possible := retype.filter fun types => isConvertible types.old types.new
      let notes : List Event :=
        match retype, possible with
        | some types, none => [.note (.inconvertible types.old types.new)]
        | _, _ => []
      notes ++ placement.names.flatMap fun keyspace =>
        (possible.map fun types =>
          Event.statement (.retypeTypeField ⟨keyspace, name⟩ ⟨current, types.new⟩)).toList
        ++ (rename.map fun names =>
          Event.statement (.renameTypeField ⟨keyspace, name⟩ names.1 names.2)).toList

/-- An entry among the modified types. -/
def modifiedType (scope : Scope) (entry : String × Node) : List Event :=
  match entry.2.placement? with
  | none => []
  | some placement => (fieldsOf entry.2).flatMap (modifiedField scope entry.1 placement)

/-- What the entries of a section's items lead to. -/
def typeEntries (visit : String × Node → List Event) (view : View) : List Event :=
  match view.branch? .items with
  | none => []
  | some items => items.entries.flatMap visit

/-- What a branch below a type section leads to. -/
def typeBranch
    (scope : Scope)
    (view : View)
    (along : Branch → Option (List Event))
    (branch : Branch) :
    List Event :=
  let entries (visit : String × Node → List Event) : List Event :=
    match view.branch? branch with
    | none => []
    | some inner => typeEntries visit inner
  match branch with
  | .part .added => entries (addedType scope)
  | .part .deleted => entries deletedType
  | .part .modified => entries (modifiedType scope)
  | _ => (along branch).getD []

/-- The branches below a type section, in order. -/
def typeBranches : List Branch :=
  [.properties, .part .added, .part .deleted, .part .modified, .items]

/-- What a view leads to, out of what is along its branches. -/
def typeVisit (scope : Scope) (view : View) (along : Branch → Option (List Event)) : List Event :=
  typeBranches.flatMap (typeBranch scope view along)

/-- What a section of user-defined types leads to. -/
def typeChanges (scope : Scope) (view : View) : List Event :=
  View.walk (typeVisit scope) view

end Plan
end CqlDelta
