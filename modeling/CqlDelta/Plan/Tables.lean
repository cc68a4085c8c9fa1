import CqlDelta.Cql.Options
import CqlDelta.Plan.Making
import CqlDelta.Plan.Scope

/-!
# Changes of tables

A table entry is dropped, created, or altered. What happens to the columns of an altered table
depends on the section it stands in; in a legacy model a column is retyped in place where that is
possible. A created table hands its draft over before it is composed, and every column of its keys
needs an identifier.
-/

namespace CqlDelta
namespace Plan

open Cql Delta

/-- What happens to the columns of a section's tables. -/
inductive ColumnEdit where
  | add
  | drop
  | replace
deriving DecidableEq, Repr

/-- The statements that edit a column. Replacing is dropping and adding again. -/
def ColumnEdit.statements
    (edit : ColumnEdit)
    (table : TableName)
    (column type : String) :
    List Statement :=
  match edit with
  | .add => [.addColumn table column type]
  | .drop => [.dropColumn table column]
  | .replace => [.dropColumn table column, .addColumn table column type]

/-- The new type of a column that changes in place. -/
def columnRetype? (scope : Scope) (column : Node) : Option String := do
  let change ← column.change
  let types := scope.retype (← declarations? change)
  if isConvertible types.old types.new then return types.new else none

/-- The statements for a column of an altered table. -/
def columnStatements
    (scope : Scope)
    (edit : ColumnEdit)
    (table : TableName)
    (column : String × Node) :
    List Statement :=
  match if scope.legacy then columnRetype? scope column.2 else none with
  | some type => [.retypeColumn table column.1 type]
  | none => edit.statements table column.1 (cqlType scope.names column.2.declaration)

/-- The options of a change that are new; an absent side has none. -/
def newOptions (change : Change) : List OptionClause :=
  match change.options with
  | none => []
  | some options => changedOptions (options.new.getD "") (options.old.getD "")

/-- The comment of a change, if it differs from an old one. -/
def newComment? (change : Change) : Option String :=
  (change.comment.bind Revision.changed?).map Prod.snd

/-- The statement for the options and the comment of an altered table, if any of them is new. -/
def optionStatement? (table : TableName) (change : Change) : Option Statement :=
  match newComment? change, newOptions change with
  | none, [] => none
  | comment, options => some (.alterTable table comment options)

/-- Whether a column belongs to a key. -/
def isKeyColumn (column : String × Node) : Bool :=
  column.2.declaration.inPartitionKey || column.2.declaration.inClusteringKey

/-- The first column of a key without an identifier. -/
def unidentified? (columns : Members) : Option String :=
  (columns.find? fun column => isKeyColumn column && column.2.declaration.guid.isNone).map Prod.fst

/-- The identifiers of the columns with a mark, in order. -/
def markedGuids (mark : Declaration → Bool) (columns : Members) : List String :=
  (columns.filter fun column => mark column.2.declaration).filterMap fun column =>
    column.2.declaration.guid

/-- The draft of a created table. -/
def draftOf (table : TableName) (node : Node) (columns : Members) : Draft :=
  { columns := some node
    keyspaces := [table.keyspace]
    tables :=
      [ { name := table.table
          partitionKey := markedGuids Declaration.inPartitionKey columns
          clusteringKey := markedGuids Declaration.inClusteringKey columns
          options := (node.element.bind Element.options).getD ""
          comment := (node.element.bind Element.comment).getD "" } ] }

/-- Creates a table: hands its draft over, and composes the table from the draft in the context. -/
def createTable
    (scope : Scope)
    (table : TableName)
    (node : Node)
    (columns : Members) :
    Making (List Statement) :=
  match unidentified? columns with
  | some column => throw ⟨table.table, column⟩
  | none => do
      Making.handOver (draftOf table node columns)
      Making.note (.creatingTable table.table)
      let draft := (← get).context.draft
      return [.createTable table (composeTable scope.names draft)]

/-- Alters a table. Options and comments change only where columns are replaced. -/
def alterTable
    (scope : Scope)
    (edit : ColumnEdit)
    (table : TableName)
    (change : Change)
    (columns : Members) :
    List Statement :=
  (if edit = .replace then (optionStatement? table change).toList else [])
    ++ columns.flatMap (columnStatements scope edit table)

/-- What a table entry leads to. An entry without a change is left out, and so is one without
columns, unless it is deleted. -/
def tableEntry (scope : Scope) (edit : ColumnEdit) (entry : String × Node) :
    Making (List Statement) :=
  match entry.2.elementChange? with
  | none => return []
  | some change =>
      let table : TableName := ⟨change.keyspace, entry.1⟩
      if change.deleted then
        return [.dropTable table]
      else
        match entry.2.properties with
        | none => return []
        | some columns =>
            if change.created then createTable scope table entry.2 columns
            else return alterTable scope edit table change columns

/-- What a table section leads to. -/
def tableChanges (scope : Scope) (edit : ColumnEdit) (view : View) : Making (List Statement) :=
  match view.branch? .items with
  | none => return []
  | some items => Making.inTurn (items.entries.map (tableEntry scope edit))

end Plan
end CqlDelta
