import CqlDelta.Cql.Statement
import CqlDelta.Cql.Typing
import CqlDelta.Delta.Node
import CqlDelta.Text.Blank
import CqlDelta.Text.Lines

/-!
# Composing a table

A table is composed from a draft: the declaration of its columns, its keyspace, and its keys, which
name columns by their identifiers. A draft keeps the shape in which it is handed over, where each
part may be missing; without a table there is nothing to compose.
-/

namespace CqlDelta
namespace Cql

open Delta Text

/-- The table part of a draft. -/
structure TableDraft where
  name : String := ""
  /-- The identifiers of the partition key's columns. -/
  partitionKey : List String := []
  /-- The identifiers of the clustering key's columns. -/
  clusteringKey : List String := []
  options : String := ""
  comment : String := ""
deriving DecidableEq, Repr

/-- Everything that is handed over for composing a table. -/
structure Draft where
  columns : Option Node := none
  /-- The keyspaces; the first one counts. -/
  keyspaces : List (Option String) := []
  /-- The tables; the first one counts. -/
  tables : List TableDraft := []

/-- A name in quotes, behind its keyspace in quotes if there is one with a name. -/
def qualifiedName (keyspace : Option String) (name : String) : String :=
  match keyspace.filter fun keyspace => !keyspace.isEmpty with
  | some keyspace => s!"{quoteIdentifier keyspace}.{quoteIdentifier name}"
  | none => quoteIdentifier name

/-- The columns of a draft, in order. -/
def Draft.columnList (draft : Draft) : Members :=
  (draft.columns.bind Node.properties).getD []

/-- The name of the first column with an identifier. -/
def columnByGuid? (guid : String) (columns : Members) : Option String :=
  (columns.find? fun column => column.2.declaration.guid == some guid).map Prod.fst

/-- The quoted names of the columns of a key, in its order. Identifiers of no column are left
out. -/
def keyColumns (key : List String) (columns : Members) : List String :=
  key.filterMap fun guid => (columnByGuid? guid columns).map quoteIdentifier

/-- The line of a column. -/
def columnLine (names : Listing String) (column : String × Node) : String :=
  s!"{quoteIdentifier column.1} {cqlType names column.2.declaration}"

/-- The line of the primary key, if the partition key has columns. -/
def primaryKeyLine? (table : TableDraft) (columns : Members) : Option String :=
  match keyColumns table.partitionKey columns with
  | [] => none
  | partition =>
      let first := "(" ++ String.intercalate ", " partition ++ ")"
      let parts := first :: keyColumns table.clusteringKey columns
      some ("PRIMARY KEY (" ++ String.intercalate ", " parts ++ ")")

/-- The options of a table, followed by its comment. Blank options and an empty comment are left
out. -/
def tableClauses (table : TableDraft) : List String :=
  let options := String.ofList (trim table.options.toList)
  (if options.isEmpty then [] else [options])
    ++ (if table.comment.isEmpty then [] else [s!"comment = {quoteLiteral table.comment}"])

/-- The text that creates a table; empty if the draft has none. -/
def composeTable (names : Listing String) (draft : Draft) : String :=
  match draft.tables with
  | [] => ""
  | table :: _ =>
      let columns := draft.columnList
      let lines := columns.map (columnLine names) ++ (primaryKeyLine? table columns).toList
      let head := qualifiedName draft.keyspaces.head?.join table.name
      let body := indent (String.intercalate ",\n" lines)
      let options :=
        match tableClauses table with
        | [] => ""
        | clauses => "\nWITH " ++ String.intercalate "\nAND " clauses
      s!"CREATE TABLE IF NOT EXISTS {head} (\n{body}\n){options};"

end Cql
end CqlDelta
