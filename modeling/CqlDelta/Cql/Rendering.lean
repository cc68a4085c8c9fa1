import CqlDelta.Cql.Options
import CqlDelta.Cql.Table

/-!
# The text of statements

Every statement has one text, which ends with a semicolon. Keyspaces are written by their bare
names, everything else by quoted ones.
-/

namespace CqlDelta
namespace Cql

open Delta Text

/-- The strategy of a keyspace that names none. -/
def defaultStrategy : String := "SimpleStrategy"

/-- The strategy that takes a factor for each data center. -/
def dataCenterStrategy : String := "NetworkTopologyStrategy"

/-- The text of a factor; one replica if none is given. -/
def factorText (factor : Option Factor) : String :=
  (factor.map Factor.display).getD "1"

/-- The entry of a data center. -/
def dataCenterEntry (center : DataCenter) : String :=
  s!"'{center.name}' : {factorText center.factor}"

/-- The strategy of settings. -/
def Settings.strategyName (settings : Settings) : String :=
  if settings.strategy.isEmpty then defaultStrategy else settings.strategy

/-- The entries of the replication map. -/
def Settings.entries (settings : Settings) : List String :=
  s!"'class' : '{settings.strategyName}'" ::
    if settings.strategyName = dataCenterStrategy then
      settings.dataCenters.map dataCenterEntry
    else
      [s!"'replication_factor' : {factorText settings.factor}"]

/-- The replication clause. -/
def Settings.replicationClause (settings : Settings) : String :=
  "WITH REPLICATION = \x7b\n\t" ++ String.intercalate ",\n\t" settings.entries ++ "\n\x7d"

/-- The clause of durable writes. -/
def durableWritesClause (durableWrites : Bool) : String :=
  s!"AND DURABLE_WRITES = {durableWrites}"

/-- The head of a keyspace statement, followed by the settings. -/
def withSettings (head : String) (settings : Settings) : String :=
  s!"{head}\n{indent settings.replicationClause}\n{durableWritesClause settings.durableWrites};"

/-- A text without blanks at its end and with a semicolon there. -/
def terminate (script : String) : String :=
  let kept := trimEnd script.toList
  if kept.getLast? = some ';' then String.ofList kept else String.ofList (kept ++ [';'])

/-- The qualified name of a table. -/
def TableName.qualified (table : TableName) : String :=
  qualifiedName table.keyspace table.table

/-- The qualified name of a type. -/
def TypeName.qualified (type : TypeName) : String :=
  qualifiedName (some type.keyspace) type.type

/-- The head of a statement that alters a table. -/
def alterTableHead (table : TableName) : String :=
  s!"ALTER TABLE {table.qualified}"

/-- The head of a statement that alters a type. -/
def alterTypeHead (type : TypeName) : String :=
  s!"ALTER TYPE {type.qualified}"

/-- The clauses of an altered table: a changed comment first, then the options. -/
def alterationClauses (comment : Option String) (options : List OptionClause) : List String :=
  (comment.map fun comment => s!"comment = {quoteLiteral comment}").toList
    ++ options.map OptionClause.render

/-- The clauses of an altered table, the first behind `WITH` and the others behind `AND`. -/
def clauseChain : List String → String
  | [] => ""
  | clause :: more => " WITH " ++ String.intercalate "\n AND " (clause :: more)

/-- The line of a type's field. -/
def typeFieldLine (field : TypeField) : String :=
  s!"\t{quoteIdentifier field.name} {field.type}"

/-- The text of a statement. -/
def Statement.render : Statement → String
  | .createKeyspace name settings => withSettings s!"CREATE KEYSPACE {name}" settings
  | .alterKeyspace name settings => withSettings s!"ALTER KEYSPACE {name}" settings
  | .dropKeyspace name => s!"DROP KEYSPACE {name};"
  | .createTable _ script => terminate script
  | .dropTable table => s!"DROP TABLE {table.qualified};"
  | .addColumn table column type =>
      s!"{alterTableHead table} ADD {quoteIdentifier column} {type};"
  | .dropColumn table column => s!"{alterTableHead table} DROP {quoteIdentifier column};"
  | .retypeColumn table column type =>
      s!"{alterTableHead table} ALTER {quoteIdentifier column} TYPE {type};"
  | .alterTable table comment options =>
      s!"{alterTableHead table}{clauseChain (alterationClauses comment options)};"
  | .createType name fields =>
      let body := String.intercalate ",\n" (fields.map typeFieldLine)
      s!"CREATE TYPE IF NOT EXISTS {name.qualified} (\n{body}\n);"
  | .dropType name => s!"DROP TYPE {name.qualified};"
  | .addTypeField type field =>
      s!"{alterTypeHead type} ADD {quoteIdentifier field.name} {field.type};"
  | .retypeTypeField type field =>
      s!"{alterTypeHead type} ALTER {quoteIdentifier field.name} TYPE {field.type};"
  | .renameTypeField type old new =>
      s!"{alterTypeHead type} RENAME {quoteIdentifier old} TO {quoteIdentifier new};"

/-- The script of statements: the text of each, followed by a blank line. -/
def renderScript (statements : List Statement) : String :=
  String.join (statements.map fun statement => statement.render ++ "\n\n")

end Cql
end CqlDelta
