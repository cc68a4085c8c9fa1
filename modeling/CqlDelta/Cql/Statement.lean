import CqlDelta.Delta.Attributes

/-!
# Statements

A statement is one change of a schema: what it does and to which object, before any text is written.
Tables may stand without a keyspace, types never do.
-/

namespace CqlDelta
namespace Cql

open Delta

/-- The replication and durability of a keyspace. -/
structure Settings where
  /-- The replication strategy; empty if none is given. -/
  strategy : String := ""
  factor : Option Factor := none
  dataCenters : List DataCenter := []
  durableWrites : Bool := false
deriving DecidableEq, Repr

/-- The settings that an element declares. -/
def Settings.ofElement (element : Element) : Settings :=
  { strategy := element.strategy.getD ""
    factor := element.factor
    dataCenters := element.dataCenters.getD []
    durableWrites := element.durableWrites.getD false }

/-- A table and its keyspace, if that is known. -/
structure TableName where
  keyspace : Option String
  table : String
deriving DecidableEq, Repr

/-- A user-defined type in its keyspace. -/
structure TypeName where
  keyspace : String
  type : String
deriving DecidableEq, Repr

/-- A field of a user-defined type, with its CQL type. -/
structure TypeField where
  name : String
  type : String
deriving DecidableEq, Repr

/-- A table option, as it is written. -/
structure OptionClause where
  key : String
  value : String
deriving DecidableEq, Repr

/-- One change of a schema. -/
inductive Statement where
  | createKeyspace (name : String) (settings : Settings)
  | alterKeyspace (name : String) (settings : Settings)
  | dropKeyspace (name : String)
  | createTable (table : TableName) (script : String)
  | dropTable (table : TableName)
  | addColumn (table : TableName) (column type : String)
  | dropColumn (table : TableName) (column : String)
  | retypeColumn (table : TableName) (column type : String)
  | alterTable (table : TableName) (comment : Option String) (options : List OptionClause)
  | createType (name : TypeName) (fields : List TypeField)
  | dropType (name : TypeName)
  | addTypeField (type : TypeName) (field : TypeField)
  | retypeTypeField (type : TypeName) (field : TypeField)
  | renameTypeField (type : TypeName) (old new : String)
deriving DecidableEq, Repr

namespace Statement

/-- What a statement does, in words. -/
def description : Statement → String
  | .createKeyspace name _ => s!"Create keyspace '{name}'"
  | .alterKeyspace name _ => s!"Alter keyspace '{name}'"
  | .dropKeyspace name => s!"Drop keyspace '{name}'"
  | .createTable table _ => s!"Create table '{table.table}'"
  | .dropTable table => s!"Drop table '{table.table}'"
  | .addColumn table column _ => s!"Add column '{column}' to table '{table.table}'"
  | .dropColumn table column => s!"Drop column '{column}' from table '{table.table}'"
  | .retypeColumn table column type =>
      s!"Change type of column '{column}' in table '{table.table}' to {type}"
  | .alterTable table _ _ => s!"Alter options of table '{table.table}'"
  | .createType name _ => s!"Create type '{name.type}' in keyspace '{name.keyspace}'"
  | .dropType name => s!"Drop type '{name.type}' from keyspace '{name.keyspace}'"
  | .addTypeField type field => s!"Add field '{field.name}' to type '{type.type}'"
  | .retypeTypeField type field =>
      s!"Change type of field '{field.name}' in type '{type.type}' to {field.type}"
  | .renameTypeField type old new => s!"Rename field '{old}' to '{new}' in type '{type.type}'"

/-- Whether a statement removes data. -/
def isDestructive : Statement → Bool
  | .dropKeyspace _ => true
  | .dropTable _ => true
  | .dropColumn _ _ => true
  | .dropType _ => true
  | _ => false

end Statement
end Cql
end CqlDelta
