import CqlDelta.Cql.Statement
import CqlDelta.Delta.Reading
import CqlDelta.Delta.Writing

/-!
# The JSON form of statements

A statement is an object whose key `kind` names what it does and whose other keys depend on that. It
is read from an object, where the kind may stand anywhere, or from a list that starts with the kind;
everything but the kind is read ahead, and looked at once the kind is known and the value complete.
-/

namespace CqlDelta
namespace Cql

open Delta Json

/-! ## Writing -/

/-- Settings. -/
def Settings.toValue (settings : Settings) : Value :=
  .object
    [ ("strategy", .text settings.strategy),
      ("factor", valueOr Factor.toValue settings.factor),
      ("data_centers", .list (settings.dataCenters.map DataCenter.toValue)),
      ("durable_writes", .bool settings.durableWrites) ]

/-- A type's field. -/
def TypeField.toValue (field : TypeField) : Value :=
  .object [("name", .text field.name), ("cql_type", .text field.type)]

/-- A table option. -/
def OptionClause.toValue (clause : OptionClause) : Value :=
  .object [("key", .text clause.key), ("value", .text clause.value)]

/-- The keyspace and the name of a table. -/
def TableName.members (table : TableName) : List (String × Value) :=
  [("keyspace", .ofText? table.keyspace), ("table", .text table.table)]

/-- The keyspace of a type, and its name under a key. -/
def TypeName.members (type : TypeName) (key : String) : List (String × Value) :=
  [("keyspace", .text type.keyspace), (key, .text type.type)]

/-- A kind, followed by the members that belong to it. -/
def ofKind (kind : String) (members : List (String × Value)) : Value :=
  .object (("kind", .text kind) :: members)

/-- A statement. -/
def Statement.toValue : Statement → Value
  | .createKeyspace name settings =>
      ofKind "create_keyspace" [("name", .text name), ("settings", settings.toValue)]
  | .alterKeyspace name settings =>
      ofKind "alter_keyspace" [("name", .text name), ("settings", settings.toValue)]
  | .dropKeyspace name => ofKind "drop_keyspace" [("name", .text name)]
  | .createTable table script =>
      ofKind "create_table" (table.members ++ [("script", .text script)])
  | .dropTable table => ofKind "drop_table" table.members
  | .addColumn table column type =>
      ofKind "add_column" (table.members ++ [("column", .text column), ("cql_type", .text type)])
  | .dropColumn table column =>
      ofKind "drop_column" (table.members ++ [("column", .text column)])
  | .retypeColumn table column type =>
      ofKind "alter_column_type"
        (table.members ++ [("column", .text column), ("cql_type", .text type)])
  | .alterTable table comment options =>
      ofKind "alter_table_options"
        (table.members
          ++ [ ("comment", .ofText? comment),
               ("options", .list (options.map OptionClause.toValue)) ])
  | .createType name fields =>
      ofKind "create_type"
        (name.members "name" ++ [("fields", .list (fields.map TypeField.toValue))])
  | .dropType name => ofKind "drop_type" (name.members "name")
  | .addTypeField type field =>
      ofKind "add_type_field" (type.members "type_name" ++ [("field", field.toValue)])
  | .retypeTypeField type field =>
      ofKind "alter_type_field" (type.members "type_name" ++ [("field", field.toValue)])
  | .renameTypeField type old new =>
      ofKind "rename_type_field"
        (type.members "type_name" ++ [("old_name", .text old), ("new_name", .text new)])

/-- A plan. -/
def planValue (statements : List Statement) : Value :=
  .object [("statements", .list (statements.map Statement.toValue))]

/-! ## Reading -/

/-- Settings. -/
def settingsRecord : Record Settings :=
  ⟨"struct KeyspaceSettings",
    [ .of "strategy" .fatal readString fun value s => { s with strategy := value },
      .of "factor" .optional (readOption readStrictFactor) fun value s =>
        { s with factor := value },
      .of "data_centers" .fatal (readList dataCenterRecord.read) fun value s =>
        { s with dataCenters := value },
      .of "durable_writes" .fatal readBool fun value s => { s with durableWrites := value } ],
    {}⟩

/-- A type's field. -/
def typeFieldRecord : Record TypeField :=
  ⟨"struct TypeField",
    [ .of "name" .fatal readString fun value f => { f with name := value },
      .of "cql_type" .fatal readString fun value f => { f with type := value } ],
    ⟨"", ""⟩⟩

/-- A table option. -/
def optionRecord : Record OptionClause :=
  ⟨"struct TableOption",
    [ .of "key" .fatal readString fun value o => { o with key := value },
      .of "value" .fatal readString fun value o => { o with value := value } ],
    ⟨"", ""⟩⟩

/-- The values of all keys that a statement may have. -/
structure Parts where
  name : String := ""
  settings : Settings := {}
  tableKeyspace : Option String := none
  typeKeyspace : String := ""
  table : String := ""
  script : String := ""
  column : String := ""
  type : String := ""
  comment : Option String := none
  options : List OptionClause := []
  fields : List TypeField := []
  typeName : String := ""
  field : TypeField := ⟨"", ""⟩
  oldName : String := ""
  newName : String := ""

namespace Parts

/-- The table that the values name. -/
def tableName (parts : Parts) : TableName :=
  ⟨parts.tableKeyspace, parts.table⟩

/-- The type that the values name, by the key `type_name`. -/
def qualifiedType (parts : Parts) : TypeName :=
  ⟨parts.typeKeyspace, parts.typeName⟩

/-- The type that the values name, by the key `name`. -/
def namedType (parts : Parts) : TypeName :=
  ⟨parts.typeKeyspace, parts.name⟩

/-- A text that must be there. -/
def textField (key : String) (set : String → Parts → Parts) : RecordField Parts :=
  .of key .fatal readString set

/-- The key `name`. -/
def nameField : RecordField Parts :=
  textField "name" fun value p => { p with name := value }

/-- The key `settings`. -/
def settingsField : RecordField Parts :=
  .of "settings" .fatal settingsRecord.read fun value p => { p with settings := value }

/-- The keys that name a table. -/
def tableFields : List (RecordField Parts) :=
  [ .of "keyspace" .optional readText? fun value p => { p with tableKeyspace := value },
    textField "table" fun value p => { p with table := value } ]

/-- The key of a type's keyspace. -/
def typeKeyspaceField : RecordField Parts :=
  textField "keyspace" fun value p => { p with typeKeyspace := value }

/-- The keys that name a type whose fields are altered. -/
def typeFields : List (RecordField Parts) :=
  [ typeKeyspaceField, textField "type_name" fun value p => { p with typeName := value } ]

/-- The key `column`. -/
def columnField : RecordField Parts :=
  textField "column" fun value p => { p with column := value }

/-- The key `cql_type`. -/
def typeField : RecordField Parts :=
  textField "cql_type" fun value p => { p with type := value }

/-- The key `field`. -/
def fieldField : RecordField Parts :=
  .of "field" .fatal typeFieldRecord.read fun value p => { p with field := value }

end Parts

/-- A kind of statement: its keys, and the statement that their values make. -/
structure Kind where
  title : String
  fields : List (RecordField Parts)
  build : Parts → Statement

open Parts in
/-- The kinds of statements by their names. -/
def kinds : Listing Kind :=
  [ ("create_keyspace",
      ⟨"CreateKeyspace", [nameField, settingsField],
        fun p => .createKeyspace p.name p.settings⟩),
    ("alter_keyspace",
      ⟨"AlterKeyspace", [nameField, settingsField], fun p => .alterKeyspace p.name p.settings⟩),
    ("drop_keyspace", ⟨"DropKeyspace", [nameField], fun p => .dropKeyspace p.name⟩),
    ("create_table",
      ⟨"CreateTable",
        tableFields ++ [textField "script" fun value p => { p with script := value }],
        fun p => .createTable p.tableName p.script⟩),
    ("drop_table", ⟨"DropTable", tableFields, fun p => .dropTable p.tableName⟩),
    ("add_column",
      ⟨"AddColumn", tableFields ++ [columnField, typeField],
        fun p => .addColumn p.tableName p.column p.type⟩),
    ("drop_column",
      ⟨"DropColumn", tableFields ++ [columnField], fun p => .dropColumn p.tableName p.column⟩),
    ("alter_column_type",
      ⟨"AlterColumnType", tableFields ++ [columnField, typeField],
        fun p => .retypeColumn p.tableName p.column p.type⟩),
    ("alter_table_options",
      ⟨"AlterTableOptions",
        tableFields
          ++ [ .of "comment" .optional readText? fun value p => { p with comment := value },
               .of "options" .fatal (readList optionRecord.read) fun value p =>
                 { p with options := value } ],
        fun p => .alterTable p.tableName p.comment p.options⟩),
    ("create_type",
      ⟨"CreateType",
        [ typeKeyspaceField, nameField,
          .of "fields" .fatal (readList typeFieldRecord.read) fun value p =>
            { p with fields := value } ],
        fun p => .createType p.namedType p.fields⟩),
    ("drop_type",
      ⟨"DropType", [typeKeyspaceField, nameField], fun p => .dropType p.namedType⟩),
    ("add_type_field",
      ⟨"AddTypeField", typeFields ++ [fieldField], fun p => .addTypeField p.qualifiedType p.field⟩),
    ("alter_type_field",
      ⟨"AlterTypeField", typeFields ++ [fieldField],
        fun p => .retypeTypeField p.qualifiedType p.field⟩),
    ("rename_type_field",
      ⟨"RenameTypeField",
        typeFields
          ++ [ textField "old_name" fun value p => { p with oldName := value },
               textField "new_name" fun value p => { p with newName := value } ],
        fun p => .renameTypeField p.qualifiedType p.oldName p.newName⟩) ]

/-- The declaration of the values of a kind. -/
def Kind.record (kind : Kind) : Record Parts :=
  ⟨s!"struct variant Statement::{kind.title}", kind.fields, {}⟩

/-- Reads the members of a statement's object. The kind is read where it stands, everything else is
read ahead. -/
def readStatementMembers
    (route : Route)
    (stop : ObjectStop) :
    List (Content × Tree) → Option Kind → List (Content × Tree) → Except ReadError Statement
  | [], kind, aside => do
      ending stop.readFault?
      match kind with
      | none => .error (.missingKey "kind")
      | some kind => do
          let parts ← Record.readMembers kind.fields .ahead .closed aside.reverse [] {}
          return kind.build parts
  | (content, tree) :: more, kind, aside => do
      let key ← contentOf content
      if key = "kind" then
        match kind with
        | some _ => .error (.repeatedKey "kind")
        | none => do
            let kind ← readName kinds route tree
            readStatementMembers route stop more (some kind) aside
      else do
        readAny route tree
        readStatementMembers route stop more kind ((content, tree) :: aside)

/-- Reads the elements of a statement's list. -/
def readStatementElements
    (route : Route)
    (stop : ListStop) :
    List Tree → Except ReadError Statement
  | [] => do
      ending stop.readFault?
      .error (.missingKey "kind")
  | tree :: more => do
      let kind ← readName kinds route tree
      readAnyItems route more
      ending stop.readFault?
      let parts ← Record.readElements kind.record .ahead .closed kind.fields 0 more {}
      return kind.build parts

/-- Reads a statement. -/
def readStatement : Reader Statement := fun route tree =>
  match tree with
  | .object members stop => do
      let inner ← route.enter
      readStatementMembers inner stop members none []
  | .list items stop => do
      let inner ← route.enter
      readStatementElements inner stop items
  | tree => .error (tree.mismatch "internally tagged enum Statement")

/-- A plan. -/
def planRecord : Record (List Statement) :=
  ⟨"struct AlterScript", [.of "statements" .fatal (readList readStatement) fun value _ => value],
    []⟩

end Cql
end CqlDelta
