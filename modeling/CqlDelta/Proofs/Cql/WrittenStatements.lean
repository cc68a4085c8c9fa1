import CqlDelta.Cql.Exchange
import CqlDelta.Proofs.Delta.Attributes
import CqlDelta.Proofs.Json.Layouts

/-!
# Statements written and read again

Every statement is recovered from its written form, and so is a plan. Of an object of a statement
everything but the kind is set aside until the kind is known (`readStatementMembers_aside`); what
was set aside is then read as a record of that kind, and `recovers_kind` says what a kind has to
bring along. Written plans nest six levels at most.
-/

namespace CqlDelta
namespace Cql

open Delta Json

/-! ## What statements are made of -/

theorem recovers_bool
    (value : Bool) :
    Recovers readBool .bool value :=
  fun _ _ => rfl

/-- A factor is also read where nothing else may stand. -/
theorem recovers_strictFactor
    (factor : Factor) :
    Recovers readStrictFactor Factor.toValue factor := by
  intro route _
  cases factor with
  | text content => rfl
  | number n =>
      simp [Factor.toValue, Value.toTree, readStrictFactor, readAhead, readAny, value?_toNat,
        bind, Except.bind, pure, Except.pure]

theorem recovers_settings
    (settings : Settings) :
    Recovers settingsRecord.read Settings.toValue settings := by
  refine Record.recovers_all rfl (by simp [fieldKeys, settingsRecord, RecordField.of]) ?_
  intro route
  have hfactor (factor : Factor) : factor.toValue.toTree.isNull = false := by
    cases factor <;> rfl
  refine .field (recovers_string settings.strategy) ?_
  refine .field
    (recovers_valueOr settings.factor (fun factor _ => recovers_strictFactor factor) hfactor) ?_
  refine .field (recovers_list fun center _ => recovers_dataCenter center) ?_
  refine .field (recovers_bool settings.durableWrites) ?_
  exact .nil settings

theorem recovers_typeField
    (field : TypeField) :
    Recovers typeFieldRecord.read TypeField.toValue field := by
  refine Record.recovers_all rfl (by simp [fieldKeys, typeFieldRecord, RecordField.of]) ?_
  intro route
  refine .field (recovers_string field.name) ?_
  refine .field (recovers_string field.type) ?_
  exact .nil field

theorem recovers_optionClause
    (clause : OptionClause) :
    Recovers optionRecord.read OptionClause.toValue clause := by
  refine Record.recovers_all rfl (by simp [fieldKeys, optionRecord, RecordField.of]) ?_
  intro route
  refine .field (recovers_string clause.key) ?_
  refine .field (recovers_string clause.value) ?_
  exact .nil clause

/-! ## Kinds -/

/-- The keys of a kind are distinct, and none of them is that of the kind itself. -/
theorem keys_of_kinds :
    ∀ entry ∈ kinds, ("kind" :: fieldKeys entry.2.fields).Nodup := by
  simp [kinds, fieldKeys, RecordField.of, Parts.nameField, Parts.settingsField, Parts.tableFields,
    Parts.typeKeyspaceField, Parts.typeFields, Parts.columnField, Parts.typeField,
    Parts.fieldField, Parts.textField]

/-- Behind the kind all members are set aside, and read once the object is complete. -/
theorem readStatementMembers_aside
    (kind : Kind)
    {route : Route}
    {members : List (String × Value)}
    (hkeys : ∀ member ∈ members, member.1 ≠ "kind")
    (hany : ∀ member ∈ members, readAny route member.2.toTree = .ok ())
    (aside : List (Content × Tree)) :
    readStatementMembers route .closed (Value.treeMembersOf members) (some kind) aside =
      (Record.readMembers kind.fields .ahead .closed
        (aside.reverse ++ Value.treeMembersOf members) [] {}).map kind.build := by
  induction members generalizing aside with
  | nil =>
      rw [Value.treeMembersOf, List.append_nil, readStatementMembers]
      cases Record.readMembers kind.fields .ahead .closed aside.reverse [] {} <;> rfl
  | cons member more ih =>
      obtain ⟨key, value⟩ := member
      rw [List.forall_mem_cons] at hkeys hany
      have hmore := ih hkeys.2 hany.2 ((.ok key, value.toTree) :: aside)
      rw [List.reverse_cons, List.append_assoc, List.singleton_append] at hmore
      rw [Value.treeMembersOf, readStatementMembers, contentOf, ok_bind, if_neg hkeys.1, hany.1,
        ok_bind, hmore]

/-- A statement is recovered if what is written for the keys of its kind leads to values that make
it. -/
theorem recovers_kind
    (name : String)
    (parts : Parts)
    {kind : Kind}
    {members : List (String × Value)}
    {statement : Statement}
    (hkind : Listing.get? name kinds = some kind)
    (hwrite : statement.toValue = ofKind name members)
    (hbuild : kind.build parts = statement)
    (hreplays :
      Replays .ahead kind.fields (members.map fun member => (member.1, some member.2)) {} parts) :
    Recovers readStatement Statement.toValue statement := by
  intro route hany
  rw [hwrite, ofKind] at hany ⊢
  obtain ⟨inner, henter, hmembers⟩ := readAny_of_object hany
  rw [List.forall_mem_cons] at hmembers
  have hnodup := List.nodup_cons.mp (keys_of_kinds _ (Listing.mem_of_get? hkind))
  have hother : ∀ member ∈ members, member.1 ≠ "kind" := by
    rintro member hmember hname
    have hkey : member.1 ∈ (members.map fun member => (member.1, some member.2)).map Prod.fst := by
      rw [List.map_map]
      exact List.mem_map_of_mem hmember
    rw [hreplays.keys, hname] at hkey
    exact hnodup.1 hkey
  have hpresent := present_map_some members
  have hahead : ∀ member ∈ members, readAny .ahead member.2.toTree = .ok () :=
    fun member hmember => readAny_ahead (hmembers.2 member hmember)
  have hread :=
    readMembers_replays [] hreplays (by rwa [hpresent]) hnodup.2 [] (by simp) (by simp)
  rw [hpresent, List.nil_append] at hread
  have haside := readStatementMembers_aside kind hother hmembers.2 []
  rw [List.reverse_nil, List.nil_append, hread] at haside
  simp only [Value.toTree, Value.treeMembersOf, readStatement, henter, ok_bind,
    readStatementMembers, contentOf, if_true, readName, hkind, haside, Except.map, hbuild]

/-! ## Statements -/

/-- The values that name a table. -/
def Parts.ofTable (table : TableName) : Parts :=
  { tableKeyspace := table.keyspace, table := table.table }

/-- The values that name a type whose fields are altered. -/
def Parts.ofType (type : TypeName) : Parts :=
  { typeKeyspace := type.keyspace, typeName := type.type }

/-- The name of a table is replayed in front of what else is said of it. -/
theorem replays_table
    {route : Route}
    {fields : List (RecordField Parts)}
    {members : List (String × Value)}
    {goal : Parts}
    (table : TableName)
    (h : Replays route fields (members.map fun member => (member.1, some member.2))
      (Parts.ofTable table) goal) :
    Replays route (Parts.tableFields ++ fields)
      ((table.members ++ members).map fun member => (member.1, some member.2)) {} goal := by
  refine .field (recovers_ofText? table.keyspace) ?_
  refine .field (recovers_string table.table) ?_
  exact h

/-- The name of a type is replayed in front of what is said of its fields. -/
theorem replays_type
    {route : Route}
    {fields : List (RecordField Parts)}
    {members : List (String × Value)}
    {goal : Parts}
    (type : TypeName)
    (h : Replays route fields (members.map fun member => (member.1, some member.2))
      (Parts.ofType type) goal) :
    Replays route (Parts.typeFields ++ fields)
      ((type.members "type_name" ++ members).map fun member => (member.1, some member.2)) {}
      goal := by
  refine .field (recovers_string type.keyspace) ?_
  refine .field (recovers_string type.type) ?_
  exact h

/-- Every statement is read back from what is written of it. -/
theorem recovers_statement
    (statement : Statement) :
    Recovers readStatement Statement.toValue statement := by
  cases statement with
  | createKeyspace name settings =>
      refine recovers_kind "create_keyspace" { name, settings } rfl rfl rfl ?_
      refine .field (recovers_string name) ?_
      refine .field (recovers_settings settings) ?_
      exact .nil _
  | alterKeyspace name settings =>
      refine recovers_kind "alter_keyspace" { name, settings } rfl rfl rfl ?_
      refine .field (recovers_string name) ?_
      refine .field (recovers_settings settings) ?_
      exact .nil _
  | dropKeyspace name =>
      refine recovers_kind "drop_keyspace" { name } rfl rfl rfl ?_
      refine .field (recovers_string name) ?_
      exact .nil _
  | createTable table script =>
      refine recovers_kind "create_table" { Parts.ofTable table with script } rfl rfl rfl ?_
      refine replays_table table ?_
      refine .field (recovers_string script) ?_
      exact .nil _
  | dropTable table =>
      refine recovers_kind "drop_table" (Parts.ofTable table) rfl rfl rfl ?_
      exact replays_table table (.nil _)
  | addColumn table column type =>
      refine recovers_kind "add_column" { Parts.ofTable table with column, type } rfl rfl rfl ?_
      refine replays_table table ?_
      refine .field (recovers_string column) ?_
      refine .field (recovers_string type) ?_
      exact .nil _
  | dropColumn table column =>
      refine recovers_kind "drop_column" { Parts.ofTable table with column } rfl rfl rfl ?_
      refine replays_table table ?_
      refine .field (recovers_string column) ?_
      exact .nil _
  | retypeColumn table column type =>
      refine recovers_kind "alter_column_type" { Parts.ofTable table with column, type }
        rfl rfl rfl ?_
      refine replays_table table ?_
      refine .field (recovers_string column) ?_
      refine .field (recovers_string type) ?_
      exact .nil _
  | alterTable table comment options =>
      refine recovers_kind "alter_table_options" { Parts.ofTable table with comment, options }
        rfl rfl rfl ?_
      refine replays_table table ?_
      refine .field (recovers_ofText? comment) ?_
      refine .field (recovers_list fun clause _ => recovers_optionClause clause) ?_
      exact .nil _
  | createType name fields =>
      refine recovers_kind "create_type"
        { typeKeyspace := name.keyspace, name := name.type, fields } rfl rfl rfl ?_
      refine .field (recovers_string name.keyspace) ?_
      refine .field (recovers_string name.type) ?_
      refine .field (recovers_list fun field _ => recovers_typeField field) ?_
      exact .nil _
  | dropType name =>
      refine recovers_kind "drop_type" { typeKeyspace := name.keyspace, name := name.type }
        rfl rfl rfl ?_
      refine .field (recovers_string name.keyspace) ?_
      refine .field (recovers_string name.type) ?_
      exact .nil _
  | addTypeField type field =>
      refine recovers_kind "add_type_field" { Parts.ofType type with field } rfl rfl rfl ?_
      refine replays_type type ?_
      refine .field (recovers_typeField field) ?_
      exact .nil _
  | retypeTypeField type field =>
      refine recovers_kind "alter_type_field" { Parts.ofType type with field } rfl rfl rfl ?_
      refine replays_type type ?_
      refine .field (recovers_typeField field) ?_
      exact .nil _
  | renameTypeField type old new =>
      refine recovers_kind "rename_type_field"
        { Parts.ofType type with oldName := old, newName := new } rfl rfl rfl ?_
      refine replays_type type ?_
      refine .field (recovers_string old) ?_
      refine .field (recovers_string new) ?_
      exact .nil _

/-! ## Whole texts -/

/-- Only the factors of a statement are numbers, and they keep to 64 bits. -/
theorem fits_statement
    (statement : Statement) :
    statement.toValue.fits := by
  cases statement <;>
    simp [Statement.toValue, ofKind, TableName.members, TypeName.members, Settings.toValue,
      DataCenter.toValue, TypeField.toValue, OptionClause.toValue]

theorem nesting_settings
    (settings : Settings) :
    settings.toValue.nesting ≤ 3 := by
  have hfactor (factor : Option Factor) : (valueOr Factor.toValue factor).nesting = 0 := by
    cases factor <;> simp [valueOr]
  have hcenters : (Value.list (settings.dataCenters.map DataCenter.toValue)).nesting ≤ 2 := by
    simp [nesting_list_le_iff, DataCenter.toValue, nesting_object_le_iff, hfactor]
  simp [Settings.toValue, nesting_object_le_iff, hcenters]

/-- The settings of a keyspace nest deepest. -/
theorem nesting_statement
    (statement : Statement) :
    statement.toValue.nesting ≤ 4 := by
  have hsettings := nesting_settings
  have hfields (fields : List TypeField) :
      (Value.list (fields.map TypeField.toValue)).nesting ≤ 3 := by
    simp [nesting_list_le_iff, TypeField.toValue, nesting_object_le_iff]
  have hoptions (options : List OptionClause) :
      (Value.list (options.map OptionClause.toValue)).nesting ≤ 3 := by
    simp [nesting_list_le_iff, OptionClause.toValue, nesting_object_le_iff]
  cases statement <;>
    simp [Statement.toValue, ofKind, TableName.members, TypeName.members, nesting_object_le_iff,
      hsettings, hfields, hoptions, TypeField.toValue]

/-- A statement is read back from its tree. -/
theorem read_statementValue
    (statement : Statement) :
    (Document.mk statement.toValue.toTree false).read readStatement = .ok statement := by
  refine read_eq_ok_iff.mpr ⟨recovers_statement statement .root (readAny_toTree ?_ ?_), rfl⟩
  · exact fits_statement statement
  · rintro levels ⟨rfl⟩
    exact Nat.le_trans (nesting_statement statement) (by decide)

/-- Whatever a statement is about, it is read back from its text, both from the compact one and from
the one with every element on a line of its own. -/
theorem written_statement_is_read_back
    (statement : Statement) :
    (Document.ofText statement.toValue.compact).read readStatement = .ok statement ∧
      (Document.ofText (statement.toValue.indented ++ "\n")).read readStatement =
        .ok statement := by
  rw [ofText_compact, ofText_indented]
  exact ⟨read_statementValue statement, read_statementValue statement⟩

theorem nesting_plan
    (statements : List Statement) :
    (planValue statements).nesting ≤ 6 := by
  have hstatements : (Value.list (statements.map Statement.toValue)).nesting ≤ 5 := by
    simp [nesting_list_le_iff, nesting_statement]
  simpa [planValue, nesting_object_le_iff] using hstatements

theorem recovers_plan
    (statements : List Statement) :
    Recovers planRecord.read planValue statements := by
  refine Record.recovers_all rfl (by simp [fieldKeys, planRecord, RecordField.of]) ?_
  intro route
  refine .field (recovers_list fun statement _ => recovers_statement statement) ?_
  exact .nil statements

/-- A plan is read back from its tree. -/
theorem read_planValue
    (statements : List Statement) :
    planRecord.read .root (planValue statements).toTree = .ok statements := by
  refine recovers_plan statements .root (readAny_toTree ?_ ?_)
  · simp [planValue, fits_statement]
  · rintro levels ⟨rfl⟩
    exact Nat.le_trans (nesting_plan statements) (by decide)

end Cql
end CqlDelta
