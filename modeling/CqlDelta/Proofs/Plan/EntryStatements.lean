import CqlDelta.Proofs.Plan.Blocks

/-!
# What is said of an entry

Every statement that an entry of a table or of a type leads to has one of a few forms, and each form
comes with what the entry says to bring it about. `saidOfTable_of_mem` and `tells_of_mem` are the
inversions; whatever holds of all statements of some form is derived from them by cases.
-/

namespace CqlDelta
namespace Plan

open Cql Delta

/-! ## Events -/

theorem statementsOf_map
    {α : Type}
    (statement : α → Statement)
    (elements : List α) :
    statementsOf (elements.map fun element => .statement (statement element)) =
      elements.map statement := by
  simp [statementsOf, List.filterMap_map, Function.comp_def, Trail.statementOf?]

theorem mem_statementsOf_iff
    {events : List Event}
    {statement : Statement} :
    statement ∈ statementsOf events ↔ .statement statement ∈ events := by
  rw [statementsOf, List.mem_filterMap]
  constructor
  · rintro ⟨event, hevent, hstatement⟩
    cases event <;> simp [Trail.statementOf?] at hstatement
    exact hstatement ▸ hevent
  · exact fun h => ⟨_, h, rfl⟩

theorem declarations?_eq_some_iff
    {change : Change}
    {sides : Declaration × Declaration} :
    declarations? change = some sides ↔
      ∃ before after, change.before = some before ∧ change.after = some after ∧
        before.declaration = some sides.1 ∧ after.declaration = some sides.2 := by
  constructor
  · intro h
    obtain ⟨before, hbefore, h⟩ := Option.bind_eq_some_iff.mp h
    obtain ⟨old, hold, h⟩ := Option.bind_eq_some_iff.mp h
    obtain ⟨after, hafter, h⟩ := Option.bind_eq_some_iff.mp h
    obtain ⟨new, hnew, h⟩ := Option.bind_eq_some_iff.mp h
    obtain rfl := Option.some.inj h
    exact ⟨before, after, hbefore, hafter, hold, hnew⟩
  · rintro ⟨before, after, hbefore, hafter, hold, hnew⟩
    simp [declarations?, hbefore, hafter, hold, hnew]

/-! ## Tables -/

theorem eq_alterTable_of_optionStatement?
    {table : TableName}
    {change : Change}
    {statement : Statement}
    (h : optionStatement? table change = some statement) :
    statement = .alterTable table (newComment? change) (newOptions change) := by
  rw [optionStatement?] at h
  split at h
  · simp at h
  · exact (Option.some.inj h).symm

/-- What is said of an altered table is said of its options, if its section replaces columns, or of
one of its columns. -/
theorem mem_alterTable_iff
    {scope : Scope}
    {edit : ColumnEdit}
    {table : TableName}
    {change : Change}
    {columns : Members}
    {statement : Statement} :
    statement ∈ alterTable scope edit table change columns ↔
      (edit = .replace ∧ optionStatement? table change = some statement) ∨
        ∃ column ∈ columns, statement ∈ columnStatements scope edit table column := by
  rw [alterTable, List.mem_append, List.mem_flatMap]
  split
  · rename_i hedit
    simp [hedit]
  · rename_i hedit
    simp [hedit]

/-- What is said of a column: a retype in place in a legacy model, else that it comes or goes. -/
theorem columnStatements_cases
    {scope : Scope}
    {edit : ColumnEdit}
    {table : TableName}
    {column : String × Node}
    {statement : Statement}
    (h : statement ∈ columnStatements scope edit table column) :
    (scope.legacy = true ∧ ∃ type, columnRetype? scope column.2 = some type ∧
        statement = .retypeColumn table column.1 type) ∨
      (edit ≠ .drop ∧
        statement = .addColumn table column.1 (cqlType scope.names column.2.declaration)) ∨
      (edit ≠ .add ∧ statement = .dropColumn table column.1) := by
  rw [columnStatements] at h
  split at h
  · rename_i type hretype
    obtain ⟨hlegacy, hretype⟩ := Option.ite_none_right_eq_some.mp hretype
    exact .inl ⟨hlegacy, type, hretype, List.mem_singleton.mp h⟩
  · cases edit with
    | add => exact .inr (.inl ⟨by simp, List.mem_singleton.mp h⟩)
    | drop => exact .inr (.inr ⟨by simp, List.mem_singleton.mp h⟩)
    | replace =>
        rcases List.mem_cons.mp h with h | h
        · exact .inr (.inr ⟨by simp, h⟩)
        · exact .inr (.inl ⟨by simp, List.mem_singleton.mp h⟩)

/-- What is said of an altered table: its options and comment, and each of its columns. -/
inductive SaidOfAlteredTable (edit : ColumnEdit) (table : TableName) (columns : Members) :
    Statement → Prop
  | options (comment : Option String) (options : List OptionClause) :
      SaidOfAlteredTable edit table columns (.alterTable table comment options)
  | retype {column : String × Node} (type : String) :
      column ∈ columns →
      SaidOfAlteredTable edit table columns (.retypeColumn table column.1 type)
  | add {column : String × Node} (type : String) :
      column ∈ columns →
      SaidOfAlteredTable edit table columns (.addColumn table column.1 type)
  | drop {column : String × Node} :
      column ∈ columns →
      edit ≠ .add →
      SaidOfAlteredTable edit table columns (.dropColumn table column.1)

theorem saidOfAlteredTable_of_columnStatements
    {scope : Scope}
    {edit : ColumnEdit}
    {table : TableName}
    {columns : Members}
    {column : String × Node}
    {statement : Statement}
    (hcolumn : column ∈ columns)
    (h : statement ∈ columnStatements scope edit table column) :
    SaidOfAlteredTable edit table columns statement := by
  rcases columnStatements_cases h with ⟨-, type, -, rfl⟩ | ⟨-, rfl⟩ | ⟨hedit, rfl⟩
  · exact .retype type hcolumn
  · exact .add _ hcolumn
  · exact .drop hcolumn hedit

theorem saidOfAlteredTable_of_mem
    {scope : Scope}
    {edit : ColumnEdit}
    {table : TableName}
    {change : Change}
    {columns : Members}
    {statement : Statement}
    (h : statement ∈ alterTable scope edit table change columns) :
    SaidOfAlteredTable edit table columns statement := by
  rcases mem_alterTable_iff.mp h with ⟨-, hoptions⟩ | ⟨column, hmem, hcolumn⟩
  · obtain rfl := eq_alterTable_of_optionStatement? hoptions
    exact .options _ _
  · exact saidOfAlteredTable_of_columnStatements hmem hcolumn

/-- What is said of a table entry: it is dropped, created or altered. -/
inductive SaidOfTable (scope : Scope) (edit : ColumnEdit) (entry : String × Node) :
    Statement → Prop
  | drop {change : Change}
      (changed : entry.2.elementChange? = some change)
      (deleted : change.deleted = true) :
      SaidOfTable scope edit entry (.dropTable ⟨change.keyspace, entry.1⟩)
  | create {change : Change} {columns : Members}
      (changed : entry.2.elementChange? = some change)
      (kept : change.deleted = false)
      (created : change.created = true)
      (declared : entry.2.properties = some columns) :
      SaidOfTable scope edit entry
        (.createTable ⟨change.keyspace, entry.1⟩
          (composeTable scope.names (draftOf ⟨change.keyspace, entry.1⟩ entry.2 columns)))
  | alter {change : Change} {columns : Members} {statement : Statement}
      (changed : entry.2.elementChange? = some change)
      (kept : change.deleted = false)
      (present : change.created = false)
      (declared : entry.2.properties = some columns)
      (said : SaidOfAlteredTable edit ⟨change.keyspace, entry.1⟩ columns statement) :
      SaidOfTable scope edit entry statement

theorem saidOfTable_of_mem
    {scope : Scope}
    {edit : ColumnEdit}
    {entry : String × Node}
    {statement : Statement}
    (h : statement ∈ (entryTrail scope edit entry).statements) :
    SaidOfTable scope edit entry statement := by
  rw [entryTrail] at h
  split at h
  · simp [Trail.statements] at h
  · rename_i change hchange
    split at h
    · rename_i hdeleted
      rw [Trail.statements_ofStatements, List.mem_singleton] at h
      subst h
      exact .drop hchange hdeleted
    · rename_i hkept
      rw [Bool.not_eq_true] at hkept
      split at h
      · simp [Trail.statements] at h
      · rename_i columns hcolumns
        split at h
        · rename_i hcreated
          rw [createTrail] at h
          split at h
          · simp [Trail.stop, Trail.statements] at h
          · obtain rfl := List.mem_singleton.mp h
            exact .create hchange hkept hcreated hcolumns
        · rename_i hpresent
          rw [Bool.not_eq_true] at hpresent
          rw [Trail.statements_ofStatements] at h
          exact .alter hchange hkept hpresent hcolumns (saidOfAlteredTable_of_mem h)

/-! ## Types -/

/-- What is said of a type entry in a part of a section of types. -/
inductive SaidOfType (entry : String × Node) : Part → Statement → Prop
  | create (keyspace : String) (fields : List TypeField)
      (created : isCreated entry.2 = true) :
      SaidOfType entry .added (.createType ⟨keyspace, entry.1⟩ fields)
  | addField (keyspace : String) (field : TypeField)
      (present : isCreated entry.2 = false) :
      SaidOfType entry .added (.addTypeField ⟨keyspace, entry.1⟩ field)
  | dropColumn {placement : Placement} {home : String × List TableUse} {use : TableUse}
      (deleted : isDeleted entry.2 = true)
      (placed : entry.2.placement? = some placement)
      (among : home ∈ placement)
      (used : use ∈ home.2)
      (named : use.table.isEmpty = false) :
      SaidOfType entry .deleted (.dropColumn ⟨some home.1, use.table⟩ entry.1)
  | drop {placement : Placement} {keyspace : String}
      (deleted : isDeleted entry.2 = true)
      (placed : entry.2.placement? = some placement)
      (among : keyspace ∈ placement.names) :
      SaidOfType entry .deleted (.dropType ⟨keyspace, entry.1⟩)
  | retypeField (keyspace : String) (field : TypeField) :
      SaidOfType entry .modified (.retypeTypeField ⟨keyspace, entry.1⟩ field)
  | renameField (keyspace old new : String) :
      SaidOfType entry .modified (.renameTypeField ⟨keyspace, entry.1⟩ old new)

/-- An event that is a note, or a statement of which something holds; nothing is handed over. -/
inductive Tells (Said : Statement → Prop) : Event → Prop
  | note (note : Note) : Tells Said (.note note)
  | statement {statement : Statement} (said : Said statement) : Tells Said (.statement statement)

theorem tells_of_createType
    {scope : Scope}
    {entry : String × Node}
    {event : Event}
    (created : isCreated entry.2 = true)
    (h : event ∈ createType scope entry.1 entry.2) :
    Tells (SaidOfType entry .added) event := by
  rw [createType] at h
  split at h
  · obtain ⟨keyspace, -, rfl⟩ := List.mem_map.mp h
    exact .statement (.create keyspace _ created)
  · rcases List.mem_cons.mp h with rfl | hcreate
    · exact .note _
    · obtain rfl := List.mem_singleton.mp hcreate
      exact .statement (.create _ _ created)

theorem tells_of_addedType
    {scope : Scope}
    {entry : String × Node}
    {event : Event}
    (h : event ∈ addedType scope entry) :
    Tells (SaidOfType entry .added) event := by
  rw [addedType] at h
  split at h
  · rename_i hcreated
    exact tells_of_createType hcreated h
  · rename_i hpresent
    rw [Bool.not_eq_true] at hpresent
    rw [addTypeFields] at h
    split at h
    · simp at h
    · obtain ⟨field, -, hfield⟩ := List.mem_flatMap.mp h
      obtain ⟨keyspace, -, rfl⟩ := List.mem_map.mp hfield
      exact .statement (.addField keyspace _ hpresent)

theorem tells_of_deletedType
    {entry : String × Node}
    {event : Event}
    (h : event ∈ deletedType entry) :
    Tells (SaidOfType entry .deleted) event := by
  rw [deletedType] at h
  split at h
  · rename_i hdeleted
    split at h
    · simp at h
    · rename_i placement hplacement
      rcases List.mem_append.mp h with hcolumns | htypes
      · obtain ⟨home, hhome, hcolumn⟩ := List.mem_flatMap.mp hcolumns
        obtain ⟨use, huse, rfl⟩ := List.mem_map.mp hcolumn
        obtain ⟨used, named⟩ := List.mem_filter.mp huse
        exact .statement (.dropColumn hdeleted hplacement hhome used (by simpa using named))
      · obtain ⟨keyspace, hkeyspace, rfl⟩ := List.mem_map.mp htypes
        exact .statement (.drop hdeleted hplacement hkeyspace)
  · simp at h

theorem tells_of_modifiedField
    {scope : Scope}
    {entry : String × Node}
    {placement : Placement}
    {field : String × Node}
    {event : Event}
    (h : event ∈ modifiedField scope entry.1 placement field) :
    Tells (SaidOfType entry .modified) event := by
  rw [modifiedField] at h
  split at h
  · simp at h
  · rcases List.mem_append.mp h with hnotes | hstatements
    · split at hnotes
      · obtain rfl := List.mem_singleton.mp hnotes
        exact .note _
      · simp at hnotes
    · obtain ⟨keyspace, -, hstatement⟩ := List.mem_flatMap.mp hstatements
      rcases List.mem_append.mp hstatement with hretype | hrename
      · obtain ⟨types, -, rfl⟩ := Option.map_eq_some_iff.mp (Option.mem_toList.mp hretype)
        exact .statement (.retypeField keyspace _)
      · obtain ⟨names, -, rfl⟩ := Option.map_eq_some_iff.mp (Option.mem_toList.mp hrename)
        exact .statement (.renameField keyspace _ _)

/-- Whatever a type entry leads to is noted or said of it. -/
theorem tells_of_mem
    {scope : Scope}
    {stop : TypeEntry}
    {event : Event}
    (h : event ∈ stop.events scope) :
    Tells (SaidOfType stop.entry stop.part) event := by
  obtain ⟨⟨index, entry⟩, part⟩ := stop
  cases part with
  | added => exact tells_of_addedType h
  | deleted => exact tells_of_deletedType h
  | modified =>
      simp only [TypeEntry.events, modifiedType] at h
      split at h
      · simp at h
      · obtain ⟨field, -, hfield⟩ := List.mem_flatMap.mp h
        exact tells_of_modifiedField hfield
  | containers => simp [TypeEntry.events] at h
  | entities => simp [TypeEntry.events] at h
  | definitions => simp [TypeEntry.events] at h

theorem saidOfType_of_mem
    {scope : Scope}
    {stop : TypeEntry}
    {statement : Statement}
    (h : .statement statement ∈ stop.events scope) :
    SaidOfType stop.entry stop.part statement := by
  cases tells_of_mem h with
  | statement said => exact said

end Plan
end CqlDelta
