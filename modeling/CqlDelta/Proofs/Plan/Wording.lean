import CqlDelta.Proofs.Delta.Contents
import CqlDelta.Proofs.Plan.Entries
import CqlDelta.Proofs.Plan.EntryStatements

/-!
# The wording of a plan

Every statement of a plan is worded after its entry: names, comments and options stand in it as the
entry gives them, and types as they are resolved from the entry's declarations. `worded_of_mem` is
the inversion, with one form for each way in which a statement comes about; an entry contains
nothing that its comparison does not (`StandsAt.holds`).
-/

namespace CqlDelta
namespace Plan

open Cql Delta

/-- The wording of a statement, out of the entry that it is said of. -/
inductive Worded (scope : Scope) (entry : String × Node) : Statement → Prop
  | createKeyspace {element : Element}
      (declared : entry.2.element = some element) :
      Worded scope entry
        (.createKeyspace (element.name.getD entry.1) (.ofElement element))
  | alterKeyspace {element : Element}
      (declared : entry.2.element = some element) :
      Worded scope entry
        (.alterKeyspace (element.name.getD entry.1) (.ofElement element))
  | dropKeyspace {element : Element}
      (declared : entry.2.element = some element) :
      Worded scope entry (.dropKeyspace (element.name.getD entry.1))
  | createTable {change : Change} {columns : Members}
      (changed : entry.2.elementChange? = some change)
      (declared : entry.2.properties = some columns) :
      Worded scope entry
        (.createTable ⟨change.keyspace, entry.1⟩
          (composeTable scope.names (draftOf ⟨change.keyspace, entry.1⟩ entry.2 columns)))
  | dropTable {change : Change}
      (changed : entry.2.elementChange? = some change) :
      Worded scope entry (.dropTable ⟨change.keyspace, entry.1⟩)
  | alterTable {change : Change}
      (changed : entry.2.elementChange? = some change) :
      Worded scope entry
        (.alterTable ⟨change.keyspace, entry.1⟩ (newComment? change) (newOptions change))
  | addColumn {change : Change} {columns : Members} {column : String × Node}
      (changed : entry.2.elementChange? = some change)
      (declared : entry.2.properties = some columns)
      (among : column ∈ columns) :
      Worded scope entry
        (.addColumn ⟨change.keyspace, entry.1⟩ column.1
          (cqlType scope.names column.2.declaration))
  | dropColumn {change : Change} {columns : Members} {column : String × Node}
      (changed : entry.2.elementChange? = some change)
      (declared : entry.2.properties = some columns)
      (among : column ∈ columns) :
      Worded scope entry (.dropColumn ⟨change.keyspace, entry.1⟩ column.1)
  | retypeColumn {change : Change} {columns : Members} {column : String × Node}
      {retype : Change} {sides : Declaration × Declaration}
      (changed : entry.2.elementChange? = some change)
      (declared : entry.2.properties = some columns)
      (among : column ∈ columns)
      (retyped : retype ∈ column.2.changes)
      (redeclared : declarations? retype = some sides) :
      Worded scope entry
        (.retypeColumn ⟨change.keyspace, entry.1⟩ column.1 (cqlType scope.names sides.2))
  | createPlacedType {placement : Placement} {keyspace : String}
      (placed : entry.2.placement? = some placement)
      (among : keyspace ∈ placement.names) :
      Worded scope entry (.createType ⟨keyspace, entry.1⟩ (initialFields scope entry.2))
  | createType
      (unplaced : entry.2.placement? = none) :
      Worded scope entry
        (.createType ⟨scope.options.defaultKeyspace, entry.1⟩ (initialFields scope entry.2))
  | dropTypeColumn {placement : Placement} {home : String × List TableUse} {use : TableUse}
      (placed : entry.2.placement? = some placement)
      (among : home ∈ placement)
      (used : use ∈ home.2) :
      Worded scope entry (.dropColumn ⟨some home.1, use.table⟩ entry.1)
  | dropType {placement : Placement} {keyspace : String}
      (placed : entry.2.placement? = some placement)
      (among : keyspace ∈ placement.names) :
      Worded scope entry (.dropType ⟨keyspace, entry.1⟩)
  | addTypeField {placement : Placement} {keyspace : String} {field : String × Node}
      (placed : entry.2.placement? = some placement)
      (among : keyspace ∈ placement.names)
      (declared : field ∈ fieldsOf entry.2) :
      Worded scope entry (.addTypeField ⟨keyspace, entry.1⟩ (typeField scope field))
  | retypeTypeField {placement : Placement} {keyspace : String} {field : String × Node}
      {change : Change} {sides : Declaration × Declaration}
      (placed : entry.2.placement? = some placement)
      (among : keyspace ∈ placement.names)
      (declared : field ∈ fieldsOf entry.2)
      (changed : change ∈ field.2.changes)
      (redeclared : declarations? change = some sides) :
      Worded scope entry
        (.retypeTypeField ⟨keyspace, entry.1⟩
          ⟨((change.name.bind Revision.changed?).map Prod.fst).getD field.1,
            cqlType scope.names sides.2⟩)
  | renameTypeField {placement : Placement} {keyspace : String} {field : String × Node}
      {change : Change} {names : String × String}
      (placed : entry.2.placement? = some placement)
      (among : keyspace ∈ placement.names)
      (declared : field ∈ fieldsOf entry.2)
      (changed : change ∈ field.2.changes)
      (renamed : change.name.bind Revision.changed? = some names) :
      Worded scope entry (.renameTypeField ⟨keyspace, entry.1⟩ names.1 names.2)

/-- Whether a statement is about a keyspace. -/
def isOfKeyspace : Statement → Bool
  | .createKeyspace _ _ | .alterKeyspace _ _ | .dropKeyspace _ => true
  | _ => false

theorem isOfKeyspace_of_keyspaceStatement?
    {fate : Fate}
    {entry : String × Node}
    {statement : Statement}
    (h : keyspaceStatement? fate entry = some statement) :
    isOfKeyspace statement = true := by
  obtain ⟨element, -, rfl⟩ := Option.map_eq_some_iff.mp h
  cases fate <;> rfl

/-! ## Entries -/

theorem worded_of_keyspaceStatement?
    {scope : Scope}
    {fate : Fate}
    {entry : String × Node}
    {statement : Statement}
    (h : keyspaceStatement? fate entry = some statement) :
    Worded scope entry statement := by
  obtain ⟨element, declared, rfl⟩ := Option.map_eq_some_iff.mp h
  cases fate with
  | created => exact .createKeyspace declared
  | dropped => exact .dropKeyspace declared
  | altered => exact .alterKeyspace declared

theorem worded_of_columnStatements
    {scope : Scope}
    {edit : ColumnEdit}
    {entry : String × Node}
    {change : Change}
    {columns : Members}
    {column : String × Node}
    {statement : Statement}
    (changed : entry.2.elementChange? = some change)
    (declared : entry.2.properties = some columns)
    (among : column ∈ columns)
    (h : statement ∈ columnStatements scope edit ⟨change.keyspace, entry.1⟩ column) :
    Worded scope entry statement := by
  rcases columnStatements_cases h with ⟨-, type, hretype, rfl⟩ | ⟨-, rfl⟩ | ⟨-, rfl⟩
  · obtain ⟨retype, hchange, hretype⟩ := Option.bind_eq_some_iff.mp hretype
    obtain ⟨sides, redeclared, hretype⟩ := Option.bind_eq_some_iff.mp hretype
    obtain ⟨-, htype⟩ := Option.ite_none_right_eq_some.mp hretype
    obtain rfl := Option.some.inj htype
    exact .retypeColumn changed declared among (by simp [Node.changes, hchange]) redeclared
  · exact .addColumn changed declared among
  · exact .dropColumn changed declared among

theorem worded_of_alterTable
    {scope : Scope}
    {edit : ColumnEdit}
    {entry : String × Node}
    {change : Change}
    {columns : Members}
    {statement : Statement}
    (changed : entry.2.elementChange? = some change)
    (declared : entry.2.properties = some columns)
    (h : statement ∈ alterTable scope edit ⟨change.keyspace, entry.1⟩ change columns) :
    Worded scope entry statement := by
  rcases mem_alterTable_iff.mp h with ⟨-, hoptions⟩ | ⟨column, among, hcolumn⟩
  · obtain rfl := eq_alterTable_of_optionStatement? hoptions
    exact .alterTable changed
  · exact worded_of_columnStatements changed declared among hcolumn

theorem worded_of_entryTrail
    {scope : Scope}
    {edit : ColumnEdit}
    {entry : String × Node}
    {statement : Statement}
    (h : statement ∈ (entryTrail scope edit entry).statements) :
    Worded scope entry statement := by
  rw [entryTrail] at h
  split at h
  · simp [Trail.statements] at h
  · rename_i change changed
    split at h
    · rw [Trail.statements_ofStatements, List.mem_singleton] at h
      exact h ▸ .dropTable changed
    · split at h
      · simp [Trail.statements] at h
      · rename_i columns declared
        split at h
        · rw [createTrail] at h
          split at h
          · simp [Trail.stop, Trail.statements] at h
          · obtain rfl := List.mem_singleton.mp h
            exact .createTable changed declared
        · rw [Trail.statements_ofStatements] at h
          exact worded_of_alterTable changed declared h

theorem worded_of_addedType
    {scope : Scope}
    {entry : String × Node}
    {statement : Statement}
    (h : .statement statement ∈ addedType scope entry) :
    Worded scope entry statement := by
  rw [addedType] at h
  split at h
  · rw [createType] at h
    split at h
    · rename_i placement placed
      obtain ⟨keyspace, among, heq⟩ := List.mem_map.mp h
      obtain rfl := Event.statement.inj heq
      exact .createPlacedType placed among
    · rename_i unplaced
      simp only [List.mem_cons, List.not_mem_nil, or_false, reduceCtorEq, false_or,
        Event.statement.injEq] at h
      exact h ▸ .createType unplaced
  · rw [addTypeFields] at h
    split at h
    · simp at h
    · rename_i placement placed
      obtain ⟨field, declared, hfield⟩ := List.mem_flatMap.mp h
      obtain ⟨keyspace, among, heq⟩ := List.mem_map.mp hfield
      obtain rfl := Event.statement.inj heq
      exact .addTypeField placed among declared

theorem worded_of_deletedType
    {scope : Scope}
    {entry : String × Node}
    {statement : Statement}
    (h : .statement statement ∈ deletedType entry) :
    Worded scope entry statement := by
  cases tells_of_deletedType h with
  | statement said =>
      cases said with
      | dropColumn deleted placed among used named => exact .dropTypeColumn placed among used
      | drop deleted placed among => exact .dropType placed among

theorem worded_of_modifiedType
    {scope : Scope}
    {entry : String × Node}
    {statement : Statement}
    (h : .statement statement ∈ modifiedType scope entry) :
    Worded scope entry statement := by
  rw [modifiedType] at h
  split at h
  · simp at h
  · rename_i placement placed
    obtain ⟨field, declared, hfield⟩ := List.mem_flatMap.mp h
    rw [modifiedField] at hfield
    split at hfield
    · simp at hfield
    · rename_i change more hchanges
      have changed : change ∈ field.2.changes := by simp [hchanges]
      rcases List.mem_append.mp hfield with hnotes | hstatements
      · split at hnotes <;> simp at hnotes
      · obtain ⟨keyspace, among, hstatement⟩ := List.mem_flatMap.mp hstatements
        rcases List.mem_append.mp hstatement with hretype | hrename
        · obtain ⟨types, htypes, heq⟩ :=
            Option.map_eq_some_iff.mp (Option.mem_toList.mp hretype)
          obtain rfl := Event.statement.inj heq
          obtain ⟨hretype, -⟩ := Option.filter_eq_some_iff.mp htypes
          obtain ⟨sides, redeclared, hretype⟩ := Option.bind_eq_some_iff.mp hretype
          obtain ⟨-, hsides⟩ := Option.ite_none_right_eq_some.mp hretype
          obtain rfl := Option.some.inj hsides
          exact .retypeTypeField placed among declared changed redeclared
        · obtain ⟨names, renamed, heq⟩ :=
            Option.map_eq_some_iff.mp (Option.mem_toList.mp hrename)
          obtain rfl := Event.statement.inj heq
          exact .renameTypeField placed among declared changed renamed

/-- Whatever an entry leads to is worded after it. -/
theorem worded_of_mem
    {scope : Scope}
    {spot : Spot}
    {entry : String × Node}
    {statement : Statement}
    (h : statement ∈ (spot.trail scope entry).statements) :
    Worded scope entry statement := by
  obtain ⟨passages, part, nested, index⟩ := spot
  cases part with
  | containers =>
      simp only [Spot.trail, Trail.statements_ofStatements, Option.mem_toList] at h
      exact worded_of_keyspaceStatement? h
  | entities => simp [Spot.trail, Trail.statements] at h
  | modified => exact worded_of_entryTrail h
  | deleted => exact worded_of_entryTrail h
  | added => exact worded_of_entryTrail h
  | definitions =>
      simp only [Spot.trail] at h
      split at h
      · rename_i part hlast
        have hevent : .statement statement ∈ TypeEntry.events scope ⟨⟨index, entry⟩, part⟩ :=
          mem_statementsOf_iff.mp h
        cases part with
        | added => exact worded_of_addedType hevent
        | deleted => exact worded_of_deletedType hevent
        | modified => exact worded_of_modifiedType hevent
        | _ => simp [TypeEntry.events] at hevent
      · simp [Trail.statements] at h

/-- A changed option of a table is made of a clause of the new options. -/
theorem exists_clause_of_mem_newOptions
    {change : Change}
    {option : OptionClause}
    (h : option ∈ newOptions change) :
    ∃ options, change.options = some options ∧
      ∃ clause ∈ clauses (options.new.getD ""), option = .ofText clause := by
  rw [newOptions] at h
  split at h
  · simp at h
  · rename_i options hoptions
    obtain ⟨clause, hclause, rfl⟩ := List.mem_map.mp h
    exact ⟨options, hoptions, clause, (List.mem_filter.mp hclause).1, rfl⟩

/-! ## Comparisons -/

variable {document : Node} {spot : Spot} {entry : String × Node}

/-- The fields of a type are in the comparison that holds it. -/
theorem holds_field
    (h : document.Holds entry)
    {field : String × Node}
    (hfield : field ∈ fieldsOf entry.2) :
    document.Holds field := by
  cases hproperties : entry.2.properties with
  | none => simp [fieldsOf, hproperties] at hfield
  | some members =>
      rw [fieldsOf, hproperties, Option.getD_some] at hfield
      exact Node.holds_member h.within hproperties hfield

/-- The declaration on the new side of a change says what the change says. -/
theorem declarations?_phrases
    {change : Change}
    {sides : Declaration × Declaration}
    (h : declarations? change = some sides) :
    sides.2.phrases ⊆ change.phrases := by
  obtain ⟨before, after, -, hafter, -, hnew⟩ := declarations?_eq_some_iff.mp h
  intro phrase hphrase
  simp [Change.phrases, Snapshot.phrases, hafter, hnew, hphrase]

/-- The type to which a change of an entry leads is declared in the comparison. -/
theorem redeclared_phrases
    (h : document.Holds entry)
    {change : Change}
    (hchange : change ∈ entry.2.changes)
    {sides : Declaration × Declaration}
    (hsides : declarations? change = some sides) :
    sides.2.phrases ⊆ document.phrases :=
  List.Subset.trans (declarations?_phrases hsides)
    (List.Subset.trans (Node.change_phrases hchange) h.own)

/-- An entry that stands in a comparison is held by it. -/
theorem StandsAt.holds
    (h : StandsAt document spot entry) :
    document.Holds entry := by
  obtain ⟨items, hfollow, hfound⟩ := h.found
  obtain ⟨members, hmembers, hentry⟩ := List.mem_flatten.mp (List.mem_of_getElem? hfound)
  obtain ⟨node, hnode, hproperties⟩ := List.mem_filterMap.mp hmembers
  have hwithin := List.Subset.trans (View.within_nodes hnode) (View.within_follow? hfollow)
  exact Node.holds_member hwithin hproperties hentry

/-- A statement of a plan that succeeds is worded after an entry of its comparison. -/
theorem exists_wording_of_mem
    {scope : Scope}
    {statement : Statement}
    (hfault : (trailOf scope (.single document)).fault = none)
    (h : statement ∈ (trailOf scope (.single document)).statements) :
    ∃ entry, document.Holds entry ∧ Worded scope entry statement := by
  obtain ⟨spot, entry, hstands, hsaid⟩ := exists_entry_of_mem_statements hfault h
  exact ⟨entry, hstands.holds, worded_of_mem hsaid⟩

end Plan
end CqlDelta
