import CqlDelta.Proofs.Plan.FieldRenames
import CqlDelta.Proofs.Plan.InPlace
import CqlDelta.Proofs.Plan.Removals

/-!
# What a plan retypes

A retype goes back to a change that declares a column of an altered table, or a field of a modified
type, before and after: the two types differ, and the earlier one is among those that convert to the
later one in place. Columns are only retyped in legacy models, and fields only if both declarations
give a type. A plan retypes all that the comparison says so of and nothing else, and columns and
fields are judged alike (`plan_retypes_exactly_what_converts_in_place`).
-/

namespace CqlDelta
namespace Plan

open Cql Delta

/-! ## Conversions -/

/-- No type is among those that convert to it. -/
theorem ne_of_isConvertible
    {old new : String}
    (h : isConvertible old new = true) :
    old ≠ new := by
  rintro rfl
  have hself : ∀ entry ∈ conversions, entry.1 ∉ entry.2 := by decide
  rw [isConvertible, acceptedSources?] at h
  cases hsources : Listing.get? old conversions with
  | none => simp [hsources] at h
  | some sources =>
      have hmem : old ∈ sources := by simpa [hsources] using h
      exact hself _ (Listing.mem_of_get? hsources) hmem

/-- Two declarations give different types, and the earlier type is among those that convert to the
later one in place. -/
structure ChangesInPlace (names : Listing String) (old new : Declaration) : Prop where
  differ : cqlType names old ≠ cqlType names new
  accepted : ∃ sources, acceptedSources? (cqlType names new) = some sources ∧
    cqlType names old ∈ sources

theorem changesInPlace_iff
    {names : Listing String}
    {old new : Declaration} :
    ChangesInPlace names old new ↔
      isConvertible (cqlType names old) (cqlType names new) = true := by
  constructor
  · rintro ⟨-, sources, haccepted, hmem⟩
    simpa [isConvertible, haccepted] using hmem
  · intro h
    refine ⟨ne_of_isConvertible h, ?_⟩
    rw [isConvertible] at h
    cases haccepted : acceptedSources? (cqlType names new) with
    | none => simp [haccepted] at h
    | some sources => exact ⟨sources, rfl, by simpa [haccepted] using h⟩

/-! ## Retypes that the comparison says -/

/-- A change declares its element before and after. -/
def Redeclares (change : Change) (old new : Declaration) : Prop :=
  ∃ before after, change.before = some before ∧ change.after = some after ∧
    before.declaration = some old ∧ after.declaration = some new

/-- Whether a statement retypes a column or a field. -/
def isRetype : Statement → Bool
  | .retypeColumn _ _ _ => true
  | .retypeTypeField _ _ => true
  | _ => false

/-- The comparison says that something is retyped: a column of an altered table, in a legacy model,
or a field of a modified type, in a keyspace of the type and under the name that the field had
before. -/
inductive JustifiedRetype (names : Listing String) (legacy : Bool) (document : Node) :
    Statement → Prop
  | column {spot : Spot} {entry column : String × Node} {change retype : Change}
      {columns : Members} {old new : Declaration}
      (isLegacy : legacy = true)
      (stands : StandsAt document spot entry)
      (inTables : isTablePart spot.part = true)
      (alters : AltersTable entry change columns)
      (among : column ∈ columns)
      (changed : column.2.change = some retype)
      (redeclared : Redeclares retype old new)
      (inPlace : ChangesInPlace names old new) :
      JustifiedRetype names legacy document
        (.retypeColumn ⟨change.keyspace, entry.1⟩ column.1 (cqlType names new))
  | field {spot : Spot} {entry field : String × Node} {placement : Placement}
      {keyspace name : String} {retype : Change} {old new : Declaration}
      (stands : StandsAt document spot entry)
      (inTypes : spot.part = .definitions)
      (inModified : spot.nested.getLast? = some (.part .modified))
      (placed : entry.2.placement? = some placement)
      (within : keyspace ∈ placement.names)
      (among : field ∈ fieldsOf entry.2)
      (changed : field.2.changes.head? = some retype)
      (redeclared : Redeclares retype old new)
      (typed : old.declaresType = true ∧ new.declaresType = true)
      (inPlace : ChangesInPlace names old new)
      (renamed : ∀ earlier later,
        retype.name.bind Revision.changed? = some (earlier, later) → name = earlier)
      (kept : retype.name.bind Revision.changed? = none → name = field.1) :
      JustifiedRetype names legacy document
        (.retypeTypeField ⟨keyspace, entry.1⟩ ⟨name, cqlType names new⟩)

theorem converts_iff_redeclares
    {names : Listing String}
    {column : Node}
    {type : String} :
    Converts names column type ↔
      ∃ change old new, column.change = some change ∧ Redeclares change old new ∧
        ChangesInPlace names old new ∧ type = cqlType names new := by
  constructor
  · rintro ⟨changed, earlier, later, declared, redeclared, convertible⟩
    exact ⟨_, _, _, changed, ⟨_, _, earlier, later, declared, redeclared⟩,
      changesInPlace_iff.mpr convertible, rfl⟩
  · rintro ⟨change, old, new, changed, ⟨_, _, earlier, later, declared, redeclared⟩, hplace, rfl⟩
    exact ⟨changed, earlier, later, declared, redeclared, changesInPlace_iff.mp hplace⟩

theorem retypedTo_iff_redeclares
    {names : Listing String}
    {field : String × Node}
    {type : String} :
    RetypedTo names field type ↔
      ∃ change old new, field.2.changes.head? = some change ∧ Redeclares change old new ∧
        (old.declaresType = true ∧ new.declaresType = true) ∧ ChangesInPlace names old new ∧
          type = cqlType names new := by
  constructor
  · rintro ⟨changed, earlier, later, declared, redeclared, typed, retyped, -, convertible⟩
    exact ⟨_, _, _, changed, ⟨_, _, earlier, later, declared, redeclared⟩, ⟨typed, retyped⟩,
      changesInPlace_iff.mpr convertible, rfl⟩
  · rintro ⟨change, old, new, changed, ⟨_, _, earlier, later, declared, redeclared⟩, htyped,
      hplace, rfl⟩
    exact ⟨changed, earlier, later, declared, redeclared, htyped.1, htyped.2, hplace.differ,
      changesInPlace_iff.mp hplace⟩

/-! ## Retypes among what entries lead to -/

variable {scope : Scope} {edit : ColumnEdit} {entry : String × Node} {statement : Statement}

theorem retype_mem_columnStatements_iff
    {table : TableName}
    {column : String × Node} :
    statement ∈ columnStatements scope edit table column ∧ isRetype statement = true ↔
      scope.legacy = true ∧ ∃ type, columnRetype? scope column.2 = some type ∧
        statement = .retypeColumn table column.1 type := by
  constructor
  · rintro ⟨hmem, hretype⟩
    rcases columnStatements_cases hmem with ⟨hlegacy, hcolumn⟩ | ⟨-, rfl⟩ | ⟨-, rfl⟩
    · exact ⟨hlegacy, hcolumn⟩
    · simp [isRetype] at hretype
    · simp [isRetype] at hretype
  · rintro ⟨hlegacy, type, hcolumn, rfl⟩
    simp [columnStatements, hlegacy, hcolumn, isRetype]

/-- An entry of tables retypes the columns of its altered table that convert, in a legacy model. -/
theorem retype_mem_entryTrail_iff :
    statement ∈ (entryTrail scope edit entry).statements ∧ isRetype statement = true ↔
      scope.legacy = true ∧ ∃ change columns, AltersTable entry change columns ∧
        ∃ column ∈ columns, ∃ type, Converts scope.names column.2 type ∧
          statement = .retypeColumn ⟨change.keyspace, entry.1⟩ column.1 type := by
  simp only [converts_iff]
  constructor
  · rintro ⟨hmem, hretype⟩
    cases saidOfTable_of_mem hmem with
    | drop changed deleted => simp [isRetype] at hretype
    | create changed kept created declared => simp [isRetype] at hretype
    | @alter change columns _ changed kept present declared said =>
        have halters : AltersTable entry change columns := ⟨changed, kept, present, declared⟩
        rw [halters.entryTrail_eq, Trail.statements_ofStatements, mem_alterTable_iff] at hmem
        rcases hmem with ⟨-, hoptions⟩ | ⟨column, hcolumn, hstatement⟩
        · obtain rfl := eq_alterTable_of_optionStatement? hoptions
          simp [isRetype] at hretype
        · obtain ⟨hlegacy, hcolumn'⟩ := retype_mem_columnStatements_iff.mp ⟨hstatement, hretype⟩
          exact ⟨hlegacy, change, columns, halters, column, hcolumn, hcolumn'⟩
  · rintro ⟨hlegacy, change, columns, halters, column, hcolumn, hstatement⟩
    have hsaid : statement ∈ columnStatements scope edit ⟨change.keyspace, entry.1⟩ column ∧
        isRetype statement = true :=
      retype_mem_columnStatements_iff.mpr ⟨hlegacy, hstatement⟩
    refine ⟨?_, hsaid.2⟩
    rw [halters.entryTrail_eq, Trail.statements_ofStatements, mem_alterTable_iff]
    exact .inr ⟨column, hcolumn, hsaid.1⟩

/-- An entry of modified types retypes its fields that can be, each under its old name in every
keyspace of the type. -/
theorem retype_mem_modifiedType_iff
    {index : Nat} :
    statement ∈ statementsOf (TypeEntry.events scope ⟨⟨index, entry⟩, .modified⟩) ∧
        isRetype statement = true ↔
      ∃ placement, entry.2.placement? = some placement ∧ ∃ keyspace ∈ placement.names,
        ∃ field ∈ fieldsOf entry.2, ∃ type, RetypedTo scope.names field type ∧
          statement = .retypeTypeField ⟨keyspace, entry.1⟩ ⟨oldName field, type⟩ := by
  simp only [retypedTo_iff]
  cases hplaced : entry.2.placement? with
  | none => simp [TypeEntry.events, modifiedType, hplaced, statementsOf]
  | some placement =>
      rw [statementsOf_typeEvents hplaced, columnsBefore, if_neg (by simp), List.nil_append,
        typeGroups, fanOut, List.flatMap_map, List.mem_flatMap]
      simp only [fieldSteps_eq, List.mem_flatMap, List.map_append, List.mem_append,
        Option.some.injEq, exists_eq_left']
      constructor
      · rintro ⟨⟨field, hfield, keyspace, hkeyspace, hretype | hrename⟩, hkind⟩
        · obtain ⟨step, hstep, rfl⟩ := List.mem_map.mp hretype
          obtain ⟨type, htype, rfl⟩ := Option.map_eq_some_iff.mp (Option.mem_toList.mp hstep)
          exact ⟨keyspace, hkeyspace, field, hfield, type, htype, rfl⟩
        · obtain ⟨step, hstep, rfl⟩ := List.mem_map.mp hrename
          obtain ⟨names, -, rfl⟩ := Option.map_eq_some_iff.mp (Option.mem_toList.mp hstep)
          simp [TypeStep.saidOf, isRetype] at hkind
      · rintro ⟨keyspace, hkeyspace, field, hfield, type, htype, rfl⟩
        refine ⟨⟨field, hfield, keyspace, hkeyspace, .inl ?_⟩, rfl⟩
        simp [htype, TypeStep.saidOf]

/-! ## Columns and fields alike -/

/-- A change declares its element in one way. -/
theorem Redeclares.unique
    {change : Change}
    {old new old' new' : Declaration}
    (h : Redeclares change old new)
    (h' : Redeclares change old' new') :
    old' = old ∧ new' = new := by
  have hsides : declarations? change = some (old, new) := declarations?_eq_some_iff.mpr h
  have hsides' : declarations? change = some (old', new') := declarations?_eq_some_iff.mpr h'
  exact Prod.mk.inj (Option.some.inj (hsides'.symm.trans hsides))

/-- If both declarations give a type, a column and a field with the same two declarations are
retyped alike. -/
theorem columnRetype?_eq_retypeOf?
    (scope : Scope)
    {column field : String × Node}
    {ofColumn ofField : Change}
    {old new : Declaration}
    (hcolumn : column.2.change = some ofColumn)
    (hfield : field.2.changes.head? = some ofField)
    (hredeclared : Redeclares ofColumn old new)
    (hredeclared' : Redeclares ofField old new)
    (htyped : old.declaresType = true ∧ new.declaresType = true) :
    columnRetype? scope column.2 = retypeOf? scope field := by
  refine Option.ext fun type => ?_
  rw [← converts_iff, ← retypedTo_iff, converts_iff_redeclares, retypedTo_iff_redeclares]
  constructor
  · rintro ⟨change, earlier, later, hchange, hdeclares, hplace, rfl⟩
    obtain rfl := Option.some.inj (hchange.symm.trans hcolumn)
    obtain ⟨rfl, rfl⟩ := hredeclared.unique hdeclares
    exact ⟨ofField, earlier, later, hfield, hredeclared', htyped, hplace, rfl⟩
  · rintro ⟨change, earlier, later, hchange, hdeclares, -, hplace, rfl⟩
    obtain rfl := Option.some.inj (hchange.symm.trans hfield)
    obtain ⟨rfl, rfl⟩ := hredeclared'.unique hdeclares
    exact ⟨ofColumn, earlier, later, hcolumn, hredeclared, hplace, rfl⟩

/-! ## Whole plans -/

/-- What retypes something at a spot is justified. -/
theorem justifiedRetype_of_mem
    {document : Node}
    {spot : Spot}
    (hstands : StandsAt document spot entry)
    (hmem : statement ∈ (spot.trail scope entry).statements)
    (hretype : isRetype statement = true) :
    JustifiedRetype scope.names scope.legacy document statement := by
  cases saidAt_of_mem hmem with
  | keyspace inKeyspaces said =>
      obtain ⟨element, -, rfl⟩ := Option.map_eq_some_iff.mp said
      cases hfate : fateAfter .altered spot.nested <;> simp [hfate, isRetype] at hretype
  | type inTypes behind said =>
      cases said with
      | retypeField keyspace field =>
          rw [statements_of_typePart hstands inTypes behind] at hmem
          obtain ⟨placement, hplaced, home, hhome, changed, hchanged, type, htype, heq⟩ :=
            retype_mem_modifiedType_iff.mp ⟨hmem, hretype⟩
          obtain ⟨change, old, new, hchange, hdeclares, htyped, hplace, rfl⟩ :=
            retypedTo_iff_redeclares.mp htype
          rw [heq]
          refine .field hstands inTypes behind hplaced hhome hchanged hchange hdeclares htyped
            hplace ?_ ?_
          · intro earlier later hname
            simp [oldName, fieldRename?, hchange, hname]
          · intro hname
            simp [oldName, fieldRename?, hchange, hname]
      | _ => simp [isRetype] at hretype
  | table inTables edits said =>
      obtain ⟨edit, hedit⟩ := Spot.trail_of_tables inTables
      rw [hedit] at hmem
      obtain ⟨hlegacy, change, columns, halters, column, hcolumn, type, hconverts, rfl⟩ :=
        retype_mem_entryTrail_iff.mp ⟨hmem, hretype⟩
      obtain ⟨retype, old, new, hchange, hdeclares, hplace, rfl⟩ :=
        converts_iff_redeclares.mp hconverts
      exact .column hlegacy hstands inTables halters hcolumn hchange hdeclares hplace

/-- What is justified is said of an entry. -/
theorem exists_entry_of_justifiedRetype
    (scope : Scope)
    {document : Node}
    (h : JustifiedRetype scope.names scope.legacy document statement) :
    isRetype statement = true ∧ ∃ spot entry, StandsAt document spot entry ∧
      statement ∈ (spot.trail scope entry).statements := by
  cases h with
  | @column spot entry column change retype columns old new isLegacy stands inTables alters among
      changed redeclared inPlace =>
      refine ⟨rfl, spot, entry, stands, ?_⟩
      obtain ⟨edit, hedit⟩ := Spot.trail_of_tables inTables
      rw [hedit]
      refine (retype_mem_entryTrail_iff.mpr
        ⟨isLegacy, change, columns, alters, column, among, _, ?_, rfl⟩).1
      exact converts_iff_redeclares.mpr ⟨retype, old, new, changed, redeclared, inPlace, rfl⟩
  | @field spot entry field placement keyspace name retype old new stands inTypes inModified placed
      within among changed redeclared typed inPlace renamed kept =>
      refine ⟨rfl, spot, entry, stands, ?_⟩
      have hname : name = oldName field := by
        rw [oldName, fieldRename?, changed, Option.bind_some]
        cases hrename : retype.name.bind Revision.changed? with
        | none => exact kept hrename
        | some names => exact renamed names.1 names.2 hrename
      rw [statements_of_typePart stands inTypes inModified]
      refine (retype_mem_modifiedType_iff.mpr
        ⟨placement, placed, keyspace, within, field, among, _, ?_, by rw [hname]⟩).1
      exact retypedTo_iff_redeclares.mpr
        ⟨retype, old, new, changed, redeclared, typed, inPlace, rfl⟩

/-- A plan retypes exactly what the comparison says so of: the columns of altered tables, in a
legacy model only, and the fields of modified types under their old names, whose change declares
them before and after with different types, the earlier of which is among those that convert to the
later one in place. Of two declarations that both give a type, a column and a field make the
same. -/
theorem plan_retypes_exactly_what_converts_in_place
    (options : Options)
    (names : Listing String)
    (context : Context)
    (document : Node) :
    (∀ plan, (compile options names context document).result = .ok plan →
      ∀ statement, (statement ∈ plan ∧ isRetype statement = true ↔
        JustifiedRetype names (context.isLegacy options.legacyBelow) document statement)) ∧
    (∀ (column field : String × Node) (ofColumn ofField : Change) (old new : Declaration),
      column.2.change = some ofColumn → field.2.changes.head? = some ofField →
        Redeclares ofColumn old new → Redeclares ofField old new →
          old.declaresType = true → new.declaresType = true →
            columnRetype? (scopeIn options names context) column.2 =
              retypeOf? (scopeIn options names context) field) := by
  refine ⟨?retypes, ?alike⟩
  case retypes =>
    intro plan h statement
    rw [result_compile] at h
    obtain ⟨hfault, rfl⟩ := Trail.result_eq_ok_iff.mp h
    constructor
    · rintro ⟨hmem, hretype⟩
      obtain ⟨spot, entry, hstands, hsaid⟩ := exists_entry_of_mem_statements hfault hmem
      exact justifiedRetype_of_mem hstands hsaid hretype
    · intro hjustified
      obtain ⟨hretype, spot, entry, hstands, hsaid⟩ :=
        exists_entry_of_justifiedRetype (scopeIn options names context) hjustified
      exact ⟨mem_statements_of_stands hfault hstands hsaid, hretype⟩
  case alike =>
    intro column field ofColumn ofField old new hcolumn hfield hredeclared hredeclared' hold hnew
    exact columnRetype?_eq_retypeOf? _ hcolumn hfield hredeclared hredeclared' ⟨hold, hnew⟩

/-- A type with a field that is renamed and retyped, and a table with a column that is retyped and
one whose types do not convert. -/
def convertingDocument : Node :=
  let declared (type : String) : Option Snapshot := some ⟨some { physical := some type }⟩
  let column (old new : String) : Node :=
    { change := some { before := declared old, after := declared new } }
  let users : Node :=
    { element := some { change := some { keyspace := some "shop" } }
      properties := some [("name", column "text" "varchar"), ("age", column "text" "int")] }
  { definitions := some
      { modified := some
          (listed "address" (changedType [renamedField "road" "street" "varchar"])) }
    modified := some (listed "users" users) }

theorem legacy_plan_retypes_column_and_renamed_field :
    let context := Context.ofVersion "2.1"
    let field := renamedField "road" "street" "varchar"
    let retypes : List Statement :=
      [ .retypeTypeField ⟨"shop", "address"⟩ ⟨"road", "varchar"⟩,
        .retypeColumn ⟨some "shop", "users"⟩ "name" "varchar" ]
    (∃ plan, (compile {} [] context convertingDocument).result = .ok plan ∧
      plan.filter isRetype = retypes) ∧
    (∀ statement ∈ retypes,
      JustifiedRetype [] (context.isLegacy 3) convertingDocument statement) ∧
    columnRetype? (scopeIn {} [] context) field.2 = retypeOf? (scopeIn {} [] context) field := by
  intro context field retypes
  obtain ⟨hretypes, halike⟩ :=
    plan_retypes_exactly_what_converts_in_place {} [] context convertingDocument
  have hplan : ∃ plan, (compile {} [] context convertingDocument).result = .ok plan ∧
      plan.filter isRetype = retypes := by
    refine ⟨[retypes[0], .renameTypeField ⟨"shop", "address"⟩ "road" "street", retypes[1],
      .dropColumn ⟨some "shop", "users"⟩ "age", .addColumn ⟨some "shop", "users"⟩ "age" "text"],
      ?_, rfl⟩
    decide +kernel
  obtain ⟨plan, hresult, hfilter⟩ := hplan
  refine ⟨⟨plan, hresult, hfilter⟩, fun statement hstatement => ?_, ?_⟩
  · rw [← hfilter, List.mem_filter] at hstatement
    exact (hretypes plan hresult statement).mp hstatement
  · exact halike field field _ _ { physical := some "text" } { physical := some "varchar" } rfl rfl
      ⟨_, _, rfl, rfl, rfl, rfl⟩ ⟨_, _, rfl, rfl, rfl, rfl⟩ rfl rfl

end Plan
end CqlDelta
