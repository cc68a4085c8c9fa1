import CqlDelta.Proofs.Plan.FanOut
import CqlDelta.Proofs.Plan.InPlace

/-!
# Columns of deleted and added tables

An altered table in a section of deleted or added tables leads to exactly one statement for each of
its columns, in order: a deleted column is dropped and an added one is added. A legacy model goes
before the section: it retypes a column that converts in place, also where the section has it
dropped or added (`columns_lead_to_one_statement_each`).
-/

namespace CqlDelta
namespace Plan

open Cql Delta

/-- What a section of deleted or added tables says of a column: it goes or it comes. -/
def sectionStatement
    (names : Listing String)
    (part : Part)
    (table : TableName)
    (column : String × Node) :
    Statement :=
  if part = .deleted then .dropColumn table column.1
  else .addColumn table column.1 (cqlType names column.2.declaration)

/-- The statement for a column: what its section says, unless a legacy model retypes the column in
place. -/
inductive SaidOfColumn (names : Listing String) (legacy : Bool) (part : Part) (table : TableName)
    (column : String × Node) : Statement → Prop
  | retyped {type : String}
      (isLegacy : legacy = true)
      (converts : Converts names column.2 type) :
      SaidOfColumn names legacy part table column (.retypeColumn table column.1 type)
  | edited
      (stays : ¬(legacy = true ∧ ∃ type, Converts names column.2 type)) :
      SaidOfColumn names legacy part table column (sectionStatement names part table column)

variable {options : Options} {names : Listing String} {legacy : Bool} {part : Part}

/-! ## Columns -/

/-- Deleted and added columns are edited by the statement of their section. -/
theorem statements_of_columnEdit
    (hsection : part = .deleted ∨ part = .added)
    {edit : ColumnEdit}
    (hedit : columnEdit? part = some edit)
    (table : TableName)
    (column : String × Node) :
    edit.statements table column.1 (cqlType names column.2.declaration) =
      [sectionStatement names part table column] := by
  rcases hsection with rfl | rfl <;> obtain rfl := Option.some.inj hedit <;> rfl

theorem columnStatements_eq_singleton
    (hsection : part = .deleted ∨ part = .added)
    {edit : ColumnEdit}
    (hedit : columnEdit? part = some edit)
    (table : TableName)
    (column : String × Node) :
    ∃ statement, columnStatements ⟨options, names, legacy⟩ edit table column = [statement] ∧
      SaidOfColumn names legacy part table column statement := by
  have hconverts (type : String) :
      Converts names column.2 type ↔
        columnRetype? ⟨options, names, legacy⟩ column.2 = some type :=
    converts_iff ⟨options, names, legacy⟩
  simp only [columnStatements, statements_of_columnEdit hsection hedit table column]
  cases hlegacy : legacy with
  | false => exact ⟨_, rfl, .edited (by simp)⟩
  | true =>
      subst hlegacy
      cases hretype : columnRetype? ⟨options, names, true⟩ column.2 with
      | some type => exact ⟨_, rfl, .retyped rfl ((hconverts type).mpr hretype)⟩
      | none =>
          refine ⟨_, rfl, .edited ?_⟩
          rintro ⟨-, type, htype⟩
          simp [(hconverts type).mp htype] at hretype

/-- What is said of a column is what its section says just if no legacy model retypes it. -/
theorem SaidOfColumn.eq_sectionStatement_iff
    {table : TableName}
    {column : String × Node}
    {statement : Statement}
    (h : SaidOfColumn names legacy part table column statement) :
    statement = sectionStatement names part table column ↔
      ¬(legacy = true ∧ ∃ type, Converts names column.2 type) := by
  cases h with
  | retyped isLegacy converts =>
      refine iff_of_false ?_ fun hstays => hstays ⟨isLegacy, _, converts⟩
      rw [sectionStatement]
      split <;> simp
  | edited stays => exact iff_of_true rfl stays

/-! ## Tables -/

/-- An altered table in a section of deleted or added tables leads to one statement for one column
after another. -/
theorem forall₂_saidOfColumn
    {spot : Spot}
    (hsection : spot.part = .deleted ∨ spot.part = .added)
    {entry : String × Node}
    {change : Change}
    {columns : Members}
    (halters : AltersTable entry change columns) :
    List.Forall₂ (SaidOfColumn names legacy spot.part ⟨change.keyspace, entry.1⟩) columns
      (spot.trail ⟨options, names, legacy⟩ entry).statements := by
  obtain ⟨edit, hedit, hkeeps⟩ : ∃ edit, columnEdit? spot.part = some edit ∧ edit ≠ .replace := by
    rcases hsection with hpart | hpart <;> rw [hpart]
    · exact ⟨.drop, rfl, by simp⟩
    · exact ⟨.add, rfl, by simp⟩
  rw [trail_of_columnEdit hedit, halters.entryTrail_eq, Trail.statements_ofStatements, alterTable,
    if_neg hkeeps, List.nil_append]
  clear halters
  induction columns with
  | nil => exact .nil
  | cons column more ih =>
      obtain ⟨statement, hone, hsaid⟩ := columnStatements_eq_singleton hsection hedit _ column
      rw [List.flatMap_cons, hone]
      exact .cons hsaid ih

/-- The columns have the statements of their section just if no legacy model retypes one of them. -/
theorem eq_map_sectionStatement_iff
    {table : TableName}
    {columns : Members}
    {said : List Statement}
    (h : List.Forall₂ (SaidOfColumn names legacy part table) columns said) :
    said = columns.map (sectionStatement names part table) ↔
      ¬(legacy = true ∧ ∃ column ∈ columns, ∃ type, Converts names column.2 type) := by
  induction h with
  | nil => simp
  | cons hcolumn _ ih =>
      rw [List.map_cons, List.cons_eq_cons, hcolumn.eq_sectionStatement_iff, ih, ← not_or,
        ← and_or_left, List.exists_mem_cons_iff]

/-- An altered table in a section of deleted or added tables leads to one piece of the plan with
exactly one statement for each of its columns, in order: the column is dropped or added as the
section says, or retyped in place if the model is legacy and the type of the column converts. The
piece is what the section says of the columns, and nothing else, if and only if the model is not
legacy or no column converts. -/
theorem columns_lead_to_one_statement_each
    (options : Options)
    (names : Listing String)
    (context : Context)
    (document : Node)
    (spot : Spot)
    (entry : String × Node)
    (hstands : StandsAt document spot entry)
    (hsection : spot.part = .deleted ∨ spot.part = .added)
    (change : Change)
    (columns : Members)
    (halters : AltersTable entry change columns) :
    let legacy := context.isLegacy options.legacyBelow
    let table : TableName := ⟨change.keyspace, entry.1⟩
    let said := (spot.trail (scopeIn options names context) entry).statements
    (∀ plan, (compile options names context document).result = .ok plan → said <:+: plan) ∧
    List.Forall₂ (SaidOfColumn names legacy spot.part table) columns said ∧
    (said = columns.map (sectionStatement names spot.part table) ↔
      ¬(legacy = true ∧ ∃ column ∈ columns, ∃ type, Converts names column.2 type)) := by
  intro legacy table said
  have hcolumns : List.Forall₂ (SaidOfColumn names legacy spot.part table) columns said :=
    forall₂_saidOfColumn hsection halters
  exact ⟨fun plan => infix_of_stands hstands, hcolumns, eq_map_sectionStatement_iff hcolumns⟩

/-- Two deleted columns, one of which says that its type was `text` and is `varchar` now. -/
def deletedColumns : Members :=
  let declared (type : String) : Declaration := { physical := some type }
  [ ("name",
      { declaration := declared "text"
        change := some { before := some ⟨declared "text"⟩, after := some ⟨declared "varchar"⟩ } }),
    ("age", { declaration := declared "int" }) ]

/-- A table that loses two columns. -/
def narrowedTable : Node :=
  { element := some { change := some { keyspace := some "shop" } }
    properties := some deletedColumns }

/-- A comparison whose only entry is a table that loses two columns. -/
def narrowedDocument : Node :=
  { deleted := some (listed "users" narrowedTable) }

theorem narrowedDocument_stands :
    StandsAt narrowedDocument ⟨[], .deleted, [], 0⟩ ("users", narrowedTable) :=
  ⟨by simp, .tables rfl, _, rfl, rfl⟩

theorem columns_are_dropped_or_retyped_in_place :
    let modern := Context.ofVersion "3.11"
    let legacy := Context.ofVersion "2.1"
    let spot : Spot := ⟨[], .deleted, [], 0⟩
    let table : TableName := ⟨some "shop", "users"⟩
    let modernPlan : List Statement := [.dropColumn table "name", .dropColumn table "age"]
    let legacyPlan : List Statement :=
      [.retypeColumn table "name" "varchar", .dropColumn table "age"]
    StandsAt narrowedDocument spot ("users", narrowedTable) ∧ spot.part = .deleted ∧
      AltersTable ("users", narrowedTable) { keyspace := some "shop" } deletedColumns ∧
      (compile {} [] modern narrowedDocument).result = .ok modernPlan ∧
      (compile {} [] legacy narrowedDocument).result = .ok legacyPlan ∧
      List.Forall₂ (SaidOfColumn [] (modern.isLegacy 3) .deleted table) deletedColumns
        modernPlan ∧
      List.Forall₂ (SaidOfColumn [] (legacy.isLegacy 3) .deleted table) deletedColumns
        legacyPlan := by
  intro modern legacy spot table modernPlan legacyPlan
  have halters : AltersTable ("users", narrowedTable) { keyspace := some "shop" } deletedColumns :=
    ⟨rfl, rfl, rfl, rfl⟩
  have hmodern :
      (spot.trail (scopeIn {} [] modern) ("users", narrowedTable)).statements = modernPlan := by
    decide +kernel
  have hlegacy :
      (spot.trail (scopeIn {} [] legacy) ("users", narrowedTable)).statements = legacyPlan := by
    decide +kernel
  obtain ⟨-, hmodernColumns, -⟩ :=
    columns_lead_to_one_statement_each {} [] modern narrowedDocument spot _ narrowedDocument_stands
      (.inl rfl) _ _ halters
  obtain ⟨-, hlegacyColumns, -⟩ :=
    columns_lead_to_one_statement_each {} [] legacy narrowedDocument spot _ narrowedDocument_stands
      (.inl rfl) _ _ halters
  rw [hmodern] at hmodernColumns
  rw [hlegacy] at hlegacyColumns
  refine ⟨narrowedDocument_stands, rfl, halters, ?_, ?_, hmodernColumns, hlegacyColumns⟩
  · decide +kernel
  · decide +kernel

/-- In a legacy model a deleted column is not dropped where its old type converts to a new one. -/
theorem deleted_column_is_retyped_in_legacy_model :
    let table : TableName := ⟨some "shop", "users"⟩
    let dropped := deletedColumns.map fun column => Statement.dropColumn table column.1
    StandsAt narrowedDocument ⟨[], .deleted, [], 0⟩ ("users", narrowedTable) ∧
      AltersTable ("users", narrowedTable) { keyspace := some "shop" } deletedColumns ∧
      ∃ plan, (compile {} [] (Context.ofVersion "2.1") narrowedDocument).result = .ok plan ∧
        .retypeColumn table "name" "varchar" ∈ plan ∧ .dropColumn table "name" ∉ plan ∧
        ¬dropped <:+: plan := by
  intro table dropped
  refine ⟨narrowedDocument_stands, ⟨rfl, rfl, rfl, rfl⟩,
    [.retypeColumn table "name" "varchar", .dropColumn table "age"], ?_, ?_, ?_, ?_⟩
  · decide +kernel
  · simp
  · simp
  · decide

end Plan
end CqlDelta
