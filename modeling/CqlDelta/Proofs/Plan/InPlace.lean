import CqlDelta.Proofs.Plan.Entries
import CqlDelta.Proofs.Plan.EntryStatements

/-!
# Columns that change in place

Whether a model is legacy matters in one place only: a column of an altered table whose type
converts is then retyped in place, and otherwise dropped, added or replaced as its section says. The
plans of a legacy and of another model correspond entry by entry (`legacy_plan_retypes_in_place`):
they are the same up to the statements of these columns, and they fail alike.
-/

namespace CqlDelta
namespace Plan

open Cql Delta

/-! ## Correspondence -/

/-- Two lists of statements correspond if each element, in turn, contributes to both, and what it
contributes is related. -/
inductive Corresponds {α : Type} (Related : α → List Statement → List Statement → Prop) :
    List α → List Statement → List Statement → Prop
  | nil : Corresponds Related [] [] []
  | cons {element : α} {elements : List α} {first second others others' : List Statement} :
      Related element first second →
      Corresponds Related elements others others' →
      Corresponds Related (element :: elements) (first ++ others) (second ++ others')

theorem corresponds_flatMap
    {α : Type}
    {Related : α → List Statement → List Statement → Prop}
    {first second : α → List Statement}
    {elements : List α}
    (h : ∀ element ∈ elements, Related element (first element) (second element)) :
    Corresponds Related elements (elements.flatMap first) (elements.flatMap second) := by
  induction elements with
  | nil => exact .nil
  | cons element more ih =>
      rw [List.forall_mem_cons] at h
      rw [List.flatMap_cons, List.flatMap_cons]
      exact .cons h.1 (ih h.2)

/-! ## Columns and entries -/

/-- The edit of the columns in a section of tables. -/
def columnEdit? : Part → Option ColumnEdit
  | .modified => some .replace
  | .deleted => some .drop
  | .added => some .add
  | _ => none

/-- A column has a declaration on both sides of its change, and the type on the old side converts to
that on the new one. -/
inductive Converts (names : Listing String) (column : Node) : String → Prop
  | intro {change : Change} {before after : Snapshot} {old new : Declaration}
      (changed : column.change = some change)
      (earlier : change.before = some before)
      (later : change.after = some after)
      (declared : before.declaration = some old)
      (redeclared : after.declaration = some new)
      (convertible : isConvertible (cqlType names old) (cqlType names new) = true) :
      Converts names column (cqlType names new)

/-- What a column of an altered table leads to, first in a model that is not legacy and then in one
that is: if its type converts, a retype stands in the place of what its section says. -/
inductive SameColumn (names : Listing String) (edit : ColumnEdit) (table : TableName)
    (column : String × Node) : List Statement → List Statement → Prop
  | retyped {type : String}
      (converts : Converts names column.2 type) :
      SameColumn names edit table column
        (edit.statements table column.1 (cqlType names column.2.declaration))
        [.retypeColumn table column.1 type]
  | kept
      (fixed : ∀ type, ¬Converts names column.2 type) :
      SameColumn names edit table column
        (edit.statements table column.1 (cqlType names column.2.declaration))
        (edit.statements table column.1 (cqlType names column.2.declaration))

/-- An entry alters a table: it has columns, and is neither dropped nor created. -/
structure AltersTable (entry : String × Node) (change : Change) (columns : Members) : Prop where
  changed : entry.2.elementChange? = some change
  kept : change.deleted = false
  present : change.created = false
  declared : entry.2.properties = some columns

/-- The statement for the options and the comment of an altered table, where its section has one. -/
def optionStatements (edit : ColumnEdit) (table : TableName) (change : Change) : List Statement :=
  if edit = .replace then (optionStatement? table change).toList else []

/-- Whether a statement retypes a column. -/
def retypesColumn : Statement → Bool
  | .retypeColumn _ _ _ => true
  | _ => false

/-- What an entry leads to, first in a model that is not legacy and then in one that is. Only an
altered table makes a difference, and only with its columns. -/
inductive SameEntry (names : Listing String) (spot : Spot) (entry : String × Node) :
    List Statement → List Statement → Prop
  | altered {edit : ColumnEdit} {change : Change} {columns : Members}
      {modern legacy : List Statement}
      (edits : columnEdit? spot.part = some edit)
      (alters : AltersTable entry change columns)
      (same : Corresponds (SameColumn names edit ⟨change.keyspace, entry.1⟩) columns modern
        legacy) :
      SameEntry names spot entry
        (optionStatements edit ⟨change.keyspace, entry.1⟩ change ++ modern)
        (optionStatements edit ⟨change.keyspace, entry.1⟩ change ++ legacy)
  | other {statements : List Statement}
      (unaltered : ∀ edit change columns,
        columnEdit? spot.part = some edit → ¬AltersTable entry change columns)
      (fixed : ∀ statement ∈ statements, retypesColumn statement = false) :
      SameEntry names spot entry statements statements

theorem converts_iff
    (scope : Scope)
    {column : Node}
    {type : String} :
    Converts scope.names column type ↔ columnRetype? scope column = some type := by
  constructor
  · rintro ⟨changed, earlier, later, declared, redeclared, convertible⟩
    simp [columnRetype?, declarations?, changed, earlier, later, declared, redeclared,
      Scope.retype, convertible]
  · intro h
    obtain ⟨change, changed, h⟩ := Option.bind_eq_some_iff.mp h
    obtain ⟨sides, hsides, h⟩ := Option.bind_eq_some_iff.mp h
    obtain ⟨before, after, earlier, later, declared, redeclared⟩ :=
      declarations?_eq_some_iff.mp hsides
    obtain ⟨convertible, htype⟩ := Option.ite_none_right_eq_some.mp h
    obtain rfl := Option.some.inj htype
    exact .intro changed earlier later declared redeclared convertible

/-! ## What entries lead to -/

variable (options : Options) (names : Listing String)

theorem sameColumn_columnStatements
    (edit : ColumnEdit)
    (table : TableName)
    (column : String × Node) :
    SameColumn names edit table column
      (columnStatements ⟨options, names, false⟩ edit table column)
      (columnStatements ⟨options, names, true⟩ edit table column) := by
  have hconverts (type : String) :
      Converts names column.2 type ↔ columnRetype? ⟨options, names, true⟩ column.2 = some type :=
    converts_iff ⟨options, names, true⟩
  cases hretype : columnRetype? ⟨options, names, true⟩ column.2 with
  | some type =>
      simp only [columnStatements, hretype]
      exact .retyped ((hconverts type).mpr hretype)
  | none =>
      simp only [columnStatements, hretype]
      exact .kept fun type htype => by simp [(hconverts type).mp htype] at hretype

/-- Outside the sections of tables the model has no part in what an entry leads to. -/
theorem trail_of_no_tables
    {spot : Spot}
    (h : columnEdit? spot.part = none)
    (entry : String × Node) :
    spot.trail ⟨options, names, false⟩ entry = spot.trail ⟨options, names, true⟩ entry := by
  obtain ⟨passages, part, nested, index⟩ := spot
  cases part with
  | containers => rfl
  | entities => rfl
  | definitions => rfl
  | _ => simp [columnEdit?] at h

theorem retypesColumn_of_no_tables
    {scope : Scope}
    {spot : Spot}
    (h : columnEdit? spot.part = none)
    {entry : String × Node} :
    ∀ statement ∈ (spot.trail scope entry).statements, retypesColumn statement = false := by
  intro statement hstatement
  obtain ⟨passages, part, nested, index⟩ := spot
  cases part with
  | containers =>
      simp only [Spot.trail, Trail.statements_ofStatements, Option.mem_toList] at hstatement
      obtain ⟨element, -, rfl⟩ := Option.map_eq_some_iff.mp hstatement
      cases fateAfter .altered nested <;> rfl
  | entities => simp [Spot.trail, Trail.statements] at hstatement
  | definitions =>
      simp only [Spot.trail] at hstatement
      split at hstatement
      · cases saidOfType_of_mem (mem_statementsOf_iff.mp hstatement) <;> rfl
      · simp [Trail.statements] at hstatement
  | _ => simp [columnEdit?] at h

theorem AltersTable.entryTrail_eq
    {entry : String × Node}
    {change : Change}
    {columns : Members}
    (h : AltersTable entry change columns)
    (scope : Scope)
    (edit : ColumnEdit) :
    entryTrail scope edit entry =
      .ofStatements (alterTable scope edit ⟨change.keyspace, entry.1⟩ change columns) := by
  simp [entryTrail, h.changed, h.kept, h.declared, h.present]

/-- Of a table that is not altered the same is said in every model, and no column is retyped. -/
theorem entryTrail_of_unaltered
    {entry : String × Node}
    (h : ∀ change columns, ¬AltersTable entry change columns)
    (edit : ColumnEdit) :
    entryTrail ⟨options, names, false⟩ edit entry = entryTrail ⟨options, names, true⟩ edit entry ∧
      ∀ statement ∈ (entryTrail ⟨options, names, true⟩ edit entry).statements,
        retypesColumn statement = false := by
  constructor
  · rw [entryTrail, entryTrail]
    cases hchange : entry.2.elementChange? with
    | none => rfl
    | some change =>
        cases hdeleted : change.deleted with
        | true => simp [hdeleted]
        | false =>
            cases hcolumns : entry.2.properties with
            | none => simp [hdeleted]
            | some columns =>
                have hcreated : change.created = true := by
                  rw [← Bool.not_eq_false]
                  exact fun hpresent => h change columns ⟨hchange, hdeleted, hpresent, hcolumns⟩
                simp only [hdeleted, hcreated]
                rfl
  · intro statement hstatement
    cases saidOfTable_of_mem hstatement with
    | drop changed deleted => rfl
    | create changed kept created declared => rfl
    | alter changed kept present declared said =>
        exact absurd ⟨changed, kept, present, declared⟩ (h _ _)

/-- Of a table entry the same is said up to the columns of an altered table. -/
theorem sameEntry_entryTrail
    {spot : Spot}
    {edit : ColumnEdit}
    (hedit : columnEdit? spot.part = some edit)
    (entry : String × Node) :
    SameEntry names spot entry
      (entryTrail ⟨options, names, false⟩ edit entry).statements
      (entryTrail ⟨options, names, true⟩ edit entry).statements := by
  by_cases haltered : ∃ change columns, AltersTable entry change columns
  · obtain ⟨change, columns, halters⟩ := haltered
    rw [halters.entryTrail_eq, halters.entryTrail_eq, Trail.statements_ofStatements,
      Trail.statements_ofStatements]
    refine .altered hedit halters (corresponds_flatMap fun column _ => ?_)
    exact sameColumn_columnStatements options names edit _ column
  · have hunaltered (change : Change) (columns : Members) : ¬AltersTable entry change columns :=
      fun halters => haltered ⟨change, columns, halters⟩
    obtain ⟨htrail, hfixed⟩ := entryTrail_of_unaltered options names hunaltered edit
    rw [htrail]
    exact .other (fun _ change columns _ => hunaltered change columns) hfixed

/-- An entry in a section of tables leads to what its table does. -/
theorem trail_of_columnEdit
    {spot : Spot}
    {edit : ColumnEdit}
    (h : columnEdit? spot.part = some edit)
    (scope : Scope)
    (entry : String × Node) :
    spot.trail scope entry = entryTrail scope edit entry := by
  obtain ⟨passages, part, nested, index⟩ := spot
  cases part <;> simp only [columnEdit?, reduceCtorEq, Option.some.injEq] at h <;> subst h <;> rfl

theorem sameEntry_trail
    (spot : Spot)
    (entry : String × Node) :
    SameEntry names spot entry
      (spot.trail ⟨options, names, false⟩ entry).statements
      (spot.trail ⟨options, names, true⟩ entry).statements := by
  cases hedit : columnEdit? spot.part with
  | none =>
      rw [trail_of_no_tables options names hedit entry]
      exact .other (by simp [hedit]) (retypesColumn_of_no_tables hedit)
  | some edit =>
      rw [trail_of_columnEdit hedit, trail_of_columnEdit hedit]
      exact sameEntry_entryTrail options names hedit entry

/-- An entry fails alike in every model. -/
theorem fault_trail
    (spot : Spot)
    (entry : String × Node) :
    (spot.trail ⟨options, names, false⟩ entry).fault =
      (spot.trail ⟨options, names, true⟩ entry).fault := by
  cases hedit : columnEdit? spot.part with
  | none => rw [trail_of_no_tables options names hedit entry]
  | some edit =>
      rw [trail_of_columnEdit hedit, trail_of_columnEdit hedit, fault_entryTrail, fault_entryTrail]

/-! ## Whole plans -/

theorem fault_trailOf
    (document : Node) :
    (trailOf ⟨options, names, false⟩ (.single document)).fault =
      (trailOf ⟨options, names, true⟩ (.single document)).fault := by
  rw [trailOf_eq_entries, trailOf_eq_entries, Trail.fault_concat, Trail.fault_concat,
    List.findSome?_map, List.findSome?_map]
  exact congrArg (List.findSome? · _) (funext fun standing => fault_trail options names _ _)

/-- Both a legacy model and one that is not make the plan of a comparison fail with the same fault,
or both plans succeed. Then they are the same, entry by entry, up to the columns of altered tables
whose types convert: in the place of what the section of such a column says, the legacy plan has one
statement that retypes it. -/
theorem legacy_plan_retypes_in_place
    (options : Options)
    (names : Listing String)
    (modern legacy : Context)
    (document : Node)
    (hmodern : modern.isLegacy options.legacyBelow = false)
    (hlegacy : legacy.isLegacy options.legacyBelow = true) :
    (∃ fault,
      (compile options names modern document).result = .error fault ∧
        (compile options names legacy document).result = .error fault) ∨
    ∃ entries modernPlan legacyPlan,
      (compile options names modern document).result = .ok modernPlan ∧
        (compile options names legacy document).result = .ok legacyPlan ∧
        InWalkOrder (StandsAt document) entries ∧
        Corresponds (fun standing => SameEntry names standing.1 standing.2) entries modernPlan
          legacyPlan := by
  have hmodernScope : scopeIn options names modern = ⟨options, names, false⟩ := by
    rw [scopeIn, hmodern]
  have hlegacyScope : scopeIn options names legacy = ⟨options, names, true⟩ := by
    rw [scopeIn, hlegacy]
  rw [result_compile, result_compile, hmodernScope, hlegacyScope]
  have hsame := fault_trailOf options names document
  cases hfault : (trailOf ⟨options, names, false⟩ (.single document)).fault with
  | some fault =>
      left
      exact ⟨fault, by rw [Trail.result, hfault], by rw [Trail.result, ← hsame, hfault]⟩
  | none =>
      right
      refine ⟨entriesOf document, _, _, Trail.result_eq_ok_iff.mpr ⟨hfault, rfl⟩,
        Trail.result_eq_ok_iff.mpr ⟨hsame.symm.trans hfault, rfl⟩, entriesOf_inWalkOrder document,
        ?_⟩
      have hlegacyFault := hsame.symm.trans hfault
      rw [trailOf_eq_entries] at hfault hlegacyFault
      rw [trailOf_eq_entries, trailOf_eq_entries, Trail.statements_concat hfault,
        Trail.statements_concat hlegacyFault, List.flatMap_map, List.flatMap_map]
      exact corresponds_flatMap fun standing _ => sameEntry_trail options names _ _

/-- A table of which one column changes its type from `text` to `varchar`, which converts, and the
other from `int` to `text`, which does not. -/
def retypedDocument : Node :=
  let declared (type : String) : Declaration := { physical := some type }
  let column (old new : String) : Node :=
    { declaration := declared new
      change := some { before := some ⟨declared old⟩, after := some ⟨declared new⟩ } }
  let change : Change := { keyspace := some "shop", comment := some ⟨some "new", some "old"⟩ }
  let users : Node :=
    { element := some { change := some change }
      properties := some [("name", column "text" "varchar"), ("age", column "int" "text")] }
  { modified := some (listed "users" users) }

theorem one_of_two_columns_is_retyped_in_place :
    let modern := Context.ofVersion "3.11"
    let legacy := Context.ofVersion "Cassandra 2.1"
    let table : TableName := ⟨some "shop", "users"⟩
    let modernPlan : List Statement :=
      [ .alterTable table (some "new") [], .dropColumn table "name",
        .addColumn table "name" "varchar", .dropColumn table "age", .addColumn table "age" "text" ]
    let legacyPlan : List Statement :=
      [ .alterTable table (some "new") [], .retypeColumn table "name" "varchar",
        .dropColumn table "age", .addColumn table "age" "text" ]
    (compile {} [] modern retypedDocument).result = .ok modernPlan ∧
      (compile {} [] legacy retypedDocument).result = .ok legacyPlan ∧
      ∃ entries, InWalkOrder (StandsAt retypedDocument) entries ∧
        Corresponds (fun standing => SameEntry [] standing.1 standing.2) entries modernPlan
          legacyPlan := by
  intro modern legacy table modernPlan legacyPlan
  have hmodern : (compile {} [] modern retypedDocument).result = .ok modernPlan := by
    decide +kernel
  have hlegacy : (compile {} [] legacy retypedDocument).result = .ok legacyPlan := by
    decide +kernel
  refine ⟨hmodern, hlegacy, ?_⟩
  rcases legacy_plan_retypes_in_place {} [] modern legacy retypedDocument
      (by decide +kernel) (by decide +kernel) with
    ⟨fault, hfault, -⟩ | ⟨entries, plan, plan', hplan, hplan', horder, hsame⟩
  · simp [hmodern] at hfault
  · obtain rfl := Except.ok.inj (hmodern.symm.trans hplan)
    obtain rfl := Except.ok.inj (hlegacy.symm.trans hplan')
    exact ⟨entries, horder, hsame⟩

end Plan
end CqlDelta
