import CqlDelta.Proofs.Cql.StatementLines
import CqlDelta.Proofs.Plan.FanOut
import CqlDelta.Proofs.Plan.HandOver

/-!
# The scripts of created tables

A created table hands its keys over as lists of identifiers, and its script looks the columns up
again. As long as the identifiers are distinct, every one leads back to the column that it comes
from (`keyColumns_markedGuids`), so that the script lists the columns and names in its primary key
those that are marked, in the order in which they are declared
(`created_table_lists_its_columns_and_its_key`).
-/

namespace CqlDelta
namespace Plan

open Cql Delta Text

/-! ## Keys -/

/-- The identifiers of columns, in order. -/
def guidsOf (columns : Members) : List String :=
  columns.filterMap fun column => column.2.declaration.guid

/-- The quoted names of the columns with a mark, in order. -/
def markedNames (mark : Declaration → Bool) (columns : Members) : List String :=
  (columns.filter fun column => mark column.2.declaration).map fun column =>
    quoteIdentifier column.1

/-- Among columns with distinct identifiers each one is found under its own. -/
theorem columnByGuid?_of_mem
    {columns : Members}
    (hguids : (guidsOf columns).Nodup)
    {column : String × Node}
    (hcolumn : column ∈ columns)
    {guid : String}
    (hguid : column.2.declaration.guid = some guid) :
    columnByGuid? guid columns = some column.1 := by
  induction columns with
  | nil => simp at hcolumn
  | cons first more ih =>
      have hmore : (guidsOf more).Nodup :=
        hguids.sublist ((List.sublist_cons_self first more).filterMap _)
      rcases List.mem_cons.mp hcolumn with rfl | hcolumn
      · simp [columnByGuid?, hguid]
      · have hother : first.2.declaration.guid ≠ some guid := by
          intro hfirst
          have hlist : guidsOf (first :: more) = guid :: guidsOf more :=
            List.filterMap_cons_some hfirst
          rw [hlist, List.nodup_cons] at hguids
          exact hguids.1 (List.mem_filterMap.mpr ⟨column, hcolumn, hguid⟩)
        rw [columnByGuid?, List.find?_cons_of_neg (by simpa using hother)]
        exact ih hmore hcolumn

/-- The keys of a table name the marked columns, if their identifiers are distinct and none is
missing. -/
theorem keyColumns_markedGuids
    {columns : Members}
    (hguids : (guidsOf columns).Nodup)
    {mark : Declaration → Bool}
    (hmarked : ∀ column ∈ columns, mark column.2.declaration = true →
      column.2.declaration.guid ≠ none) :
    keyColumns (markedGuids mark columns) columns = markedNames mark columns := by
  rw [keyColumns, markedGuids, List.filterMap_filterMap, markedNames, ← List.filterMap_eq_map]
  refine List.filterMap_congr fun column hcolumn => ?_
  rw [List.mem_filter] at hcolumn
  obtain ⟨guid, hguid⟩ := Option.ne_none_iff_exists'.mp (hmarked column hcolumn.1 hcolumn.2)
  rw [hguid, Option.bind_some, columnByGuid?_of_mem hguids hcolumn.1 hguid]
  rfl

theorem markedNames_ne_nil_iff
    {mark : Declaration → Bool}
    {columns : Members} :
    markedNames mark columns ≠ [] ↔ ∃ column ∈ columns, mark column.2.declaration = true := by
  simp [markedNames]

/-! ## Scripts -/

/-- The line of a primary key: the columns of the partition key in parentheses of their own, and
then those of the clustering key. -/
def keyLine (partition clustering : List String) : String :=
  "PRIMARY KEY ("
    ++ ", ".intercalate (("(" ++ ", ".intercalate partition ++ ")") :: clustering) ++ ")"

/-- The lines that a created table declares: one for each column, with its quoted name and its type,
and one for the key if a column is marked for the partition key. -/
def declaredLines (names : Listing String) (columns : Members) : List String :=
  columns.map (fun column =>
      quoteIdentifier column.1 ++ " " ++ cqlType names column.2.declaration)
    ++ (if ∃ column ∈ columns, column.2.declaration.inPartitionKey = true then
        [keyLine (markedNames Declaration.inPartitionKey columns)
          (markedNames Declaration.inClusteringKey columns)]
      else [])

/-- The name of a table as a script gives it: behind its keyspace just if that has a name. -/
inductive NamedBy (table : TableName) : String → Prop
  | qualified {keyspace : String}
      (known : table.keyspace = some keyspace)
      (named : keyspace ≠ "") :
      NamedBy table (quoteIdentifier keyspace ++ "." ++ quoteIdentifier table.table)
  | bare
      (unnamed : ∀ keyspace, table.keyspace = some keyspace → keyspace = "") :
      NamedBy table (quoteIdentifier table.table)

/-- The parts of a script that creates a table. -/
structure TableScript where
  name : String
  lines : List String
  options : String

/-- The text of a script: its lines stand between parentheses, each behind a tab and all but the
last one before a comma. -/
def TableScript.text (script : TableScript) : String :=
  "CREATE TABLE IF NOT EXISTS " ++ script.name ++ " (\n"
    ++ ",\n".intercalate (script.lines.map ("\t" ++ ·)) ++ "\n)" ++ script.options ++ ";"

theorem namedBy_qualified (table : TableName) : NamedBy table table.qualified := by
  rw [TableName.qualified, qualifiedName]
  split
  · rename_i keyspace hknown
    obtain ⟨hgiven, hnamed⟩ := Option.filter_eq_some_iff.mp hknown
    exact .qualified hgiven (by simpa using hnamed)
  · rename_i hunknown
    refine .bare fun keyspace hgiven => ?_
    simpa [hgiven, Option.filter] using hunknown

theorem indent_intercalate
    {lines : List String}
    (h : ∀ line ∈ lines, line ≠ "" ∧ OneLine line) :
    indent (",\n".intercalate lines) = ",\n".intercalate (lines.map ("\t" ++ ·)) := by
  have hpieces : ∀ piece ∈ lines.map String.toList, piece ≠ [] ∧ '\n' ∉ piece := by
    rw [List.forall_mem_map]
    exact fun line hline => ⟨by simpa using (h line hline).1, (h line hline).2⟩
  have hlines : (lines.map ("\t" ++ ·)).map String.toList =
      (lines.map String.toList).map ('\t' :: ·) := by
    simp [Function.comp_def]
  rw [indent, ← String.toList_inj, String.toList_ofList, toList_intercalate_eq_joinWith,
    toList_intercalate_eq_joinWith, hlines]
  exact indentLines_joinWith (by decide) (by decide) hpieces

/-- A created table whose columns can be told apart by their identifiers, as far as they have one,
with an identifier for every column of a key, and with names and types that stand on one line. -/
structure WellIdentified (names : Listing String) (columns : Members) : Prop where
  distinct : (guidsOf columns).Nodup
  identified : ∀ column ∈ columns,
    column.2.declaration.inPartitionKey = true ∨ column.2.declaration.inClusteringKey = true →
      column.2.declaration.guid ≠ none
  named : ∀ column ∈ columns, OneLine column.1
  typed : ∀ column ∈ columns, OneLine (cqlType names column.2.declaration)

variable {names : Listing String} {columns : Members}

/-- The lines of a table whose keys come from the marks of its columns are those that it
declares. -/
theorem WellIdentified.lines_eq
    (h : WellIdentified names columns)
    (draft : TableDraft)
    (hpartition : draft.partitionKey = markedGuids Declaration.inPartitionKey columns)
    (hclustering : draft.clusteringKey = markedGuids Declaration.inClusteringKey columns) :
    columns.map (columnLine names) ++ (primaryKeyLine? draft columns).toList =
      declaredLines names columns := by
  have hpartitionNames := keyColumns_markedGuids h.distinct
    fun column hcolumn hmark => h.identified column hcolumn (.inl hmark)
  have hclusteringNames := keyColumns_markedGuids h.distinct
    fun column hcolumn hmark => h.identified column hcolumn (.inr hmark)
  rw [primaryKeyLine?, hpartition, hclustering, hpartitionNames, hclusteringNames, declaredLines]
  simp only [← markedNames_ne_nil_iff]
  cases markedNames Declaration.inPartitionKey columns <;> rfl

theorem oneLine_keyLine
    {partition clustering : List String}
    (hpartition : ∀ name ∈ partition, OneLine name)
    (hclustering : ∀ name ∈ clustering, OneLine name) :
    OneLine (keyLine partition clustering) := by
  have hfirst : OneLine ("(" ++ ", ".intercalate partition ++ ")") :=
    ((by decide : OneLine "(").append (oneLine_intercalate (by decide) hpartition)).append
      (by decide)
  have hparts := oneLine_intercalate (by decide : OneLine ", ")
    (List.forall_mem_cons.mpr ⟨hfirst, hclustering⟩)
  exact ((by decide : OneLine "PRIMARY KEY (").append hparts).append (by decide)

/-- No line that a created table declares is empty or broken. -/
theorem WellIdentified.oneLine_of_mem
    (h : WellIdentified names columns)
    {line : String}
    (hline : line ∈ declaredLines names columns) :
    line ≠ "" ∧ OneLine line := by
  have hnames (mark : Declaration → Bool) : ∀ name ∈ markedNames mark columns, OneLine name := by
    intro name hname
    obtain ⟨column, hmarked, rfl⟩ := List.mem_map.mp hname
    exact oneLine_quoteIdentifier (h.named column (List.mem_filter.mp hmarked).1)
  rcases List.mem_append.mp hline with hcolumns | hkey
  · obtain ⟨column, hcolumn, rfl⟩ := List.mem_map.mp hcolumns
    refine ⟨by simp, ?_⟩
    exact ((oneLine_quoteIdentifier (h.named column hcolumn)).append (by decide)).append
      (h.typed column hcolumn)
  · split at hkey
    · obtain rfl := List.mem_singleton.mp hkey
      refine ⟨fun hempty => ?_, oneLine_keyLine (hnames _) (hnames _)⟩
      exact absurd (String.append_eq_empty_iff.mp hempty).2 (by decide)
    · simp at hkey

/-- The text that creates a table, out of its parts. -/
theorem WellIdentified.composeTable_eq
    (h : WellIdentified names columns)
    (table : TableName)
    {node : Node}
    (hcolumns : node.properties = some columns) :
    ∃ options, (options = "" ∨ ∃ clauses, options = "\nWITH " ++ clauses) ∧
      composeTable names (draftOf table node columns) =
        TableScript.text ⟨table.qualified, declaredLines names columns, options⟩ := by
  have hlist : (draftOf table node columns).columnList = columns := by
    simp [Draft.columnList, draftOf, hcolumns]
  have hbody := indent_intercalate fun line hline => h.oneLine_of_mem hline
  rw [composeTable]
  simp only [draftOf] at hlist ⊢
  rw [hlist, h.lines_eq _ rfl rfl, hbody]
  generalize tableClauses _ = clauses
  cases clauses with
  | nil => exact ⟨"", .inl rfl, rfl⟩
  | cons clause more => exact ⟨_, .inr ⟨_, rfl⟩, rfl⟩

theorem TableScript.render_createTable
    (table : TableName)
    (script : TableScript) :
    (Statement.createTable table script.text).render = script.text :=
  terminate_of_semicolon _

/-! ## Whole plans -/

/-- What a plan says of a created table stands in one piece: if the table declares its columns, one
statement that creates it, and otherwise nothing. Let the identifiers of the columns be distinct,
let every column of a key have one, and let names and types stand on one line. Then the script lists
one line for each column, in order, and behind them, just if a column is marked for the partition
key, one for the primary key, with the columns of the partition key in parentheses of their own and
then those of the clustering key, in the order of the columns. It names the table behind its
keyspace just if that has a name, and it is written as it stands. -/
theorem created_table_lists_its_columns_and_its_key
    (options : Options)
    (names : Listing String)
    (context : Context)
    (document : Node)
    (spot : Spot)
    (entry : String × Node)
    (hstands : StandsAt document spot entry)
    (htables : isTablePart spot.part = true)
    (change : Change)
    (hchanged : entry.2.elementChange? = some change)
    (hkept : change.deleted = false)
    (hcreated : change.created = true)
    (hidentified : WellIdentified names (fieldsOf entry.2)) :
    let said := (spot.trail (scopeIn options names context) entry).statements
    let table : TableName := ⟨change.keyspace, entry.1⟩
    (∀ plan, (compile options names context document).result = .ok plan → said <:+: plan) ∧
    (entry.2.properties = none → said = []) ∧
    (entry.2.properties ≠ none → ∃ script : TableScript,
      said = [.createTable table script.text] ∧
      NamedBy table script.name ∧
      script.lines = declaredLines names (fieldsOf entry.2) ∧
      (∀ line ∈ script.lines, OneLine line) ∧
      (script.options = "" ∨ ∃ clauses, script.options = "\nWITH " ++ clauses) ∧
      (Statement.createTable table script.text).render = script.text) := by
  intro said table
  obtain ⟨edit, hedit⟩ := Spot.trail_of_tables htables
  have hsaid : said = (entryTrail (scopeIn options names context) edit entry).statements := by
    rw [← hedit]
  refine ⟨fun plan => infix_of_stands hstands, ?undeclared, ?declared⟩
  case undeclared =>
    intro hnone
    rw [hsaid, entryTrail, hchanged]
    simp [hkept, hnone, Trail.statements]
  case declared =>
    intro hsome
    obtain ⟨columns, hcolumns⟩ := Option.ne_none_iff_exists'.mp hsome
    rw [fieldsOf, hcolumns, Option.getD_some] at hidentified ⊢
    obtain ⟨clauses, hclauses, hscript⟩ := hidentified.composeTable_eq table hcolumns
    have hcreation : entryCreation? entry = some ⟨table, entry.2, columns⟩ :=
      entryCreation?_eq_some_iff.mpr ⟨change, columns, hchanged, hkept, hcreated, hcolumns, rfl⟩
    have hkeys : Creation.Identified ⟨table, entry.2, columns⟩ := hidentified.identified
    refine ⟨⟨table.qualified, declaredLines names columns, clauses⟩, ?said, namedBy_qualified table,
      rfl, ?lines, hclauses, TableScript.render_createTable table _⟩
    case said =>
      rw [hsaid, entryTrail_of_creation hcreation, createTrail_of_identified hkeys, ← hscript]
      rfl
    case lines => exact fun line hline => (hidentified.oneLine_of_mem hline).2

/-- The columns of a table with a partition key of two columns and a clustering key of one, which
belongs to the partition key as well. -/
def keyedColumns : Members :=
  [ ("day",
      { declaration :=
          { logical := some "number", guid := some "c", inPartitionKey := true
            inClusteringKey := true } }),
    ("note", { declaration := { logical := some "string" } }),
    ("id",
      { declaration :=
          { physical := some "uuid", guid := some "a", inPartitionKey := true } }) ]

/-- A created table with a compound key. -/
def keyedTable : Node :=
  { element := some { change := some { created := true, keyspace := some "shop" } }
    properties := some keyedColumns }

/-- A comparison whose only entry is a created table with a compound key. -/
def keyedDocument : Node :=
  { added := some (listed "events" keyedTable) }

theorem table_with_compound_key_is_created :
    let spot : Spot := ⟨[], .added, [], 0⟩
    let table : TableName := ⟨some "shop", "events"⟩
    let text := "CREATE TABLE IF NOT EXISTS \"shop\".\"events\" (\n"
      ++ "\t\"day\" int,\n\t\"note\" text,\n\t\"id\" uuid,\n"
      ++ "\tPRIMARY KEY ((\"day\", \"id\"), \"day\")\n);"
    StandsAt keyedDocument spot ("events", keyedTable) ∧
      keyedTable.elementChange? = some { created := true, keyspace := some "shop" } ∧
      WellIdentified [] (fieldsOf keyedTable) ∧
      (compile {} [] {} keyedDocument).result = .ok [.createTable table text] ∧
      ∃ script : TableScript, script.text = text ∧ NamedBy table script.name ∧
        script.lines = declaredLines [] keyedColumns := by
  intro spot table text
  have hstands : StandsAt keyedDocument spot ("events", keyedTable) :=
    ⟨by simp [spot], .tables rfl, _, rfl, rfl⟩
  have hidentified : WellIdentified [] (fieldsOf keyedTable) :=
    ⟨by decide, by decide, by decide, by decide +kernel⟩
  have hresult : (compile {} [] {} keyedDocument).result = .ok [.createTable table text] := by
    decide +kernel
  obtain ⟨hpiece, -, hdeclared⟩ :=
    created_table_lists_its_columns_and_its_key {} [] {} keyedDocument spot _ hstands rfl _ rfl rfl
      rfl hidentified
  obtain ⟨script, hsaid, hname, hlines, -, -, -⟩ := hdeclared (by simp [keyedTable])
  refine ⟨hstands, rfl, hidentified, hresult, script, ?_, hname, hlines⟩
  have honly := List.mem_singleton.mp
    ((hpiece _ hresult).subset (hsaid ▸ List.mem_singleton_self _))
  exact (Statement.createTable.inj honly).2

end Plan
end CqlDelta
