import CqlDelta.Proofs.Plan.Entries
import CqlDelta.Proofs.Plan.EntryStatements

/-!
# What a plan leaves in its context

A created table hands its draft over to the context, as a whole, once all columns of its keys are
identified; nothing else is handed over. `HandedOver` says what such a draft holds: the table's node,
its keyspace, its name, the identifiers of its keys' columns, its options and its comment. Hence a
plan leaves the draft of the table that was created last, and a plan that fails that of the last
table before the one at which it fails (`context_holds_draft_of_last_created_table`).
-/

namespace CqlDelta
namespace Plan

open Cql Delta

/-! ## Created tables -/

/-- A table that is created: its name, and the node that declares its columns. -/
structure Creation where
  table : TableName
  node : Node
  columns : Members

/-- A column belongs to a key of its table. -/
def InKey (column : String × Node) : Prop :=
  column.2.declaration.inPartitionKey = true ∨ column.2.declaration.inClusteringKey = true

/-- All columns of the keys of a created table are identified. -/
def Creation.Identified (creation : Creation) : Prop :=
  ∀ column ∈ creation.columns, InKey column → column.2.declaration.guid ≠ none

/-- The table of a draft is what a created table declares: its name, the identifiers of all columns
of either key in the order of the columns, and the options and the comment of its element. -/
structure DeclaredBy (creation : Creation) (table : TableDraft) : Prop where
  name : table.name = creation.table.table
  partitionKey :
    table.partitionKey.map some =
      (creation.columns.filter fun column => column.2.declaration.inPartitionKey).map
        fun column => column.2.declaration.guid
  clusteringKey :
    table.clusteringKey.map some =
      (creation.columns.filter fun column => column.2.declaration.inClusteringKey).map
        fun column => column.2.declaration.guid
  options : table.options = (creation.node.element.bind Element.options).getD ""
  comment : table.comment = (creation.node.element.bind Element.comment).getD ""

/-- A draft is what a created table hands over: its node, its keyspace, and itself as the only
table. -/
structure HandedOver (creation : Creation) (draft : Draft) : Prop where
  columns : draft.columns = some creation.node
  keyspaces : draft.keyspaces = [creation.table.keyspace]
  tables : ∃ table, draft.tables = [table] ∧ DeclaredBy creation table

/-- The statement that creates a table composes it from what it hands over. -/
inductive Creates (names : Listing String) (creation : Creation) : Statement → Prop
  | composed {draft : Draft}
      (h : HandedOver creation draft) :
      Creates names creation (.createTable creation.table (composeTable names draft))

/-- What tables that are created one after another leave of a draft: the last one hands its own
over, and without any the draft stays. -/
inductive LeftBy (before : Draft) : List (Spot × Creation) → Draft → Prop
  | none : LeftBy before [] before
  | last {created : List (Spot × Creation)} {spot : Spot} {creation : Creation} {draft : Draft}
      (h : HandedOver creation draft) :
      LeftBy before (created ++ [(spot, creation)]) draft

/-- The fault of a created table names the first column of its keys that has no identifier. -/
structure AtFault (creation : Creation) (fault : KeyFault) : Prop where
  table : fault.table = creation.table.table
  column : ∃ front node back, creation.columns = front ++ (fault.column, node) :: back ∧
    InKey (fault.column, node) ∧ node.declaration.guid = none ∧
      ∀ earlier ∈ front, InKey earlier → earlier.2.declaration.guid ≠ none

/-- A table in a section of tables that is created, not deleted, and declares its columns. -/
inductive CreatedTable (document : Node) (spot : Spot) : Creation → Prop
  | intro {name : String} {node : Node} {change : Change} {columns : Members}
      (stands : StandsAt document spot (name, node))
      (inTables : isTablePart spot.part = true)
      (changed : node.elementChange? = some change)
      (kept : change.deleted = false)
      (created : change.created = true)
      (declared : node.properties = some columns) :
      CreatedTable document spot ⟨⟨change.keyspace, name⟩, node, columns⟩

/-- Whether a statement creates a table. -/
def createsTable : Statement → Bool
  | .createTable _ _ => true
  | _ => false

namespace Creation

/-- The draft of a created table. -/
def draft (creation : Creation) : Draft :=
  draftOf creation.table creation.node creation.columns

/-- The statement that creates a table. -/
def statement (names : Listing String) (creation : Creation) : Statement :=
  .createTable creation.table (composeTable names creation.draft)

end Creation

/-- The draft at hand after tables were created. -/
def draftAfter (created : List (Spot × Creation)) (draft : Draft) : Draft :=
  (created.getLast?.map fun found => found.2.draft).getD draft

/-! ## Drafts -/

theorem isKeyColumn_eq_true_iff {column : String × Node} :
    isKeyColumn column = true ↔ InKey column := by
  rw [isKeyColumn, Bool.or_eq_true]
  rfl

theorem identified_iff {creation : Creation} :
    creation.Identified ↔ unidentified? creation.columns = none := by
  rw [unidentified?, Option.map_eq_none_iff, List.find?_eq_none]
  refine forall₂_congr fun column _ => ?_
  simp [← isKeyColumn_eq_true_iff]

/-- A column that is found without an identifier is the first of its kind. -/
theorem atFault_of_unidentified
    {creation : Creation}
    {column : String}
    (h : unidentified? creation.columns = some column) :
    AtFault creation ⟨creation.table.table, column⟩ := by
  obtain ⟨⟨name, node⟩, hfound, rfl⟩ := Option.map_eq_some_iff.mp h
  obtain ⟨hlacks, front, back, hcolumns, hfront⟩ := List.find?_eq_some_iff_append.mp hfound
  obtain ⟨hkey, hguid⟩ := lacksIdentifier_iff.mp hlacks
  refine ⟨rfl, front, node, back, hcolumns, isKeyColumn_eq_true_iff.mp hkey, hguid, ?_⟩
  intro earlier hearlier hinKey hnone
  have hlacks : lacksIdentifier earlier = true :=
    lacksIdentifier_iff.mpr ⟨isKeyColumn_eq_true_iff.mpr hinKey, hnone⟩
  have hother := hfront earlier hearlier
  rw [lacksIdentifier] at hlacks
  simp [hlacks] at hother

/-- If no column with a mark lacks an identifier, the identifiers are those of all of them. -/
theorem map_some_markedGuids
    {columns : Members}
    {mark : Declaration → Bool}
    (h : ∀ column ∈ columns, mark column.2.declaration = true →
      column.2.declaration.guid ≠ none) :
    (markedGuids mark columns).map some =
      (columns.filter fun column => mark column.2.declaration).map
        fun column => column.2.declaration.guid := by
  rw [markedGuids, List.map_filterMap, ← List.filterMap_eq_map]
  refine List.filterMap_congr fun column hcolumn => ?_
  obtain ⟨hmem, hmark⟩ := List.mem_filter.mp hcolumn
  obtain ⟨guid, hguid⟩ := Option.ne_none_iff_exists'.mp (h column hmem hmark)
  rw [Function.comp_apply, hguid, Option.map_some]

/-- The draft of a table whose keys are identified is what the table hands over. -/
theorem Creation.Identified.handedOver
    {creation : Creation}
    (h : creation.Identified) :
    HandedOver creation creation.draft where
  columns := rfl
  keyspaces := rfl
  tables := by
    refine ⟨_, rfl, rfl, ?partition, ?clustering, rfl, rfl⟩
    case partition =>
      exact map_some_markedGuids fun column hcolumn hmark => h column hcolumn (.inl hmark)
    case clustering =>
      exact map_some_markedGuids fun column hcolumn hmark => h column hcolumn (.inr hmark)

theorem Creation.Identified.creates
    {creation : Creation}
    (h : creation.Identified)
    (names : Listing String) :
    Creates names creation (creation.statement names) :=
  .composed h.handedOver

/-- The draft after tables whose keys are identified is the one that they leave. -/
theorem leftBy_draftAfter
    {created : List (Spot × Creation)}
    (h : ∀ found ∈ created, found.2.Identified)
    (draft : Draft) :
    LeftBy draft created (draftAfter created draft) := by
  rcases List.eq_nil_or_concat' created with rfl | ⟨front, ⟨spot, creation⟩, rfl⟩
  · exact .none
  · rw [draftAfter, List.getLast?_concat]
    exact .last (h _ (List.mem_append_right _ List.mem_cons_self)).handedOver

/-! ## Entries that create a table -/

/-- The table that an entry of tables creates. -/
def entryCreation? (entry : String × Node) : Option Creation := do
  let change ← entry.2.elementChange?
  let columns ← entry.2.properties
  if !change.deleted && change.created then
    return ⟨⟨change.keyspace, entry.1⟩, entry.2, columns⟩
  else
    none

/-- The table that an entry at a spot creates. -/
def creation? (spot : Spot) (entry : String × Node) : Option Creation :=
  if isTablePart spot.part then entryCreation? entry else none

theorem entryCreation?_eq_some_iff
    {entry : String × Node}
    {creation : Creation} :
    entryCreation? entry = some creation ↔
      ∃ change columns, entry.2.elementChange? = some change ∧ change.deleted = false ∧
        change.created = true ∧ entry.2.properties = some columns ∧
          creation = ⟨⟨change.keyspace, entry.1⟩, entry.2, columns⟩ := by
  rw [entryCreation?]
  cases entry.2.elementChange? with
  | none => simp
  | some change =>
      cases entry.2.properties with
      | none => simp
      | some columns =>
          cases hdeleted : change.deleted <;> cases hcreated : change.created <;>
            simp [hdeleted, hcreated]
          exact eq_comm

theorem createdTable_iff
    {document : Node}
    {spot : Spot}
    {creation : Creation} :
    CreatedTable document spot creation ↔
      ∃ entry, StandsAt document spot entry ∧ creation? spot entry = some creation := by
  constructor
  · rintro ⟨stands, inTables, changed, kept, created, declared⟩
    refine ⟨_, stands, ?_⟩
    rw [creation?, if_pos inTables, entryCreation?_eq_some_iff]
    exact ⟨_, _, changed, kept, created, declared, rfl⟩
  · rintro ⟨⟨name, node⟩, stands, hcreation⟩
    rw [creation?] at hcreation
    split at hcreation
    · rename_i inTables
      obtain ⟨change, columns, changed, kept, created, declared, rfl⟩ :=
        entryCreation?_eq_some_iff.mp hcreation
      exact ⟨stands, inTables, changed, kept, created, declared⟩
    · simp at hcreation

/-- A trail in which no table is created: it has no fault, and hands no draft over. -/
structure CreatesNothing (trail : Trail) : Prop where
  fault : trail.fault = none
  drafts : trail.drafts = []
  statements : trail.statements.filter createsTable = []

theorem CreatesNothing.ofStatements
    {statements : List Statement}
    (h : ∀ statement ∈ statements, createsTable statement = false) :
    CreatesNothing (.ofStatements statements) where
  fault := rfl
  drafts := Trail.drafts_ofStatements statements
  statements := by
    rw [Trail.statements_ofStatements, List.filter_eq_nil_iff]
    simpa using h

theorem CreatesNothing.empty : CreatesNothing {} where
  fault := rfl
  drafts := rfl
  statements := rfl

/-- A trail of a table is either that of its creation, or creates nothing. -/
theorem entryTrail_of_creation
    {entry : String × Node}
    {creation : Creation}
    (h : entryCreation? entry = some creation)
    (scope : Scope)
    (edit : ColumnEdit) :
    entryTrail scope edit entry =
      createTrail scope creation.table creation.node creation.columns := by
  obtain ⟨change, columns, hchange, hkept, hcreated, hcolumns, rfl⟩ :=
    entryCreation?_eq_some_iff.mp h
  simp [entryTrail, hchange, hkept, hcreated, hcolumns]

theorem createsNothing_of_entry
    {entry : String × Node}
    (h : entryCreation? entry = none)
    (scope : Scope)
    (edit : ColumnEdit) :
    CreatesNothing (entryTrail scope edit entry) := by
  rw [entryTrail]
  split
  · exact .empty
  · rename_i change hchange
    split
    · exact .ofStatements (by simp [createsTable])
    · rename_i hkept
      split
      · exact .empty
      · rename_i columns hcolumns
        split
        · rename_i hcreated
          have hcreation : entryCreation? entry = some _ :=
            entryCreation?_eq_some_iff.mpr
              ⟨change, columns, hchange, by simpa using hkept, hcreated, hcolumns, rfl⟩
          simp [h] at hcreation
        · refine .ofStatements fun statement hstatement => ?_
          cases saidOfAlteredTable_of_mem hstatement <;> rfl

/-- Where types are concerned no table is created. -/
theorem createsNothing_of_types
    (scope : Scope)
    (stop : TypeEntry) :
    CreatesNothing (.ofEvents (stop.events scope)) where
  fault := rfl
  drafts := by
    rw [Trail.drafts, List.filterMap_eq_nil_iff]
    intro event hevent
    cases tells_of_mem hevent <;> rfl
  statements := by
    rw [List.filter_eq_nil_iff]
    intro statement hstatement
    have hsaid := saidOfType_of_mem (mem_statementsOf_iff.mp hstatement)
    generalize stop.part = part at hsaid
    cases hsaid <;> simp [createsTable]

/-- An entry leads to the creation of the table that it creates. -/
theorem trail_of_creation
    {spot : Spot}
    {entry : String × Node}
    {creation : Creation}
    (h : creation? spot entry = some creation)
    (scope : Scope) :
    spot.trail scope entry =
      createTrail scope creation.table creation.node creation.columns := by
  rw [creation?] at h
  split at h
  · rename_i inTables
    obtain ⟨edit, hedit⟩ := Spot.trail_of_tables inTables
    rw [hedit, entryTrail_of_creation h]
  · simp at h

/-- An entry that creates no table leads to nothing of the kind. -/
theorem createsNothing_of_spot
    {spot : Spot}
    {entry : String × Node}
    (h : creation? spot entry = none)
    (scope : Scope) :
    CreatesNothing (spot.trail scope entry) := by
  have hentry (hpart : isTablePart spot.part = true) : entryCreation? entry = none := by
    rwa [creation?, if_pos hpart] at h
  obtain ⟨passages, part, nested, index⟩ := spot
  cases part with
  | modified => exact createsNothing_of_entry (hentry rfl) scope .replace
  | deleted => exact createsNothing_of_entry (hentry rfl) scope .drop
  | added => exact createsNothing_of_entry (hentry rfl) scope .add
  | entities => exact .empty
  | containers =>
      refine .ofStatements fun statement hstatement => ?_
      obtain ⟨element, -, rfl⟩ := Option.map_eq_some_iff.mp (Option.mem_toList.mp hstatement)
      cases fateAfter .altered nested <;> rfl
  | definitions =>
      simp only [Spot.trail]
      split
      · exact createsNothing_of_types scope _
      · exact .empty

/-! ## Runs of entries -/

/-- The trail of a created table: either it stops at once, or the table's draft is handed over. -/
theorem createTrail_of_identified
    {creation : Creation}
    (h : creation.Identified)
    (scope : Scope) :
    createTrail scope creation.table creation.node creation.columns =
      .ofEvents
        [ .handOver creation.draft,
          .note (.creatingTable creation.table.table),
          .statement (creation.statement scope.names) ] := by
  rw [createTrail, identified_iff.mp h]
  rfl

theorem createTrail_of_unidentified
    {creation : Creation}
    {column : String}
    (h : unidentified? creation.columns = some column)
    (scope : Scope) :
    createTrail scope creation.table creation.node creation.columns =
      .stop ⟨creation.table.table, column⟩ := by
  rw [createTrail, h]

/-- An entry that does not fail hands over the draft of the table that it creates, and no other. -/
theorem drafts_and_statements_of_spot
    {spot : Spot}
    {entry : String × Node}
    {scope : Scope}
    (h : (spot.trail scope entry).fault = none) :
    (∀ creation ∈ creation? spot entry, creation.Identified) ∧
    (spot.trail scope entry).drafts =
      (creation? spot entry).toList.flatMap (fun creation => [creation.draft]) ∧
    (spot.trail scope entry).statements.filter createsTable =
      (creation? spot entry).toList.flatMap (fun creation => [creation.statement scope.names]) := by
  cases hcreation : creation? spot entry with
  | none =>
      have hnothing := createsNothing_of_spot hcreation scope
      exact ⟨by simp, hnothing.drafts, hnothing.statements⟩
  | some creation =>
      rw [trail_of_creation hcreation] at h ⊢
      cases hidentified : unidentified? creation.columns with
      | some column => simp [createTrail_of_unidentified hidentified, Trail.stop] at h
      | none =>
          have hkeys : creation.Identified := identified_iff.mpr hidentified
          rw [createTrail_of_identified hkeys]
          exact ⟨fun found hfound => Option.some.inj hfound ▸ hkeys, rfl, rfl⟩

/-- Entries of which none fails hand over the drafts of the tables that they create, in order. -/
theorem drafts_and_statements_of_entries
    {entries : List (Spot × (String × Node))}
    {scope : Scope}
    (h : (Trail.concat (entries.map fun standing =>
      standing.1.trail scope standing.2)).fault = none) :
    let trail := Trail.concat (entries.map fun standing => standing.1.trail scope standing.2)
    let created := picked creation? entries
    (∀ found ∈ created, found.2.Identified) ∧
    trail.drafts = created.map (fun found => found.2.draft) ∧
    trail.statements.filter createsTable =
      created.map (fun found => found.2.statement scope.names) := by
  intro trail created
  have hentry (standing : Spot × (String × Node)) (hstanding : standing ∈ entries) :=
    drafts_and_statements_of_spot
      ((Trail.events_concat h).1 _ (List.mem_map_of_mem hstanding))
  refine ⟨?identified, ?drafts, ?statements⟩
  case identified =>
    intro found hfound
    obtain ⟨standing, hstanding, hpick⟩ := List.mem_filterMap.mp hfound
    obtain ⟨creation, hcreation, rfl⟩ := Option.map_eq_some_iff.mp hpick
    exact (hentry standing hstanding).1 creation hcreation
  case drafts =>
    rw [Trail.drafts_concat h, List.flatMap_map, List.map_eq_flatMap]
    exact flatMap_eq_picked fun standing hstanding => (hentry standing hstanding).2.1
  case statements =>
    rw [Trail.statements_concat h, List.filter_flatMap, List.flatMap_map, List.map_eq_flatMap]
    exact flatMap_eq_picked fun standing hstanding => (hentry standing hstanding).2.2

/-- Entries of which one fails hand over the drafts of the tables created before it; it is the table
that is created there that fails, and it leaves nothing. -/
theorem drafts_of_failing_entries
    {entries : List (Spot × (String × Node))}
    {scope : Scope}
    {fault : KeyFault}
    (h : (Trail.concat (entries.map fun standing =>
      standing.1.trail scope standing.2)).fault = some fault) :
    ∃ before failing after, picked creation? entries = before ++ failing :: after ∧
      (∀ found ∈ before, found.2.Identified) ∧
      AtFault failing.2 fault ∧
      (Trail.concat (entries.map fun standing =>
        standing.1.trail scope standing.2)).drafts = before.map fun found => found.2.draft := by
  obtain ⟨front, standing, back, rfl, hfront, hstanding, heq⟩ := Trail.exists_first_fault h
  obtain ⟨hidentified, hdrafts, -⟩ := drafts_and_statements_of_entries hfront
  cases hcreation : creation? standing.1 standing.2 with
  | none => simp [(createsNothing_of_spot hcreation scope).fault] at hstanding
  | some creation =>
      rw [trail_of_creation hcreation] at hstanding heq
      cases hunidentified : unidentified? creation.columns with
      | none =>
          have hkeys : creation.Identified := identified_iff.mpr hunidentified
          simp [createTrail_of_identified hkeys, Trail.ofEvents] at hstanding
      | some column =>
          rw [createTrail_of_unidentified hunidentified] at hstanding heq
          obtain rfl : (⟨creation.table.table, column⟩ : KeyFault) = fault :=
            Option.some.inj hstanding
          refine ⟨picked creation? front, (standing.1, creation), picked creation? back, ?_,
            hidentified, atFault_of_unidentified hunidentified, ?_⟩
          · simp [picked, hcreation]
          · rw [heq, Trail.append_of_no_fault hfront, ← hdrafts]
            simp [Trail.drafts, Trail.stop]

/-! ## Whole plans -/

/-- A plan leaves its context as it was but for the draft, which is the one after the tables that
handed theirs over. -/
theorem context_compile
    {options : Options}
    {names : Listing String}
    {context : Context}
    {document : Node}
    {created : List (Spot × Creation)}
    (h : (trailOf (scopeIn options names context) (.single document)).drafts =
      created.map fun found => found.2.draft) :
    (compile options names context document).context =
      { context with draft := draftAfter created context.draft } := by
  rw [compile_eq]
  simp only [Trail.lastDraft?_eq_getLast?, h, List.getLast?_map, draftAfter]

/-- A plan that succeeds creates tables in the order in which their entries have their turn, each
from what it hands over, and leaves the context as it was but for the draft, which is what the last
created table hands over; composing it gives the last script again. A plan that fails at a table
leaves what the last table before that one hands over. -/
theorem context_holds_draft_of_last_created_table
    (options : Options)
    (names : Listing String)
    (context : Context)
    (document : Node) :
    let outcome := compile options names context document
    ∃ created, InWalkOrder (CreatedTable document) created ∧
      (∀ plan, outcome.result = .ok plan →
        List.Forall₂ (fun found => Creates names found.2) created (plan.filter createsTable) ∧
        ∃ draft, outcome.context = { context with draft := draft } ∧
          LeftBy context.draft created draft ∧
          ∀ table script, (plan.filter createsTable).getLast? = some (.createTable table script) →
            composeTable names draft = script) ∧
      (∀ fault, outcome.result = .error fault →
        ∃ before failing after, created = before ++ failing :: after ∧
          (∀ found ∈ before, found.2.Identified) ∧
          AtFault failing.2 fault ∧
          ∃ draft, outcome.context = { context with draft := draft } ∧
            LeftBy context.draft before draft) := by
  intro outcome
  refine ⟨_, picked_inWalkOrder fun _ _ => createdTable_iff, ?succeeds, ?fails⟩
  case succeeds =>
    intro plan hplan
    rw [result_compile] at hplan
    obtain ⟨hfault, rfl⟩ := Trail.result_eq_ok_iff.mp hplan
    rw [trailOf_eq_entries] at hfault
    obtain ⟨hidentified, hdrafts, hstatements⟩ := drafts_and_statements_of_entries hfault
    rw [← trailOf_eq_entries] at hdrafts hstatements
    rw [hstatements]
    refine ⟨?created, _, context_compile hdrafts, leftBy_draftAfter hidentified _, ?last⟩
    case created =>
      rw [List.forall₂_map_right_iff, List.forall₂_same]
      exact fun found hfound => (hidentified found hfound).creates names
    case last =>
      intro table script hlast
      rw [List.getLast?_map] at hlast
      obtain ⟨found, hfound, hstatement⟩ := Option.map_eq_some_iff.mp hlast
      rw [draftAfter, hfound]
      exact (Statement.createTable.inj hstatement).2
  case fails =>
    intro fault hresult
    rw [result_compile, result_eq_error_iff, trailOf_eq_entries] at hresult
    obtain ⟨before, failing, after, hcreated, hidentified, hfaulty, hdrafts⟩ :=
      drafts_of_failing_entries hresult
    rw [← trailOf_eq_entries] at hdrafts
    exact ⟨before, failing, after, hcreated, hidentified, hfaulty, _, context_compile hdrafts,
      leftBy_draftAfter hidentified _⟩

/-- A table with a key of three columns, with options and a comment. -/
def visitsTable : Node :=
  { element :=
      some
        { change := some { created := true, keyspace := some "shop" }
          options := some "gc_grace_seconds = 60"
          comment := some "who came when" }
    properties :=
      some
        [ ("hour", { declaration := { guid := some "h", inClusteringKey := true } }),
          ("page", { declaration := { guid := some "p", inPartitionKey := true } }),
          ("note", { declaration := { guid := some "n" } }),
          ("day", { declaration := { guid := some "d", inPartitionKey := true } }) ] }

/-- A table that is created, and one behind it. -/
def createdBefore (last : Node) : Node :=
  { modified := some (listed "visits" visitsTable)
    added := some last }

/-- What the table hands over under a name. -/
def visitsDraft (name : String) : Draft :=
  { columns := some visitsTable
    keyspaces := [some "shop"]
    tables :=
      [ { name := name
          partitionKey := ["p", "d"]
          clusteringKey := ["h"]
          options := "gc_grace_seconds = 60"
          comment := "who came when" } ] }

/-- A table that fails leaves the whole draft of the table before it, and a table that is created
last leaves its own. -/
theorem failing_table_leaves_earlier_draft :
    let old : Context := { versions := [some "4.0"], draft := { keyspaces := [some "old"] } }
    let failing := createdBefore (unidentifiedTable "orders" "id")
    let succeeding := createdBefore (listed "carts" visitsTable)
    (compile {} [] old failing).result = .error ⟨"orders", "id"⟩ ∧
      (compile {} [] old failing).context =
        { versions := [some "4.0"], draft := visitsDraft "visits" } ∧
      (∃ created before last after, InWalkOrder (CreatedTable failing) created ∧
        created = before ++ last :: after ∧ AtFault last.2 ⟨"orders", "id"⟩ ∧
          LeftBy old.draft before (visitsDraft "visits")) ∧
    (compile {} [] old succeeding).context =
        { versions := [some "4.0"], draft := visitsDraft "carts" } ∧
      ∃ created plan, InWalkOrder (CreatedTable succeeding) created ∧
        (compile {} [] old succeeding).result = .ok plan ∧
        List.Forall₂ (fun found => Creates [] found.2) created (plan.filter createsTable) ∧
        LeftBy old.draft created (visitsDraft "carts") := by
  intro old failing succeeding
  have hfailing : (compile {} [] old failing).result = .error ⟨"orders", "id"⟩ := rfl
  have hfirst : (compile {} [] old failing).context = { old with draft := visitsDraft "visits" } :=
    rfl
  have hlast : (compile {} [] old succeeding).context = { old with draft := visitsDraft "carts" } :=
    rfl
  obtain ⟨plan, hplan⟩ : ∃ plan, (compile {} [] old succeeding).result = .ok plan := ⟨_, rfl⟩
  refine ⟨hfailing, hfirst, ?failing, hlast, ?succeeding⟩
  case failing =>
    obtain ⟨created, horder, -, hfails⟩ :=
      context_holds_draft_of_last_created_table {} [] old failing
    obtain ⟨before, last, after, hcreated, -, hfaulty, draft, hcontext, hleft⟩ :=
      hfails _ hfailing
    obtain rfl : visitsDraft "visits" = draft :=
      congrArg Context.draft (hfirst.symm.trans hcontext)
    exact ⟨created, before, last, after, horder, hcreated, hfaulty, hleft⟩
  case succeeding =>
    obtain ⟨created, horder, hsucceeds, -⟩ :=
      context_holds_draft_of_last_created_table {} [] old succeeding
    obtain ⟨hcreates, draft, hcontext, hleft, -⟩ := hsucceeds plan hplan
    obtain rfl : visitsDraft "carts" = draft :=
      congrArg Context.draft (hlast.symm.trans hcontext)
    exact ⟨created, plan, horder, hplan, hcreates, hleft⟩

end Plan
end CqlDelta
