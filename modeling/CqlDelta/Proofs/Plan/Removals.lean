import CqlDelta.Proofs.Plan.Entries
import CqlDelta.Proofs.Plan.EntryStatements

/-!
# What a plan removes

Whatever a plan removes stems from an entry that says so: a dropped keyspace stands behind a branch
`deleted` of a section of keyspaces, a dropped table is marked as deleted itself, and so is a
dropped type in a part `deleted`; a dropped column belongs to an altered table or held values of a
dropped type. Conversely every keyspace, table and type of which that is said is dropped, once, and
in the order in which the entries have their turn.
-/

namespace CqlDelta
namespace Plan

open Cql Delta

/-! ## Entries that remove something -/

/-- What a destructive statement removes. -/
inductive Removal where
  | keyspace
  | table
  | column
  | type
deriving DecidableEq

/-- The kind of what a statement removes. -/
def removal? : Statement → Option Removal
  | .dropKeyspace _ => some .keyspace
  | .dropTable _ => some .table
  | .dropColumn _ _ => some .column
  | .dropType _ => some .type
  | _ => none

/-- The statements of a plan that remove something of a kind. -/
def removals (kind : Removal) (plan : List Statement) : List Statement :=
  plan.filter fun statement => removal? statement = some kind

/-- A keyspace with an element, among the items of a view of a section of keyspaces to which a
branch `deleted` leads. -/
inductive DroppedKeyspace (document : Node) (spot : Spot) : String → Prop
  | intro {key : String} {node : Node} {element : Element}
      (stands : StandsAt document spot (key, node))
      (inKeyspaces : spot.part = .containers)
      (behindDeleted : spot.nested.getLast? = some (.part .deleted))
      (declared : node.element = some element) :
      DroppedKeyspace document spot (element.name.getD key)

/-- A table in a section of tables whose element is marked as deleted. -/
inductive DroppedTable (document : Node) (spot : Spot) : TableName → Prop
  | intro {name : String} {node : Node} {change : Change}
      (stands : StandsAt document spot (name, node))
      (inTables : isTablePart spot.part = true)
      (changed : node.elementChange? = some change)
      (deleted : change.deleted = true) :
      DroppedTable document spot ⟨change.keyspace, name⟩

/-- A type and where it is defined. -/
structure PlacedType where
  name : String
  placement : Placement

/-- A type that is marked as deleted and placed, in the part `deleted` of a section of types. -/
inductive DroppedType (document : Node) (spot : Spot) : PlacedType → Prop
  | intro {name : String} {node : Node} {placement : Placement}
      (stands : StandsAt document spot (name, node))
      (inTypes : spot.part = .definitions)
      (behindDeleted : spot.nested.getLast? = some (.part .deleted))
      (deleted : isDeleted node = true)
      (placed : node.placement? = some placement) :
      DroppedType document spot ⟨name, placement⟩

/-- A column of a table that is neither deleted nor created, in a section of deleted or modified
tables. -/
inductive DroppedColumn (document : Node) (spot : Spot) : TableName → String → Prop
  | intro {name : String} {node : Node} {change : Change} {columns : Members}
      {column : String × Node}
      (stands : StandsAt document spot (name, node))
      (inTables : spot.part = .modified ∨ spot.part = .deleted)
      (changed : node.elementChange? = some change)
      (kept : change.deleted = false)
      (present : change.created = false)
      (declared : node.properties = some columns)
      (among : column ∈ columns) :
      DroppedColumn document spot ⟨change.keyspace, name⟩ column.1

/-- The comparison says what a statement removes. -/
inductive Justified (document : Node) : Statement → Prop
  | keyspace {spot : Spot} {name : String}
      (dropped : DroppedKeyspace document spot name) :
      Justified document (.dropKeyspace name)
  | table {spot : Spot} {table : TableName}
      (dropped : DroppedTable document spot table) :
      Justified document (.dropTable table)
  | type {spot : Spot} {type : PlacedType} {keyspace : String}
      (dropped : DroppedType document spot type)
      (among : keyspace ∈ type.placement.names) :
      Justified document (.dropType ⟨keyspace, type.name⟩)
  | column {spot : Spot} {table : TableName} {column : String}
      (dropped : DroppedColumn document spot table column) :
      Justified document (.dropColumn table column)
  | typeColumn {spot : Spot} {type : PlacedType} {home : String × List TableUse} {use : TableUse}
      (dropped : DroppedType document spot type)
      (among : home ∈ type.placement)
      (used : use ∈ home.2)
      (named : use.table.isEmpty = false) :
      Justified document (.dropColumn ⟨some home.1, use.table⟩ type.name)

/-! ## What is said at a spot -/

/-- What is said of an entry at a spot, by the section in which it stands. -/
inductive SaidAt (scope : Scope) (spot : Spot) (entry : String × Node) : Statement → Prop
  | keyspace {statement : Statement}
      (inKeyspaces : spot.part = .containers)
      (said : keyspaceStatement? (fateAfter .altered spot.nested) entry = some statement) :
      SaidAt scope spot entry statement
  | type {part : Part} {statement : Statement}
      (inTypes : spot.part = .definitions)
      (behind : spot.nested.getLast? = some (.part part))
      (said : SaidOfType entry part statement) :
      SaidAt scope spot entry statement
  | table {edit : ColumnEdit} {statement : Statement}
      (inTables : isTablePart spot.part = true)
      (edits : edit ≠ .add → spot.part = .modified ∨ spot.part = .deleted)
      (said : SaidOfTable scope edit entry statement) :
      SaidAt scope spot entry statement

theorem saidAt_of_mem
    {scope : Scope}
    {spot : Spot}
    {entry : String × Node}
    {statement : Statement}
    (h : statement ∈ (spot.trail scope entry).statements) :
    SaidAt scope spot entry statement := by
  obtain ⟨passages, part, nested, index⟩ := spot
  cases part with
  | containers =>
      simp only [Spot.trail, Trail.statements_ofStatements, Option.mem_toList] at h
      exact .keyspace rfl h
  | entities => simp [Spot.trail, Trail.statements] at h
  | definitions =>
      simp only [Spot.trail] at h
      split at h
      · rename_i part hlast
        exact .type rfl hlast (saidOfType_of_mem (mem_statementsOf_iff.mp h))
      · simp [Trail.statements] at h
  | modified => exact .table rfl (fun _ => .inl rfl) (saidOfTable_of_mem h)
  | deleted => exact .table rfl (fun _ => .inr rfl) (saidOfTable_of_mem h)
  | added => exact .table rfl (fun hedit => absurd rfl hedit) (saidOfTable_of_mem h)

theorem fateAlong_eq_dropped_iff
    {branch : Branch} :
    fateAlong branch = .dropped ↔ branch = .part .deleted := by
  cases branch with
  | properties => simp [fateAlong]
  | items => simp [fateAlong]
  | part part => cases part <;> simp [fateAlong]

/-- Keyspaces are dropped where a branch `deleted` comes last. -/
theorem fate_eq_dropped_iff
    {document : Node}
    {spot : Spot}
    {entry : String × Node}
    (hstands : StandsAt document spot entry)
    (hpart : spot.part = .containers) :
    fateAfter .altered spot.nested = .dropped ↔ spot.nested.getLast? = some (.part .deleted) := by
  have hnested : ∀ branch ∈ spot.nested, branch ∈ keyspaceBranches.map Prod.fst := by
    have hsearched := hstands.searched
    rw [hpart] at hsearched
    generalize spot.nested = nested at hsearched
    cases hsearched with
    | keyspaces through => exact through
    | tables holds => simp
  rw [fateAfter_eq_fateAlong hnested]
  cases spot.nested.getLast? with
  | none => simp
  | some branch => simp [fateAlong_eq_dropped_iff]

/-- Whatever is removed by what is said of an entry is justified. -/
theorem justified_of_saidAt
    {scope : Scope}
    {document : Node}
    {spot : Spot}
    {entry : String × Node}
    {statement : Statement}
    (hstands : StandsAt document spot entry)
    (hsaid : SaidAt scope spot entry statement)
    (hdestructive : statement.isDestructive = true) :
    Justified document statement := by
  cases hsaid with
  | keyspace inKeyspaces said =>
      obtain ⟨element, hdeclared, rfl⟩ := Option.map_eq_some_iff.mp said
      cases hfate : fateAfter .altered spot.nested with
      | created => simp [hfate, Statement.isDestructive] at hdestructive
      | altered => simp [hfate, Statement.isDestructive] at hdestructive
      | dropped =>
          have hlast := (fate_eq_dropped_iff hstands inKeyspaces).mp hfate
          exact .keyspace ⟨hstands, inKeyspaces, hlast, hdeclared⟩
  | type inTypes behind said =>
      cases said with
      | dropColumn deleted placed among used named =>
          exact .typeColumn ⟨hstands, inTypes, behind, deleted, placed⟩ among used named
      | drop deleted placed among =>
          exact .type ⟨hstands, inTypes, behind, deleted, placed⟩ among
      | _ => simp [Statement.isDestructive] at hdestructive
  | table inTables edits said =>
      cases said with
      | drop changed deleted => exact .table ⟨hstands, inTables, changed, deleted⟩
      | create changed kept created declared => simp [Statement.isDestructive] at hdestructive
      | alter changed kept present declared said =>
          cases said with
          | drop among edited =>
              exact .column ⟨hstands, edits edited, changed, kept, present, declared, among⟩
          | _ => simp [Statement.isDestructive] at hdestructive

/-! ## What is dropped of an entry -/

/-- The keyspace that an entry drops. -/
def droppedKeyspace? (spot : Spot) (entry : String × Node) : Option String :=
  if spot.part = .containers ∧ spot.nested.getLast? = some (.part .deleted) then
    entry.2.element.map fun element => element.name.getD entry.1
  else
    none

/-- The table that an entry drops. -/
def droppedTable? (spot : Spot) (entry : String × Node) : Option TableName :=
  if isTablePart spot.part then
    (entry.2.elementChange?.filter Change.deleted).map fun change => ⟨change.keyspace, entry.1⟩
  else
    none

/-- The type that an entry drops, and from where. -/
def droppedType? (spot : Spot) (entry : String × Node) : Option PlacedType :=
  if spot.part = .definitions ∧ spot.nested.getLast? = some (.part .deleted) ∧
      isDeleted entry.2 = true then
    entry.2.placement?.map (PlacedType.mk entry.1)
  else
    none

theorem droppedKeyspace_iff
    {document : Node}
    {spot : Spot}
    {name : String} :
    DroppedKeyspace document spot name ↔
      ∃ entry, StandsAt document spot entry ∧ droppedKeyspace? spot entry = some name := by
  constructor
  · rintro ⟨stands, inKeyspaces, behindDeleted, declared⟩
    exact ⟨_, stands, by simp [droppedKeyspace?, inKeyspaces, behindDeleted, declared]⟩
  · rintro ⟨⟨key, node⟩, stands, hdropped⟩
    rw [droppedKeyspace?] at hdropped
    split at hdropped
    · rename_i hspot
      obtain ⟨element, declared, rfl⟩ := Option.map_eq_some_iff.mp hdropped
      exact ⟨stands, hspot.1, hspot.2, declared⟩
    · simp at hdropped

theorem droppedTable_iff
    {document : Node}
    {spot : Spot}
    {table : TableName} :
    DroppedTable document spot table ↔
      ∃ entry, StandsAt document spot entry ∧ droppedTable? spot entry = some table := by
  constructor
  · rintro ⟨stands, inTables, changed, deleted⟩
    exact ⟨_, stands, by simp [droppedTable?, inTables, changed, deleted, Option.filter]⟩
  · rintro ⟨⟨name, node⟩, stands, hdropped⟩
    rw [droppedTable?] at hdropped
    split at hdropped
    · rename_i inTables
      obtain ⟨change, hchange, rfl⟩ := Option.map_eq_some_iff.mp hdropped
      obtain ⟨changed, deleted⟩ := Option.filter_eq_some_iff.mp hchange
      exact ⟨stands, inTables, changed, deleted⟩
    · simp at hdropped

theorem droppedType_iff
    {document : Node}
    {spot : Spot}
    {type : PlacedType} :
    DroppedType document spot type ↔
      ∃ entry, StandsAt document spot entry ∧ droppedType? spot entry = some type := by
  constructor
  · rintro ⟨stands, inTypes, behindDeleted, deleted, placed⟩
    exact ⟨_, stands, by simp [droppedType?, inTypes, behindDeleted, deleted, placed]⟩
  · rintro ⟨⟨name, node⟩, stands, hdropped⟩
    rw [droppedType?] at hdropped
    split at hdropped
    · rename_i hspot
      obtain ⟨placement, placed, rfl⟩ := Option.map_eq_some_iff.mp hdropped
      exact ⟨stands, hspot.1, hspot.2.1, hspot.2.2, placed⟩
    · simp at hdropped

/-! ## Removals of an entry -/

/-- Where things of a kind are removed. -/
def RemovedIn (spot : Spot) : Removal → Prop
  | .keyspace => spot.part = .containers
  | .table => isTablePart spot.part = true
  | .type => spot.part = .definitions ∧ spot.nested.getLast? = some (.part .deleted)
  | .column => isTablePart spot.part = true ∨ spot.part = .definitions

theorem removedIn_of_saidAt
    {scope : Scope}
    {spot : Spot}
    {entry : String × Node}
    {statement : Statement}
    {kind : Removal}
    (hsaid : SaidAt scope spot entry statement)
    (h : removal? statement = some kind) :
    RemovedIn spot kind := by
  cases hsaid with
  | keyspace inKeyspaces said =>
      obtain ⟨element, -, rfl⟩ := Option.map_eq_some_iff.mp said
      cases hfate : fateAfter .altered spot.nested <;> simp [hfate, removal?] at h
      subst h
      exact inKeyspaces
  | type inTypes behind said =>
      cases said <;> simp [removal?] at h <;> subst h
      · exact .inr inTypes
      · exact ⟨inTypes, behind⟩
  | table inTables edits said =>
      cases said with
      | drop changed deleted =>
          obtain rfl := Option.some.inj h
          exact inTables
      | create changed kept created declared => simp [removal?] at h
      | alter changed kept present declared said =>
          cases said <;> simp [removal?] at h
          subst h
          exact .inl inTables

/-- Elsewhere nothing of a kind is removed. -/
theorem removals_eq_nil
    {spot : Spot}
    {kind : Removal}
    (h : ¬RemovedIn spot kind)
    (scope : Scope)
    (entry : String × Node) :
    removals kind (spot.trail scope entry).statements = [] := by
  rw [removals, List.filter_eq_nil_iff]
  intro statement hstatement hkind
  exact h (removedIn_of_saidAt (saidAt_of_mem hstatement) (by simpa using hkind))

theorem removals_keyspace
    {document : Node}
    {spot : Spot}
    {entry : String × Node}
    (hstands : StandsAt document spot entry)
    (scope : Scope) :
    removals .keyspace (spot.trail scope entry).statements =
      (droppedKeyspace? spot entry).toList.flatMap fun name => [.dropKeyspace name] := by
  by_cases hspot : RemovedIn spot .keyspace
  · have hpart : spot.part = .containers := hspot
    have hfate := fate_eq_dropped_iff hstands hpart
    rw [Spot.trail, hpart]
    simp only [Trail.statements_ofStatements, droppedKeyspace?, hpart, true_and, ← hfate,
      keyspaceStatement?]
    cases entry.2.element with
    | none => simp [removals]
    | some element =>
        cases fateAfter .altered spot.nested <;> simp [removals, removal?]
  · rw [removals_eq_nil hspot, droppedKeyspace?, if_neg fun hdropped => hspot hdropped.1]
    rfl

theorem removals_of_entryTrail
    (scope : Scope)
    (edit : ColumnEdit)
    (entry : String × Node) :
    removals .table (entryTrail scope edit entry).statements =
      ((entry.2.elementChange?.filter Change.deleted).map fun change =>
        Statement.dropTable ⟨change.keyspace, entry.1⟩).toList := by
  cases hchange : entry.2.elementChange? with
  | none => simp [entryTrail, hchange, removals, Trail.statements]
  | some change =>
      cases hdeleted : change.deleted with
      | true =>
          simp [entryTrail, hchange, hdeleted, removals, removal?, Option.filter]
      | false =>
          simp only [Option.filter, hdeleted, Bool.false_eq_true, if_false, Option.map_none,
            Option.toList_none]
          rw [removals, List.filter_eq_nil_iff]
          intro statement hstatement
          cases saidOfTable_of_mem hstatement with
          | drop changed deleted => simp_all
          | create changed kept created declared => simp [removal?]
          | alter changed kept present declared said => cases said <;> simp [removal?]

theorem removals_table
    (scope : Scope)
    (spot : Spot)
    (entry : String × Node) :
    removals .table (spot.trail scope entry).statements =
      (droppedTable? spot entry).toList.flatMap fun table => [.dropTable table] := by
  by_cases hspot : RemovedIn spot .table
  · have hpart : isTablePart spot.part = true := hspot
    obtain ⟨edit, hedit⟩ := Spot.trail_of_tables hpart
    rw [hedit, removals_of_entryTrail, droppedTable?, if_pos hpart]
    cases entry.2.elementChange?.filter Change.deleted <;> rfl
  · have hpart : ¬isTablePart spot.part = true := hspot
    rw [removals_eq_nil hspot, droppedTable?, if_neg hpart]
    rfl

theorem removals_of_deletedType
    (entry : String × Node) :
    removals .type (statementsOf (deletedType entry)) =
      ((entry.2.placement?.filter fun _ => isDeleted entry.2).toList.flatMap fun placement =>
        placement.names.map fun keyspace => .dropType ⟨keyspace, entry.1⟩) := by
  rw [deletedType]
  cases hdeleted : isDeleted entry.2 with
  | false => cases entry.2.placement? <;> rfl
  | true =>
      cases hplacement : entry.2.placement? with
      | none => rfl
      | some placement =>
          have hcolumns :
              removals .type (statementsOf (placement.flatMap (dropTypeColumns entry.1))) = [] := by
            rw [removals, List.filter_eq_nil_iff]
            intro statement hstatement
            obtain ⟨home, -, hcolumn⟩ := List.mem_flatMap.mp (mem_statementsOf_iff.mp hstatement)
            obtain ⟨use, -, heq⟩ := List.mem_map.mp hcolumn
            obtain rfl := Event.statement.inj heq
            simp [removal?]
          have htypes :
              removals .type (statementsOf
                (placement.names.map fun keyspace => .statement (.dropType ⟨keyspace, entry.1⟩))) =
              placement.names.map fun keyspace => .dropType ⟨keyspace, entry.1⟩ := by
            rw [statementsOf_map, removals, List.filter_eq_self, List.forall_mem_map]
            simp [removal?]
          simp only [if_true, Option.filter, Option.toList_some, List.flatMap_cons,
            List.flatMap_nil, List.append_nil]
          rw [statementsOf, List.filterMap_append, removals, List.filter_append]
          exact congrArg₂ (· ++ ·) hcolumns htypes

theorem removals_type
    (scope : Scope)
    (spot : Spot)
    (entry : String × Node) :
    removals .type (spot.trail scope entry).statements =
      (droppedType? spot entry).toList.flatMap fun type =>
        type.placement.names.map fun keyspace => .dropType ⟨keyspace, type.name⟩ := by
  by_cases hspot : RemovedIn spot .type
  · obtain ⟨hpart, hlast⟩ := hspot
    rw [Spot.trail, hpart]
    simp only [hlast]
    show removals .type (statementsOf (deletedType entry)) = _
    rw [removals_of_deletedType, droppedType?]
    cases hdeleted : isDeleted entry.2 <;> cases entry.2.placement? <;>
      simp [hpart, hlast, Option.filter]
  · rw [removals_eq_nil hspot, droppedType?,
      if_neg fun hdropped => hspot ⟨hdropped.1, hdropped.2.1⟩]
    rfl

/-! ## Whole plans -/

/-- Every destructive statement of a plan is justified by the comparison; and the dropped keyspaces,
tables and types are those of which the comparison says so, each once (a type once for each keyspace
in which it is defined), in the order in which their entries have their turn. -/
theorem destructive_statements_are_justified
    (options : Options)
    (names : Listing String)
    (context : Context)
    (document : Node)
    (plan : List Statement)
    (h : (compile options names context document).result = .ok plan) :
    (∀ statement ∈ plan, statement.isDestructive = true → Justified document statement) ∧
    (∃ found, InWalkOrder (DroppedKeyspace document) found ∧
      removals .keyspace plan = found.map fun dropped => .dropKeyspace dropped.2) ∧
    (∃ found, InWalkOrder (DroppedTable document) found ∧
      removals .table plan = found.map fun dropped => .dropTable dropped.2) ∧
    (∃ found, InWalkOrder (DroppedType document) found ∧
      removals .type plan = found.flatMap fun dropped =>
        dropped.2.placement.names.map fun keyspace => .dropType ⟨keyspace, dropped.2.name⟩) := by
  rw [result_compile] at h
  obtain ⟨hfault, rfl⟩ := Trail.result_eq_ok_iff.mp h
  refine ⟨?justified, ?keyspaces, ?tables, ?types⟩
  case justified =>
    intro statement hstatement hdestructive
    obtain ⟨spot, entry, hstands, hsaid⟩ := exists_entry_of_mem_statements hfault hstatement
    exact justified_of_saidAt hstands (saidAt_of_mem hsaid) hdestructive
  case keyspaces =>
    refine ⟨_, picked_inWalkOrder fun _ _ => droppedKeyspace_iff, ?_⟩
    rw [List.map_eq_flatMap]
    exact filter_statements_eq_picked hfault fun _ _ hstands => removals_keyspace hstands _
  case tables =>
    refine ⟨_, picked_inWalkOrder fun _ _ => droppedTable_iff, ?_⟩
    rw [List.map_eq_flatMap]
    exact filter_statements_eq_picked hfault fun spot entry _ => removals_table _ spot entry
  case types =>
    refine ⟨_, picked_inWalkOrder fun _ _ => droppedType_iff, ?_⟩
    exact filter_statements_eq_picked hfault fun spot entry _ => removals_type _ spot entry

/-- A keyspace, a table and a type that are dropped, and a column of an altered table. -/
def removingDocument : Node :=
  let users : Change := { deleted := true, keyspace := some "shop" }
  let orders : Node := { element := some { change := some {} }, properties := some [("note", {})] }
  let address : Change := { deleted := true, placement := some [("shop", [⟨"orders"⟩])] }
  { containers := some { deleted := some (listed "old" { element := some {} }) }
    definitions := some { deleted := some (listed "address" { change := some address }) }
    deleted := some
      { items := some (.one
          { properties := some
              [("users", { element := some { change := some users } }), ("orders", orders)] }) } }

theorem removals_of_document_are_justified :
    let plan : List Statement :=
      [ .dropKeyspace "old", .dropColumn ⟨some "shop", "orders"⟩ "address",
        .dropType ⟨"shop", "address"⟩, .dropTable ⟨some "shop", "users"⟩,
        .dropColumn ⟨none, "orders"⟩ "note" ]
    (compile {} [] {} removingDocument).result = .ok plan ∧
      (∀ statement ∈ plan, Justified removingDocument statement) ∧
      ∃ found, InWalkOrder (DroppedTable removingDocument) found ∧
        found.map Prod.snd = [⟨some "shop", "users"⟩] := by
  intro plan
  have hresult : (compile {} [] {} removingDocument).result = .ok plan := rfl
  obtain ⟨hjustified, -, ⟨found, horder, htables⟩, -⟩ :=
    destructive_statements_are_justified {} [] {} removingDocument plan hresult
  refine ⟨hresult, fun statement hstatement => hjustified statement hstatement ?_, found, horder, ?_⟩
  · have hall : ∀ statement ∈ plan, statement.isDestructive = true := by decide
    exact hall statement hstatement
  · have hdropped : found.map (fun dropped => Statement.dropTable dropped.2) =
        [.dropTable ⟨some "shop", "users"⟩] := htables.symm
    cases found with
    | nil => simp at hdropped
    | cons dropped more => simpa using hdropped

end Plan
end CqlDelta
