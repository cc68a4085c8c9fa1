import CqlDelta.Plan.Compile
import CqlDelta.Proofs.Plan.Trail

/-!
# The trail of a plan

What a comparison leads to is a trail that nothing at hand has a part in: although a created table
is composed from the draft in the context, that draft has just been handed over. Making the plan
replays the trail (`planChanges_eq_replay`), and `compile_eq` says what follows for the outcome.
-/

namespace CqlDelta
namespace Plan

open Cql Delta

/-! ## Events -/

theorem perform_eq_replay (event : Event) :
    Making.perform event = (Trail.ofEvents [event]).replay := by
  funext desk
  cases event with
  | statement statement =>
      have hreplay := congrFun (Trail.replay_ofStatements [statement]) desk
      exact hreplay.symm
  | handOver draft =>
      have hnotes : desk.notes ++ [] = desk.notes := List.append_nil _
      show _ = (_, Desk.mk _ (desk.notes ++ []))
      rw [hnotes]
      rfl
  | note fact => rfl

/-- Events that are performed in turn leave the trail that they are. -/
theorem inTurn_perform (events : List Event) :
    Making.inTurn (events.map Making.perform) = (Trail.ofEvents events).replay := by
  rw [Trail.inTurn_eq_replay perform_eq_replay, ← Trail.ofEvents_flatMap, List.flatMap_singleton']

/-! ## Tables -/

/-- The trail of creating a table. -/
def createTrail (scope : Scope) (table : TableName) (node : Node) (columns : Members) : Trail :=
  match unidentified? columns with
  | some column => .stop ⟨table.table, column⟩
  | none =>
      let draft := draftOf table node columns
      .ofEvents
        [ .handOver draft,
          .note (.creatingTable table.table),
          .statement (.createTable table (composeTable scope.names draft)) ]

/-- The trail of a table entry. -/
def entryTrail (scope : Scope) (edit : ColumnEdit) (entry : String × Node) : Trail :=
  match entry.2.elementChange? with
  | none => {}
  | some change =>
      let table : TableName := ⟨change.keyspace, entry.1⟩
      if change.deleted then
        .ofStatements [.dropTable table]
      else
        match entry.2.properties with
        | none => {}
        | some columns =>
            if change.created then createTrail scope table entry.2 columns
            else .ofStatements (alterTable scope edit table change columns)

/-- The trail of a table section. -/
def tableTrail (scope : Scope) (edit : ColumnEdit) (view : View) : Trail :=
  match view.branch? .items with
  | none => {}
  | some items => .concat (items.entries.map (entryTrail scope edit))

/-- A created table is composed from the draft that was just handed over, whatever was there. -/
theorem createTable_eq_replay
    (scope : Scope)
    (table : TableName)
    (node : Node)
    (columns : Members) :
    createTable scope table node columns = (createTrail scope table node columns).replay := by
  rw [createTable, createTrail]
  cases unidentified? columns with
  | some column => exact (Trail.replay_stop _).symm
  | none => rfl

theorem tableEntry_eq_replay
    (scope : Scope)
    (edit : ColumnEdit)
    (entry : String × Node) :
    tableEntry scope edit entry = (entryTrail scope edit entry).replay := by
  rw [tableEntry, entryTrail]
  cases entry.2.elementChange? with
  | none => exact Trail.replay_empty.symm
  | some change =>
      simp only []
      split
      · exact (Trail.replay_ofStatements _).symm
      · cases entry.2.properties with
        | none => exact Trail.replay_empty.symm
        | some columns =>
            simp only []
            split
            · exact createTable_eq_replay scope _ entry.2 columns
            · exact (Trail.replay_ofStatements _).symm

theorem tableChanges_eq_replay
    (scope : Scope)
    (edit : ColumnEdit)
    (view : View) :
    tableChanges scope edit view = (tableTrail scope edit view).replay := by
  rw [tableChanges, tableTrail]
  cases view.branch? .items with
  | none => exact Trail.replay_empty.symm
  | some items =>
      exact Trail.inTurn_eq_replay (tableEntry_eq_replay scope edit) items.entries

/-! ## Whole plans -/

/-- The trail of a branch. -/
def branchTrail
    (scope : Scope)
    (view : View)
    (along : Branch → Option Trail)
    (branch : Branch) :
    Trail :=
  let inside (changes : View → Trail) : Trail :=
    match view.branch? branch with
    | none => {}
    | some inner => changes inner
  match branch with
  | .properties | .items | .part .entities => (along branch).getD {}
  | .part .containers => inside fun inner => .ofStatements (keyspaceChanges inner .altered)
  | .part .definitions => inside fun inner => .ofEvents (typeChanges scope inner)
  | .part .modified => inside (tableTrail scope .replace)
  | .part .deleted => inside (tableTrail scope .drop)
  | .part .added => inside (tableTrail scope .add)

/-- The trail of a view out of the trails along its branches. -/
def visitTrail (scope : Scope) (view : View) (along : Branch → Option Trail) : Trail :=
  .concat (Branch.all.map (branchTrail scope view along))

/-- The trail of a comparison. -/
def trailOf (scope : Scope) (view : View) : Trail :=
  View.walk (visitTrail scope) view

theorem sectionChanges_eq_replay
    {scope : Scope}
    {view : View}
    {along : Branch → Option (Making (List Statement))}
    {trails : Branch → Option Trail}
    (h : ∀ branch, along branch = (trails branch).map Trail.replay)
    (branch : Branch) :
    sectionChanges scope view along branch = (branchTrail scope view trails branch).replay := by
  have hinside (changes : View → Making (List Statement)) (trail : View → Trail)
      (hchanges : ∀ inner, changes inner = (trail inner).replay) :
      (match view.branch? branch with
        | none => pure []
        | some inner => changes inner) =
      (match view.branch? branch with
        | none => {}
        | some inner => trail inner : Trail).replay := by
    cases view.branch? branch with
    | none => exact Trail.replay_empty.symm
    | some inner => exact hchanges inner
  have halong : (along branch).getD (pure []) = ((trails branch).getD {}).replay := by
    rw [h branch]
    cases trails branch with
    | none => exact Trail.replay_empty.symm
    | some trail => rfl
  match branch with
  | .properties | .items | .part .entities => exact halong
  | .part .containers => exact hinside _ _ fun inner => (Trail.replay_ofStatements _).symm
  | .part .definitions => exact hinside _ _ fun inner => inTurn_perform _
  | .part .modified => exact hinside _ _ (tableChanges_eq_replay scope .replace)
  | .part .deleted => exact hinside _ _ (tableChanges_eq_replay scope .drop)
  | .part .added => exact hinside _ _ (tableChanges_eq_replay scope .add)

/-- Making the plan of a view replays its trail, whatever is at hand. -/
theorem planChanges_eq_replay
    (scope : Scope)
    (view : View) :
    planChanges scope view = (trailOf scope view).replay := by
  induction view using View.branch_induction with
  | step view ih =>
      have halong (branch : Branch) :
          (view.branch? branch).map (planChanges scope) =
            ((view.branch? branch).map (trailOf scope)).map Trail.replay := by
        cases hinner : view.branch? branch with
        | none => rfl
        | some inner => exact congrArg some (ih branch inner hinner)
      rw [planChanges, trailOf, View.walk_eq, View.walk_eq]
      exact Trail.inTurn_eq_replay (sectionChanges_eq_replay halong) Branch.all

/-- What making a plan gives, out of the trail of its comparison. -/
theorem compile_eq
    (options : Options)
    (names : Listing String)
    (context : Context)
    (document : Node) :
    compile options names context document =
      let scope := scopeIn options names context
      let trail := trailOf scope (.single document)
      { result := trail.result
        context := { context with draft := trail.lastDraft?.getD context.draft }
        notes := legacyNotes scope context ++ trail.notes ++ finalNotes trail.result } := by
  rw [compile, planChanges_eq_replay]
  rfl

theorem result_compile
    (options : Options)
    (names : Listing String)
    (context : Context)
    (document : Node) :
    (compile options names context document).result =
      (trailOf (scopeIn options names context) (.single document)).result := by
  rw [compile_eq]

end Plan
end CqlDelta
