import CqlDelta.Proofs.Delta.EnlistedNodes
import CqlDelta.Proofs.Plan.OneByOne

/-!
# Entries that are alike

Entries that differ by no more than an enlisted item lead to the same, whatever holds them, but for
the node that a draft keeps (`trail_alike`). For everything else members count as they stand, without
what lies below them (`congr_of_bare`).
-/

namespace CqlDelta
namespace Plan

open Cql Delta

/-! ## What is asked of a member -/

/-- A member without what lies below it. -/
def bare (member : String × Node) : String × Node :=
  (member.1,
    { element := member.2.element
      change := member.2.change
      declaration := member.2.declaration })

theorem map_bare_eq
    {members members' : Members}
    (h : List.Forall₂ MemberAlike members members') :
    members.map bare = members'.map bare := by
  induction h with
  | nil => rfl
  | @cons first second _ _ hmember _ ih =>
      have hbare : bare first = bare second := by
        have hfields := hmember.2.fields
        rw [bare, bare, hmember.1, hfields.element, hfields.change, hfields.declaration]
      rw [List.map_cons, List.map_cons, hbare, ih]

/-- What only asks for bare members is the same for members that are alike. -/
theorem congr_of_bare
    {β : Type}
    {ask : Members → β}
    (hbare : ∀ members, ask (members.map bare) = ask members)
    {members members' : Members}
    (h : List.Forall₂ MemberAlike members members') :
    ask members = ask members' := by
  rw [← hbare members, map_bare_eq h, hbare]

theorem unidentified?_bare (columns : Members) :
    unidentified? (columns.map bare) = unidentified? columns := by
  rw [unidentified?, unidentified?, List.find?_map, Option.map_map]
  rfl

theorem markedGuids_bare
    (mark : Declaration → Bool)
    (columns : Members) :
    markedGuids mark (columns.map bare) = markedGuids mark columns := by
  rw [markedGuids, markedGuids, List.filter_map, List.filterMap_map]
  rfl

theorem columnByGuid?_bare
    (guid : String)
    (columns : Members) :
    columnByGuid? guid (columns.map bare) = columnByGuid? guid columns := by
  rw [columnByGuid?, columnByGuid?, List.find?_map, Option.map_map]
  rfl

theorem primaryKeyLine?_bare
    (table : TableDraft)
    (columns : Members) :
    primaryKeyLine? table (columns.map bare) = primaryKeyLine? table columns := by
  simp only [primaryKeyLine?, keyColumns, columnByGuid?_bare]

theorem columnLines_bare
    (names : Listing String)
    (columns : Members) :
    (columns.map bare).map (columnLine names) = columns.map (columnLine names) := by
  rw [List.map_map]
  rfl

theorem alterTable_bare
    (scope : Scope)
    (edit : ColumnEdit)
    (table : TableName)
    (change : Change)
    (columns : Members) :
    alterTable scope edit table change (columns.map bare) =
      alterTable scope edit table change columns := by
  rw [alterTable, alterTable, List.flatMap_map]
  rfl

theorem createdFields_bare
    (scope : Scope)
    (fields : Members) :
    ((fields.map bare).filter fun field => field.2.declaration.reference.isNone).map
        (typeField scope) =
      (fields.filter fun field => field.2.declaration.reference.isNone).map (typeField scope) := by
  rw [List.filter_map, List.map_map]
  rfl

/-! ## Trails of entries -/

/-- Drafts whose columns are alike, and that are the same otherwise. -/
structure DraftAlike (before after : Draft) : Prop where
  columns : Option.Rel Node.Alike before.columns after.columns
  keyspaces : before.keyspaces = after.keyspaces
  tables : before.tables = after.tables

/-- The same event, or drafts that are alike. -/
inductive EventAlike : Event → Event → Prop
  | same (event : Event) : EventAlike event event
  | handOver {draft draft' : Draft} (h : DraftAlike draft draft') :
      EventAlike (.handOver draft) (.handOver draft')

/-- Trails that tell the same up to drafts that are alike. -/
structure TrailAlike (before after : Trail) : Prop where
  events : List.Forall₂ EventAlike before.events after.events
  fault : before.fault = after.fault

theorem TrailAlike.refl (trail : Trail) : TrailAlike trail trail :=
  ⟨List.forall₂_same.mpr fun event _ => .same event, rfl⟩

theorem TrailAlike.append
    {first first' second second' : Trail}
    (hfirst : TrailAlike first first')
    (hsecond : TrailAlike second second') :
    TrailAlike (first ++ second) (first' ++ second') := by
  cases hfault : first.fault with
  | some fault =>
      rw [Trail.append_of_fault hfault, Trail.append_of_fault (hfirst.fault.symm.trans hfault)]
      exact hfirst
  | none =>
      rw [Trail.append_of_no_fault hfault,
        Trail.append_of_no_fault (hfirst.fault.symm.trans hfault)]
      exact ⟨List.rel_append hfirst.events hsecond.events, hsecond.fault⟩

theorem TrailAlike.concat
    {trails trails' : List Trail}
    (h : List.Forall₂ TrailAlike trails trails') :
    TrailAlike (.concat trails) (.concat trails') := by
  induction h with
  | nil => exact .refl {}
  | cons hhead _ ih => exact hhead.append ih

theorem TrailAlike.statements
    {before after : Trail}
    (h : TrailAlike before after) :
    before.statements = after.statements := by
  have hrel : List.Forall₂ Eq before.statements after.statements := by
    refine List.rel_filterMap (fun event event' hevent => ?_) h.events
    cases hevent with
    | same event => exact rel_refl (fun _ => rfl) _
    | handOver h => exact .none
  rwa [List.forall₂_eq_eq_eq] at hrel

theorem TrailAlike.result
    {before after : Trail}
    (h : TrailAlike before after) :
    before.result = after.result := by
  rw [Trail.result, Trail.result, h.fault, h.statements]

theorem composeTable_alike
    (names : Listing String)
    {before after : Draft}
    (h : DraftAlike before after) :
    composeTable names before = composeTable names after := by
  have hcolumns : List.Forall₂ MemberAlike before.columnList after.columnList := by
    rw [Draft.columnList, Draft.columnList]
    rcases rel_cases h.columns with ⟨hbefore, hafter⟩ | ⟨node, node', hbefore, hafter, hnode⟩
    · rw [hbefore, hafter]
      exact .nil
    · rw [hbefore, hafter, Option.bind_some, Option.bind_some]
      exact getD_alike hnode.fields.properties
  have hlines := congr_of_bare (columnLines_bare names) hcolumns
  have hkey (table : TableDraft) := congr_of_bare (primaryKeyLine?_bare table) hcolumns
  rw [composeTable, composeTable, h.tables, h.keyspaces]
  simp only [hlines, hkey]

/-- Nodes that are alike lead to the same draft, but for the node itself. -/
theorem draftOf_alike
    {node node' : Node}
    (hnode : node.Alike node')
    {columns columns' : Members}
    (hcolumns : List.Forall₂ MemberAlike columns columns')
    {table : TableName} :
    draftOf table node' columns' = { draftOf table node columns with columns := some node' } := by
  have hkey (mark : Declaration → Bool) := congr_of_bare (markedGuids_bare mark) hcolumns
  simp only [draftOf, hkey, hnode.fields.element]

section Entries

variable {entry entry' : String × Node}

theorem elementChange?_alike (h : MemberAlike entry entry') :
    entry.2.elementChange? = entry'.2.elementChange? := by
  rw [Node.elementChange?, Node.elementChange?, h.2.fields.element]

theorem changes_alike (h : MemberAlike entry entry') :
    entry.2.changes = entry'.2.changes := by
  rw [Node.changes, Node.changes, elementChange?_alike h, h.2.fields.change]

theorem placement?_alike (h : MemberAlike entry entry') :
    entry.2.placement? = entry'.2.placement? := by
  rw [Node.placement?, Node.placement?, elementChange?_alike h, h.2.fields.change]

theorem fieldsOf_alike (h : MemberAlike entry entry') :
    List.Forall₂ MemberAlike (fieldsOf entry.2) (fieldsOf entry'.2) :=
  getD_alike h.2.fields.properties

theorem createTrail_alike
    (h : MemberAlike entry entry')
    (scope : Scope)
    (table : TableName)
    {columns columns' : Members}
    (hcolumns : List.Forall₂ MemberAlike columns columns') :
    TrailAlike (createTrail scope table entry.2 columns)
      (createTrail scope table entry'.2 columns') := by
  have hdraft : DraftAlike (draftOf table entry.2 columns) (draftOf table entry'.2 columns') := by
    rw [draftOf_alike h.2 hcolumns]
    exact ⟨.some h.2, rfl, rfl⟩
  rw [createTrail, createTrail, congr_of_bare unidentified?_bare hcolumns]
  cases unidentified? columns' with
  | some column => exact .refl _
  | none =>
      refine ⟨.cons (.handOver hdraft) (.cons (.same _) (.cons ?_ .nil)), rfl⟩
      rw [composeTable_alike scope.names hdraft]
      exact .same _

theorem entryTrail_alike
    (h : MemberAlike entry entry')
    (scope : Scope)
    (edit : ColumnEdit) :
    TrailAlike (entryTrail scope edit entry) (entryTrail scope edit entry') := by
  rw [entryTrail, entryTrail, elementChange?_alike h, h.1]
  cases entry'.2.elementChange? with
  | none => exact .refl _
  | some change =>
      simp only []
      split
      · exact .refl _
      · rcases rel_cases h.2.fields.properties with
          ⟨hbefore, hafter⟩ | ⟨columns, columns', hbefore, hafter, hcolumns⟩
        · rw [hbefore, hafter]
          exact .refl _
        · rw [hbefore, hafter]
          simp only []
          split
          · exact createTrail_alike h scope _ hcolumns
          · rw [congr_of_bare (alterTable_bare scope edit _ change) hcolumns]
            exact .refl _

theorem addedType_alike (h : MemberAlike entry entry') (scope : Scope) :
    addedType scope entry = addedType scope entry' := by
  have hfields := fieldsOf_alike h
  have hinitial : initialFields scope entry.2 = initialFields scope entry'.2 := by
    rw [initialFields, initialFields, ← createdFields_bare scope (fieldsOf entry.2),
      map_bare_eq hfields, createdFields_bare]
  have hadded (placement : Placement) :
      ((fieldsOf entry.2).flatMap fun field => placement.names.map fun keyspace =>
          Event.statement (.addTypeField ⟨keyspace, entry'.1⟩ (typeField scope field))) =
        (fieldsOf entry'.2).flatMap fun field => placement.names.map fun keyspace =>
          Event.statement (.addTypeField ⟨keyspace, entry'.1⟩ (typeField scope field)) :=
    congr_of_bare (fun fields => List.flatMap_map ..) hfields
  rw [addedType, addedType, isCreated, isCreated, changes_alike h, createType, createType,
    hinitial, addTypeFields, addTypeFields, placement?_alike h, h.1]
  simp only [hadded]

theorem deletedType_alike (h : MemberAlike entry entry') :
    deletedType entry = deletedType entry' := by
  rw [deletedType, deletedType, isDeleted, isDeleted, changes_alike h, placement?_alike h, h.1]

theorem modifiedType_alike (h : MemberAlike entry entry') (scope : Scope) :
    modifiedType scope entry = modifiedType scope entry' := by
  have hfields (placement : Placement) :
      (fieldsOf entry.2).flatMap (modifiedField scope entry'.1 placement) =
        (fieldsOf entry'.2).flatMap (modifiedField scope entry'.1 placement) :=
    congr_of_bare (fun fields => List.flatMap_map ..) (fieldsOf_alike h)
  rw [modifiedType, modifiedType, placement?_alike h, h.1]
  simp only [hfields]

theorem keyspaceStatement?_alike (h : MemberAlike entry entry') (fate : Fate) :
    keyspaceStatement? fate entry = keyspaceStatement? fate entry' := by
  rw [keyspaceStatement?, keyspaceStatement?, h.2.fields.element, h.1]

/-- Entries that are alike lead to the same, whatever holds them, up to the columns of a draft. -/
theorem trail_alike
    (h : MemberAlike entry entry')
    (scope : Scope)
    (holder : Holder) :
    TrailAlike (holder.trail scope entry) (holder.trail scope entry') := by
  cases holder with
  | tables edit => exact entryTrail_alike h scope edit
  | types part =>
      have hvisit : typeVisitIn scope part entry = typeVisitIn scope part entry' := by
        cases part with
        | added => exact addedType_alike h scope
        | deleted => exact deletedType_alike h
        | modified => exact modifiedType_alike h scope
        | _ => rfl
      rw [Holder.trail, Holder.trail, hvisit]
      exact .refl _
  | keyspaces fate =>
      rw [Holder.trail, Holder.trail, keyspaceStatement?_alike h fate]
      exact .refl _

end Entries

end Plan
end CqlDelta
