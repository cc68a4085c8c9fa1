import CqlDelta.Proofs.Plan.Entries

/-!
# Entries by themselves

The entries of a section of tables, of a part of a section of types, or of the items of keyspaces
are made one after another, each as if it stood there alone (`making_eq_inTurn_alone`). How they are
distributed over the items has no part in it. So a plan is what its entries lead to by themselves,
up to the first that fails, and depends on the comparison only through the entries and their spots
(`entries_do_not_influence_each_other`).
-/

namespace CqlDelta
namespace Plan

open Cql Delta

/-! ## Holders of entries -/

/-- What holds entries among its items: a section of tables, a part of a section of types, or a view
in a section of keyspaces, where the last branch has decided what becomes of them. -/
inductive Holder where
  | tables (edit : ColumnEdit)
  | types (part : Part)
  | keyspaces (fate : Fate)
deriving DecidableEq, Repr

/-- What is done with a type entry in a part of a section of types. -/
def typeVisitIn (scope : Scope) : Part → String × Node → List Event
  | .added => addedType scope
  | .deleted => deletedType
  | .modified => modifiedType scope
  | _ => fun _ => []

/-- Making what the items of a view lead to. -/
def Holder.making (scope : Scope) (holder : Holder) (view : View) : Making (List Statement) :=
  match holder with
  | .tables edit => tableChanges scope edit view
  | .types part => Making.inTurn ((typeEntries (typeVisitIn scope part) view).map Making.perform)
  | .keyspaces fate => return keyspaceItems view fate

/-- Making what an entry leads to if it is the only one. -/
def Holder.alone
    (scope : Scope)
    (holder : Holder)
    (entry : String × Node) :
    Making (List Statement) :=
  holder.making scope (.single (listed entry.1 entry.2))

/-- Elements made one after another: their statements together, or the fault of the first that
fails, and what is at hand then. -/
def oneByOne
    {α : Type}
    (part : α → Making (List Statement)) :
    List α → Desk → Except KeyFault (List Statement) × Desk
  | [], desk => (.ok [], desk)
  | element :: more, desk =>
      match part element desk with
      | (.error fault, left) => (.error fault, left)
      | (.ok statements, left) =>
          match oneByOne part more left with
          | (.error fault, final) => (.error fault, final)
          | (.ok others, final) => (.ok (statements ++ others), final)

/-- Results put together: all statements, or the first fault. -/
def joinResults : List (Except KeyFault (List Statement)) → Except KeyFault (List Statement)
  | [] => .ok []
  | .error fault :: _ => .error fault
  | .ok statements :: more => (joinResults more).map (statements ++ ·)

theorem inTurn_apply
    {α : Type}
    (part : α → Making (List Statement))
    (elements : List α)
    (desk : Desk) :
    Making.inTurn (elements.map part) desk = oneByOne part elements desk := by
  induction elements generalizing desk with
  | nil => rfl
  | cons element more ih =>
      rw [List.map_cons, Making.inTurn, oneByOne, Making.bind_apply]
      rcases part element desk with ⟨fault | statements, left⟩
      · rfl
      · simp only [Making.bind_apply, ih]
        rcases oneByOne part more left with ⟨fault | others, final⟩ <;> rfl

/-! ## One entry after another -/

/-- The trail of an entry. -/
def Holder.trail (scope : Scope) (holder : Holder) (entry : String × Node) : Trail :=
  match holder with
  | .tables edit => entryTrail scope edit entry
  | .types part => .ofEvents (typeVisitIn scope part entry)
  | .keyspaces fate => .ofStatements (keyspaceStatement? fate entry).toList

/-- Making what items lead to replays the trails of their entries. -/
theorem making_eq_replay_entries
    {view items : View}
    (hitems : view.branch? .items = some items)
    (scope : Scope)
    (holder : Holder) :
    holder.making scope view =
      (Trail.concat (items.entries.map (holder.trail scope))).replay := by
  cases holder with
  | tables edit =>
      rw [Holder.making, tableChanges_eq_replay, tableTrail, hitems]
      rfl
  | types part =>
      rw [Holder.making, inTurn_perform, typeEntries, hitems, Trail.ofEvents_flatMap]
      rfl
  | keyspaces fate =>
      rw [Holder.making, ← Trail.replay_ofStatements, keyspaceItems, hitems]
      simp only [List.filterMap_eq_flatMap_toList, Trail.ofStatements_flatMap]
      rfl

/-- An entry by itself replays its trail. -/
theorem alone_eq_replay
    (scope : Scope)
    (holder : Holder)
    (entry : String × Node) :
    holder.alone scope entry = (holder.trail scope entry).replay := by
  have hitems : (View.single (listed entry.1 entry.2)).branch? .items =
      some (.listed (.one { properties := some [entry] })) := rfl
  rw [Holder.alone, making_eq_replay_entries hitems]
  exact congrArg Trail.replay (Trail.append_empty _)

/-- What items lead to is what each of their entries leads to by itself, one after another. -/
theorem making_eq_inTurn_alone
    {view items : View}
    (hitems : view.branch? .items = some items)
    (scope : Scope)
    (holder : Holder) :
    holder.making scope view = Making.inTurn (items.entries.map (holder.alone scope)) := by
  rw [making_eq_replay_entries hitems, Trail.inTurn_eq_replay (alone_eq_replay scope holder)]

theorem result_concat_eq_joinResults
    (trails : List Trail) :
    (Trail.concat trails).result = joinResults (trails.map Trail.result) := by
  induction trails with
  | nil => rfl
  | cons trail more ih =>
      rw [Trail.concat, List.map_cons]
      cases htrail : trail.fault with
      | some fault =>
          have hresult : trail.result = .error fault := by rw [Trail.result, htrail]
          rw [Trail.append_of_fault htrail, hresult, joinResults]
      | none =>
          have hresult : trail.result = .ok trail.statements := by rw [Trail.result, htrail]
          rw [hresult, joinResults, ← ih]
          cases hmore : (Trail.concat more).fault with
          | some fault =>
              have hfault : (trail ++ Trail.concat more).fault = some fault := by
                rw [Trail.append_of_no_fault htrail, hmore]
              rw [Trail.result, Trail.result, hfault, hmore]
              rfl
          | none =>
              have hfault : (trail ++ Trail.concat more).fault = none := by
                rw [Trail.append_of_no_fault htrail, hmore]
              rw [Trail.result, Trail.result, hfault, hmore, Trail.statements_append hfault]
              rfl

/-! ## Whole plans -/

/-- What holds the entry at a spot. Spots at which no entry has its turn count as holding types of
which nothing is said. -/
def Spot.holder (spot : Spot) : Holder :=
  match spot.part with
  | .containers => .keyspaces (fateAfter .altered spot.nested)
  | .definitions =>
      match spot.nested.getLast? with
      | some (.part part) => .types part
      | _ => .types .entities
  | .modified => .tables .replace
  | .deleted => .tables .drop
  | .added => .tables .add
  | .entities => .types .entities

theorem trail_holder
    (scope : Scope)
    (spot : Spot)
    (entry : String × Node) :
    spot.holder.trail scope entry = spot.trail scope entry := by
  obtain ⟨passages, part, nested, index⟩ := spot
  cases part with
  | definitions =>
      simp only [Spot.holder, Spot.trail]
      cases nested.getLast? with
      | none => rfl
      | some branch =>
          cases branch with
          | part part => cases part <;> rfl
          | properties => rfl
          | items => rfl
  | _ => rfl

/-- Entries by themselves, one after another, replay the trails that they leave at their spots. -/
theorem inTurn_alone_eq_replay
    (scope : Scope)
    (entries : List (Spot × (String × Node))) :
    Making.inTurn (entries.map fun standing => standing.1.holder.alone scope standing.2) =
      (Trail.concat (entries.map fun standing => standing.1.trail scope standing.2)).replay := by
  have halone (standing : Spot × (String × Node)) :
      standing.1.holder.alone scope standing.2 =
        (standing.1.trail scope standing.2).replay := by
    rw [alone_eq_replay, trail_holder]
  exact Trail.inTurn_eq_replay halone entries

/-- A plan is what its entries lead to by themselves, one after another. -/
theorem planChanges_eq_inTurn_alone
    (scope : Scope)
    (document : Node) :
    planChanges scope (.single document) =
      Making.inTurn ((entriesOf document).map fun standing =>
        standing.1.holder.alone scope standing.2) := by
  rw [planChanges_eq_replay, trailOf_eq_entries, inTurn_alone_eq_replay]

/-- What is said of spots has one order. -/
theorem InWalkOrder.unique
    {α : Type}
    {Holds : Spot → α → Prop}
    {first second : List (Spot × α)}
    (hfirst : InWalkOrder Holds first)
    (hsecond : InWalkOrder Holds second) :
    first = second := by
  have hnodup {found : List (Spot × α)} (h : InWalkOrder Holds found) : found.Nodup :=
    h.sorted.imp fun {standing other} hplace (heq : standing = other) => by
      subst heq
      exact List.lt_irrefl _ hplace
  have hperm : first.Perm second :=
    (List.perm_ext_iff_of_nodup (hnodup hfirst) (hnodup hsecond)).mpr fun standing =>
      (hfirst.complete standing.1 standing.2).trans (hsecond.complete standing.1 standing.2).symm
  refine hperm.eq_of_pairwise ?_ hfirst.sorted hsecond.sorted
  exact fun standing other _ _ hlt hgt => absurd hgt (List.lt_asymm hlt)

/-- The items of a section of tables, of a part of a section of types or of keyspaces lead to what
their entries lead to one by one, each as if it were the only one, whatever is at hand: all
statements together, or the fault of the first entry that fails. Items with the same entries in the
same order lead to the same, however the entries are distributed over nodes. A whole plan is made of
its entries in the same way, and two comparisons in which the same entries stand at the same spots
have the same outcome. -/
theorem entries_do_not_influence_each_other :
    (∀ (scope : Scope) (holder : Holder) (view items : View) (desk : Desk),
      view.branch? .items = some items →
        holder.making scope view desk = oneByOne (holder.alone scope) items.entries desk ∧
        (holder.making scope view desk).1 =
          joinResults (items.entries.map fun entry => (holder.alone scope entry desk).1)) ∧
    (∀ (scope : Scope) (holder : Holder) (view items other others : View),
      view.branch? .items = some items → other.branch? .items = some others →
        items.entries = others.entries →
          holder.making scope view = holder.making scope other) ∧
    (∀ (options : Options) (names : Listing String) (context : Context) (document : Node),
      let scope := scopeIn options names context
      let outcome := compile options names context document
      ∃ entries, InWalkOrder (StandsAt document) entries ∧
        ∃ left,
          oneByOne (fun standing => standing.1.holder.alone scope standing.2) entries
            ⟨context, legacyNotes scope context⟩ = (outcome.result, left) ∧
          outcome.context = left.context) ∧
    (∀ (options : Options) (names : Listing String) (context : Context) (document other : Node),
      (∀ spot entry, StandsAt document spot entry ↔ StandsAt other spot entry) →
        compile options names context document = compile options names context other) := by
  refine ⟨?items, ?distribution, ?plan, ?comparisons⟩
  case items =>
    intro scope holder view items desk hitems
    refine ⟨?_, ?_⟩
    · rw [making_eq_inTurn_alone hitems, inTurn_apply]
    · simp only [making_eq_replay_entries hitems, alone_eq_replay, Trail.replay,
        result_concat_eq_joinResults, List.map_map]
      rfl
  case distribution =>
    intro scope holder view items other others hitems hothers hsame
    rw [making_eq_replay_entries hitems, making_eq_replay_entries hothers, hsame]
  case plan =>
    intro options names context document scope outcome
    refine ⟨entriesOf document, entriesOf_inWalkOrder document, _, ?_, rfl⟩
    rw [← inTurn_apply, ← planChanges_eq_inTurn_alone]
    rfl
  case comparisons =>
    intro options names context document other hsame
    have hentries : entriesOf document = entriesOf other :=
      (entriesOf_inWalkOrder document).unique
        ⟨fun spot entry => mem_entriesOf_iff.trans (hsame spot entry).symm, entriesOf_sorted other⟩
    rw [compile_eq, compile_eq]
    simp only [trailOf_eq_entries, hentries]

/-- A table that is created, one whose key has no identifier, and one that is dropped. -/
def halfFaultyTables : List (String × Node) :=
  [ ("users",
      { element := some { change := some { created := true } }
        properties := some [("name", { declaration := { physical := some "text" } })] }),
    ("orders",
      { element := some { change := some { created := true } }
        properties := some [("id", { declaration := { inPartitionKey := true } })] }),
    ("carts", { element := some { change := some { deleted := true } } }) ]

theorem tables_of_three_nodes_fail_like_those_of_one :
    let scope : Scope := ⟨{}, [], false⟩
    let holder : Holder := .tables .add
    let together : View := .single { items := some (.one { properties := some halfFaultyTables }) }
    let apart : View := .single { items := some (.many
      [ { properties := some (halfFaultyTables.take 1) }, {},
        { properties := some (halfFaultyTables.drop 1) } ]) }
    let created := "CREATE TABLE IF NOT EXISTS \"users\" (\n\t\"name\" text\n);"
    let alone := halfFaultyTables.map fun entry => (holder.alone scope entry ⟨{}, []⟩).1
    holder.making scope together = holder.making scope apart ∧
      alone =
        [ .ok [.createTable ⟨none, "users"⟩ created],
          .error ⟨"orders", "id"⟩, .ok [.dropTable ⟨none, "carts"⟩] ] ∧
      (holder.making scope apart ⟨{}, []⟩).1 = joinResults alone ∧
      (holder.making scope apart ⟨{}, []⟩).1 = .error ⟨"orders", "id"⟩ ∧
      (holder.making scope apart ⟨{}, []⟩).2.context.draft.tables.map TableDraft.name =
        ["users"] := by
  intro scope holder together apart created alone
  obtain ⟨hitems, hdistribution, -, -⟩ := entries_do_not_influence_each_other
  refine ⟨?same, ?alone, ?joined, ?fails, ?left⟩
  case same => exact hdistribution scope holder together _ apart _ rfl rfl rfl
  case alone => decide +kernel
  case joined => exact (hitems scope holder apart _ ⟨{}, []⟩ rfl).2
  case fails => decide +kernel
  case left => decide +kernel

end Plan
end CqlDelta
