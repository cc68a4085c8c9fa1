import CqlDelta.Proofs.Plan.AlikeEntries
import CqlDelta.Proofs.Plan.LastCreated

/-!
# Plans with an enlisted item

If a single node among the items, anywhere in a comparison, is made the list of this node, then the
entries among these items stay, and so do all others, except those whose path goes on through the
branches of that node. The plan is made of the entries that are left, and the context keeps the node
of the same table as before, as it stands now (`plan_loses_only_what_lies_behind_enlisted_items`).
-/

namespace CqlDelta
namespace Plan

open Cql Delta

variable {document other : Node}

/-! ## Entries that are left -/

/-- Every entry of the second comparison stood at the same spot of the first. -/
theorem exists_before_of_standsAt
    (h : document.Alike other)
    {spot : Spot}
    {entry' : String × Node}
    (hstands : StandsAt other spot entry') :
    ∃ entry, StandsAt document spot entry ∧ MemberAlike entry entry' := by
  obtain ⟨hthrough, hsearched, items', hfollow', hentry'⟩ := hstands
  rcases (ViewAlike.single h).follow? spot.path with hrel | hpasses
  · rcases rel_cases hrel with ⟨-, hnone⟩ | ⟨items, _, hfollow, hfollow'', hitems⟩
    · simp [hnone] at hfollow'
    · obtain rfl := Option.some.inj (hfollow''.symm.trans hfollow')
      rcases rel_cases (getElem?_alike hitems.entries spot.index) with
        ⟨-, hnone⟩ | ⟨entry, _, hentry, hentry'', halike⟩
      · simp [hnone] at hentry'
      · obtain rfl := Option.some.inj (hentry''.symm.trans hentry')
        exact ⟨entry, ⟨hthrough, hsearched, items, hfollow, hentry⟩, halike⟩
  · simp [hpasses.follow?] at hfollow'

/-- Every entry of the first comparison stands at the same spot of the second, unless its path goes
on behind an enlisted item. -/
theorem exists_after_of_standsAt
    (h : document.Alike other)
    {spot : Spot}
    {entry : String × Node}
    (hstands : StandsAt document spot entry)
    (hkept : ¬ PassesEnlisted (.single document) (.single other) spot.path) :
    ∃ entry', StandsAt other spot entry' ∧ MemberAlike entry entry' := by
  obtain ⟨hthrough, hsearched, items, hfollow, hentry⟩ := hstands
  have hrel := ((ViewAlike.single h).follow? spot.path).resolve_right hkept
  rcases rel_cases hrel with ⟨hnone, -⟩ | ⟨_, items', hfollow', hfollow'', hitems⟩
  · simp [hnone] at hfollow
  · obtain rfl := Option.some.inj (hfollow'.symm.trans hfollow)
    rcases rel_cases (getElem?_alike hitems.entries spot.index) with
      ⟨hnone, -⟩ | ⟨_, entry', hentry', hentry'', halike⟩
    · simp [hnone] at hentry
    · obtain rfl := Option.some.inj (hentry'.symm.trans hentry)
      exact ⟨entry', ⟨hthrough, hsearched, items', hfollow'', hentry''⟩, halike⟩

/-- Lists in the order of their keys are related element by element if each element of one is
related to an element of the other with the same key. -/
theorem forall₂_of_sorted
    {α β : Type}
    {R : α → β → Prop}
    {key : α → List Nat}
    {key' : β → List Nat}
    (hkey : ∀ element element', R element element' → key element = key' element')
    {elements : List α}
    {elements' : List β}
    (hsorted : elements.Pairwise fun first second => key first < key second)
    (hsorted' : elements'.Pairwise fun first second => key' first < key' second)
    (hforth : ∀ element ∈ elements, ∃ element' ∈ elements', R element element')
    (hback : ∀ element' ∈ elements', ∃ element ∈ elements, R element element') :
    List.Forall₂ R elements elements' := by
  induction elements generalizing elements' with
  | nil =>
      cases elements' with
      | nil => exact .nil
      | cons head' more' =>
          obtain ⟨element, helement, -⟩ := hback head' List.mem_cons_self
          simp at helement
  | cons head more ih =>
      cases elements' with
      | nil =>
          obtain ⟨element', helement', -⟩ := hforth head List.mem_cons_self
          simp at helement'
      | cons head' more' =>
          obtain ⟨hfirst, hmore⟩ := List.pairwise_cons.mp hsorted
          obtain ⟨hfirst', hmore'⟩ := List.pairwise_cons.mp hsorted'
          -- the heads have the least keys, so nothing but the other head has the same key
          have hheads : R head head' := by
            obtain ⟨element', helement', hrel⟩ := hforth head List.mem_cons_self
            obtain ⟨element, helement, hrel'⟩ := hback head' List.mem_cons_self
            rcases List.mem_cons.mp helement' with rfl | helement'
            · exact hrel
            · rcases List.mem_cons.mp helement with rfl | helement
              · exact hrel'
              · have hlt := hfirst element helement
                have hlt' := hfirst' element' helement'
                rw [hkey _ _ hrel, hkey _ _ hrel'] at hlt
                exact absurd hlt' (List.lt_asymm hlt)
          refine .cons hheads (ih hmore hmore' ?_ ?_)
          · intro element helement
            obtain ⟨element', helement', hrel⟩ := hforth element (List.mem_cons_of_mem _ helement)
            rcases List.mem_cons.mp helement' with rfl | helement'
            · have hlt := hfirst element helement
              rw [hkey _ _ hheads, hkey _ _ hrel] at hlt
              exact absurd hlt (List.lt_irrefl _)
            · exact ⟨element', helement', hrel⟩
          · intro element' helement'
            obtain ⟨element, helement, hrel⟩ := hback element' (List.mem_cons_of_mem _ helement')
            rcases List.mem_cons.mp helement with rfl | helement
            · have hlt := hfirst' element' helement'
              rw [← hkey _ _ hheads, ← hkey _ _ hrel] at hlt
              exact absurd hlt (List.lt_irrefl _)
            · exact ⟨element, helement, hrel⟩

/-- Entries of one spot that are alike. -/
def StandingAlike (first second : Spot × (String × Node)) : Prop :=
  first.1 = second.1 ∧ MemberAlike first.2 second.2

/-- The entries that are left are those of the second comparison, one for one. -/
theorem kept_alike_entriesOf
    (h : document.Alike other)
    {kept : List (Spot × (String × Node))}
    (hkept : InWalkOrder (fun spot entry =>
      StandsAt document spot entry ∧
        ¬ PassesEnlisted (.single document) (.single other) spot.path) kept) :
    List.Forall₂ StandingAlike kept (entriesOf other) := by
  refine forall₂_of_sorted (fun _ _ hrel => congrArg Spot.place hrel.1) hkept.sorted
    (entriesOf_sorted other) ?_ ?_
  · rintro ⟨spot, entry⟩ hmem
    obtain ⟨hstands, hpasses⟩ := (hkept.complete spot entry).mp hmem
    obtain ⟨entry', hstands', halike⟩ := exists_after_of_standsAt h hstands hpasses
    exact ⟨(spot, entry'), mem_entriesOf_iff.mpr hstands', rfl, halike⟩
  · rintro ⟨spot, entry'⟩ hmem
    have hstands' := mem_entriesOf_iff.mp hmem
    obtain ⟨entry, hstands, halike⟩ := exists_before_of_standsAt h hstands'
    have hpasses : ¬ PassesEnlisted (.single document) (.single other) spot.path := by
      intro hpasses
      obtain ⟨items, hfollow, -⟩ := hstands'.found
      simp [hpasses.follow?] at hfollow
    exact ⟨(spot, entry), (hkept.complete spot entry).mpr ⟨hstands, hpasses⟩, rfl, halike⟩

/-- The trail of the second comparison is that of the entries that are left. -/
theorem kept_trailAlike
    (h : document.Alike other)
    {kept : List (Spot × (String × Node))}
    (hkept : InWalkOrder (fun spot entry =>
      StandsAt document spot entry ∧
        ¬ PassesEnlisted (.single document) (.single other) spot.path) kept)
    (scope : Scope) :
    TrailAlike (.concat (kept.map fun standing => standing.1.trail scope standing.2))
      (trailOf scope (.single other)) := by
  rw [trailOf_eq_entries]
  refine .concat ?_
  rw [List.forall₂_map_left_iff, List.forall₂_map_right_iff]
  refine (kept_alike_entriesOf h hkept).imp ?_
  rintro ⟨spot, entry⟩ ⟨_, entry'⟩ ⟨rfl, halike⟩
  rw [← trail_holder, ← trail_holder]
  exact trail_alike halike scope spot.holder

/-! ## What stays in the context -/

/-- Created tables of one name whose nodes and columns are alike. -/
structure CreationAlike (before after : Creation) : Prop where
  table : before.table = after.table
  node : before.node.Alike after.node
  columns : List.Forall₂ MemberAlike before.columns after.columns

/-- Created tables at one spot that are alike. -/
def CreatedAlike (first second : Spot × Creation) : Prop :=
  first.1 = second.1 ∧ CreationAlike first.2 second.2

/-- Entries that are alike create tables that are alike. -/
theorem creation?_alike
    {entry entry' : String × Node}
    (h : MemberAlike entry entry')
    (spot : Spot) :
    Option.Rel CreationAlike (creation? spot entry) (creation? spot entry') := by
  rw [creation?, creation?]
  split
  · rw [entryCreation?, entryCreation?, elementChange?_alike h, h.1]
    cases entry'.2.elementChange? with
    | none => exact .none
    | some change =>
        rcases rel_cases h.2.fields.properties with
          ⟨hbefore, hafter⟩ | ⟨columns, columns', hbefore, hafter, hcolumns⟩
        · rw [hbefore, hafter]
          exact .none
        · rw [hbefore, hafter]
          simp only [Option.bind_eq_bind, Option.bind_some]
          split
          · exact .some ⟨rfl, h.2, hcolumns⟩
          · exact .none
  · exact .none

theorem picked_alike
    {entries entries' : List (Spot × (String × Node))}
    (h : List.Forall₂ StandingAlike entries entries') :
    List.Forall₂ CreatedAlike (picked creation? entries) (picked creation? entries') := by
  refine List.rel_filterMap ?_ h
  rintro ⟨spot, entry⟩ ⟨_, entry'⟩ ⟨rfl, halike⟩
  exact rel_map (fun _ _ hcreation => ⟨rfl, hcreation⟩) (creation?_alike halike spot)

/-- Of tables that are alike the same ones are reached. -/
theorem reachedOf_alike
    {created created' : List (Spot × Creation)}
    (h : List.Forall₂ CreatedAlike created created') :
    List.Forall₂ CreatedAlike (reachedOf created) (reachedOf created') := by
  induction h with
  | nil => exact .nil
  | @cons found found' _ _ hfound _ ih =>
      have hsame : unidentified? found.2.columns = unidentified? found'.2.columns :=
        congr_of_bare unidentified?_bare hfound.2.columns
      rw [reachedOf, reachedOf, List.takeWhile_cons, List.takeWhile_cons, hsame]
      split
      · exact .cons hfound ih
      · exact .nil

/-- The contexts that two comparisons leave of one context. If no table is created, both leave it as
it is. Otherwise each keeps the node of the table that is created last, as it stands at one spot of
either comparison: the same node, or the node with an item enlisted. In all else the contexts are
the same. -/
inductive KeptAlike (document other : Node) (start : Context) : Context → Context → Prop
  | nothing
      (none : ∀ spot creation, ¬ LastCreated other spot creation) :
      KeptAlike document other start start start
  | created {spot : Spot} {creation creation' : Creation} {before after : Context}
      (stood : CreatedTable document spot creation)
      (stands : LastCreated other spot creation')
      (table : creation.table = creation'.table)
      (node : creation.node = creation'.node ∨ creation.node.Enlisted creation'.node)
      (kept : before.draft.columns = some creation.node)
      (same : after =
        { before with draft := { before.draft with columns := some creation'.node } }) :
      KeptAlike document other start before after

/-- What the entries that are left and the second comparison leave of a context. -/
theorem kept_keptAlike
    (h : document.Alike other)
    {kept : List (Spot × (String × Node))}
    (hkept : InWalkOrder (fun spot entry =>
      StandsAt document spot entry ∧
        ¬ PassesEnlisted (.single document) (.single other) spot.path) kept)
    (scope : Scope)
    (desk : Desk) :
    KeptAlike document other desk.context
      ((Trail.concat (kept.map fun standing =>
        standing.1.trail scope standing.2)).leave desk).context
      ((trailOf scope (.single other)).leave desk).context := by
  have hother : InWalkOrder (CreatedTable other) (picked creation? (entriesOf other)) :=
    picked_inWalkOrder fun _ _ => createdTable_iff
  have hreached := reachedOf_alike (picked_alike (kept_alike_entriesOf h hkept))
  have hlast := getElem?_alike hreached ((reachedOf (picked creation? kept)).length - 1)
  rw [← List.getLast?_eq_getElem?, hreached.length_eq, ← List.getLast?_eq_getElem?] at hlast
  rw [trailOf_eq_entries]
  simp only [Trail.leave, Trail.lastDraft?_eq_getLast?, drafts_of_entries, List.getLast?_map]
  rcases rel_cases hlast with ⟨hbefore, hafter⟩ | ⟨found, found', hbefore, hafter, halike⟩
  · rw [hbefore, hafter]
    exact .nothing (not_lastCreated_of_nil hother (List.getLast?_eq_none_iff.mp hafter))
  · rw [hbefore, hafter]
    obtain ⟨spot, creation⟩ := found
    obtain ⟨_, creation'⟩ := found'
    obtain ⟨rfl, htable, hnode, hcolumns⟩ := halike
    have hstood : CreatedTable document spot creation := by
      have hpicked := List.takeWhile_subset _ (List.mem_of_getLast? hbefore)
      obtain ⟨⟨spot', entry⟩, hentry, hpick⟩ := List.mem_filterMap.mp hpicked
      obtain ⟨creation, hcreation, heq⟩ := Option.map_eq_some_iff.mp hpick
      obtain ⟨rfl, rfl⟩ := Prod.mk.inj heq
      exact createdTable_iff.mpr ⟨entry, ((hkept.complete _ _).mp hentry).1, hcreation⟩
    refine .created hstood (lastCreated_of_getLast? hother hafter) htable ?node rfl ?same
    case node =>
      exact ((Relation.reflGen_iff _ _ _).mp hnode).imp_left Eq.symm
    case same =>
      have hdraft : creation'.draft = { creation.draft with columns := some creation'.node } := by
        rw [Creation.draft, ← htable, draftOf_alike hnode hcolumns, Creation.draft]
      simp only [Option.map_some, Option.getD_some, hdraft]

/-! ## Whole plans -/

/-- If items that are a single node are made the list of this node, anywhere in a comparison, then
the entries whose path goes on behind these items are lost, and no others: the plan is made of the
entries that are left, one after another. Of the context only the node that it keeps may differ:
instead of the node of the table that is created last it is the node that stands there now. If no
entry lies behind the items, the plan succeeds or fails as before, with the same statements or the
same fault. -/
theorem plan_loses_only_what_lies_behind_enlisted_items
    (options : Options)
    (names : Listing String)
    (context : Context)
    (document other : Node)
    (h : document.Enlisted other) :
    let scope := scopeIn options names context
    let before := compile options names context document
    let after := compile options names context other
    (∃ kept left,
      InWalkOrder (fun spot entry =>
        StandsAt document spot entry ∧
          ¬ PassesEnlisted (.single document) (.single other) spot.path) kept ∧
        oneByOne (fun standing => standing.1.holder.alone scope standing.2) kept
          ⟨context, legacyNotes scope context⟩ = (after.result, left) ∧
        KeptAlike document other context left.context after.context) ∧
    ((∀ spot entry, StandsAt document spot entry →
        ¬ PassesEnlisted (.single document) (.single other) spot.path) →
      before.result = after.result ∧
        KeptAlike document other context before.context after.context) := by
  intro scope before after
  have hafter : after = compile options names context other := rfl
  rw [compile_eq] at hafter
  refine ⟨?kept, ?unchanged⟩
  case kept =>
    classical
    let kept := (entriesOf document).filter fun standing =>
      ¬ PassesEnlisted (.single document) (.single other) standing.1.path
    have hkept : InWalkOrder (fun spot entry =>
        StandsAt document spot entry ∧
          ¬ PassesEnlisted (.single document) (.single other) spot.path) kept :=
      { complete := fun spot entry => by simp [kept, mem_entriesOf_iff]
        sorted := (entriesOf_sorted document).filter _ }
    have htrail := kept_trailAlike (.single h) hkept scope
    let desk : Desk := ⟨context, legacyNotes scope context⟩
    let trail := Trail.concat (kept.map fun standing => standing.1.trail scope standing.2)
    refine ⟨kept, trail.leave desk, hkept, ?_, ?_⟩
    · rw [← inTurn_apply, inTurn_alone_eq_replay, hafter]
      exact Prod.ext htrail.result rfl
    · rw [hafter]
      exact kept_keptAlike (.single h) hkept scope desk
  case unchanged =>
    intro hnone
    have hkept : InWalkOrder (fun spot entry =>
        StandsAt document spot entry ∧
          ¬ PassesEnlisted (.single document) (.single other) spot.path) (entriesOf document) :=
      { complete := fun spot entry =>
          mem_entriesOf_iff.trans ⟨fun hstands => ⟨hstands, hnone _ _ hstands⟩, And.left⟩
        sorted := entriesOf_sorted document }
    have htrail := kept_trailAlike (.single h) hkept scope
    have hcontext := kept_keptAlike (.single h) hkept scope ⟨context, []⟩
    rw [← trailOf_eq_entries] at htrail hcontext
    have hbefore : before = compile options names context document := rfl
    rw [compile_eq] at hbefore
    rw [hbefore, hafter]
    exact ⟨htrail.result, hcontext⟩

/-- A table that is dropped. -/
def droppedTable : Node :=
  { element := some { change := some { deleted := true, keyspace := some "shop" } } }

/-- A table that is dropped in a section behind an item, and another one beside the item. -/
def droppingDocument (item : Node → Items Node) : Node :=
  { items := some (item { deleted := some (listed "users" droppedTable) })
    deleted := some (listed "carts" droppedTable) }

/-- A table that is created and has an item below it. -/
def creatingTable (item : Node → Items Node) : Node :=
  { element := some { change := some { created := true } }
    properties := some []
    items := some (item {}) }

/-- A comparison whose only entry is a created table with an item below it. -/
def creatingDocument (item : Node → Items Node) : Node :=
  { added := some (listed "users" (creatingTable item)) }

theorem droppingDocument_enlisted :
    (droppingDocument .one).Enlisted (droppingDocument fun inner => .many [inner]) :=
  .here (droppingDocument .one) _

theorem creatingDocument_enlisted :
    (creatingDocument .one).Enlisted (creatingDocument fun inner => .many [inner]) := by
  let table : Node :=
    { element := some { change := some { created := true } }
      properties := some [] }
  exact .part {} .added (.one {} (.member {} [] [] "users" (.here table {})))

/-- Enlisting an item can lose statements, and it can be seen in the context. -/
theorem enlisted_item_loses_dropped_table_or_shows_in_draft :
    let list (inner : Node) : Items Node := .many [inner]
    let plan (document : Node) := (compile {} [] {} document).result
    let draft (document : Node) := (compile {} [] {} document).context.draft
    (droppingDocument .one).Enlisted (droppingDocument list) ∧
      plan (droppingDocument .one) =
        .ok [.dropTable ⟨some "shop", "users"⟩, .dropTable ⟨some "shop", "carts"⟩] ∧
      plan (droppingDocument list) = .ok [.dropTable ⟨some "shop", "carts"⟩] ∧
    (creatingDocument .one).Enlisted (creatingDocument list) ∧
      (draft (creatingDocument .one)).columns.bind Node.items = some (.one {}) ∧
      (draft (creatingDocument list)).columns.bind Node.items = some (.many [{}]) := by
  intro list plan draft
  refine ⟨droppingDocument_enlisted, ?before, ?after, creatingDocument_enlisted, rfl, rfl⟩
  case before => decide +kernel
  case after => decide +kernel

/-- No entry stands behind an item below a table. -/
theorem creatingDocument_not_passes
    {spot : Spot}
    {entry : String × Node}
    (h : StandsAt (creatingDocument .one) spot entry)
    (other : Node) :
    ¬ PassesEnlisted (.single (creatingDocument .one)) (.single other) spot.path := by
  have hentries : entriesOf (creatingDocument .one) =
      [(⟨[], .added, [], 0⟩, ("users", creatingTable .one))] := rfl
  rw [← mem_entriesOf_iff, hentries, List.mem_singleton] at h
  obtain ⟨rfl, -⟩ := Prod.mk.inj h
  rintro ⟨front, branch, back, inner, hpath, hitem, -⟩
  -- the path ends at the items, and nothing in front of them leads to an item
  match front with
  | [] => simp [View.follow?] at hitem
  | [first] =>
      obtain ⟨rfl, -⟩ := List.cons_eq_cons.mp hpath
      cases hitem
  | first :: second :: more =>
      have hlength := congrArg List.length hpath
      simp [Spot.path] at hlength

theorem table_beside_enlisted_item_is_still_dropped :
    let list (inner : Node) : Items Node := .many [inner]
    let outcome (document : Node) := compile {} [] {} document
    (droppingDocument .one).Enlisted (droppingDocument list) ∧
      (∃ kept left,
        InWalkOrder (fun spot entry =>
          StandsAt (droppingDocument .one) spot entry ∧
            ¬ PassesEnlisted (.single (droppingDocument .one)) (.single (droppingDocument list))
              spot.path) kept ∧
          oneByOne (fun standing => standing.1.holder.alone {} standing.2) kept ⟨{}, []⟩ =
            (.ok [.dropTable ⟨some "shop", "carts"⟩], left) ∧
          KeptAlike (droppingDocument .one) (droppingDocument list) {} left.context {}) ∧
    (creatingDocument .one).Enlisted (creatingDocument list) ∧
      (∀ spot entry, StandsAt (creatingDocument .one) spot entry →
        ¬ PassesEnlisted (.single (creatingDocument .one)) (.single (creatingDocument list))
          spot.path) ∧
      (outcome (creatingDocument .one)).result = (outcome (creatingDocument list)).result ∧
      (outcome (creatingDocument .one)).context.draft.columns = some (creatingTable .one) ∧
      (outcome (creatingDocument list)).context =
        { draft :=
            { (outcome (creatingDocument .one)).context.draft with
              columns := some (creatingTable list) } } ∧
      KeptAlike (creatingDocument .one) (creatingDocument list) {}
        (outcome (creatingDocument .one)).context (outcome (creatingDocument list)).context := by
  intro list outcome
  have hresult : (outcome (droppingDocument list)).result =
      .ok [.dropTable ⟨some "shop", "carts"⟩] := by decide +kernel
  obtain ⟨⟨kept, left, horder, hrun, hkept⟩, -⟩ :=
    plan_loses_only_what_lies_behind_enlisted_items {} [] {} _ _ droppingDocument_enlisted
  have hnone : ∀ spot entry, StandsAt (creatingDocument .one) spot entry →
      ¬ PassesEnlisted (.single (creatingDocument .one)) (.single (creatingDocument list))
        spot.path := fun _ _ hstands => creatingDocument_not_passes hstands _
  obtain ⟨-, hunchanged⟩ :=
    plan_loses_only_what_lies_behind_enlisted_items {} [] {} _ _ creatingDocument_enlisted
  obtain ⟨hsame, halike⟩ := hunchanged hnone
  exact ⟨droppingDocument_enlisted, ⟨kept, left, horder, hresult ▸ hrun, hkept⟩,
    creatingDocument_enlisted, hnone, hsame, rfl, rfl, halike⟩

end Plan
end CqlDelta
