import CqlDelta.Proofs.Plan.Sections
import Mathlib.Data.List.Basic

/-!
# The blocks of a plan

The statements of a plan come in blocks, one for every entry of a section. Sections of keyspaces and
of types are toured for their entries, each in an order of its own; a section of tables has them in
its items. The place of a block is the path that leads to its section and the position of its entry
there. Blocks come in the order of their places (`planBlocks_sorted`).
-/

namespace CqlDelta
namespace Plan

open Cql Delta

/-! ## Items -/

/-- An entry of a view's items and its position among them. -/
structure Item where
  index : Nat
  entry : String × Node

/-- The entries of a view's items. -/
def itemsOf (view : View) : List Item :=
  match view.branch? .items with
  | none => []
  | some items => items.entries.zipIdx.map fun entry => ⟨entry.2, entry.1⟩

theorem map_entry_itemsOf (view : View) :
    (itemsOf view).map Item.entry =
      match view.branch? .items with
      | none => []
      | some items => items.entries := by
  rw [itemsOf]
  cases view.branch? .items with
  | none => rfl
  | some items =>
      rw [List.map_map]
      exact List.zipIdx_map_fst 0 items.entries

theorem flatMap_itemsOf
    {α : Type}
    (visit : String × Node → List α)
    (view : View) :
    ((itemsOf view).flatMap fun item => visit item.entry) =
      match view.branch? .items with
      | none => []
      | some items => items.entries.flatMap visit := by
  rw [← List.flatMap_map Item.entry visit, map_entry_itemsOf]
  cases view.branch? .items <;> rfl

theorem mem_itemsOf_iff
    {view : View}
    {item : Item} :
    item ∈ itemsOf view ↔
      ∃ items, view.branch? .items = some items ∧ items.entries[item.index]? = some item.entry := by
  rw [itemsOf]
  cases view.branch? .items with
  | none => simp
  | some items =>
      simp only [List.mem_map, Option.some.injEq, exists_eq_left']
      constructor
      · rintro ⟨entry, hentry, rfl⟩
        exact List.mem_zipIdx_iff_getElem?.mp hentry
      · intro hentry
        exact ⟨(item.entry, item.index), List.mem_zipIdx_iff_getElem?.mpr hentry, rfl⟩

theorem itemsOf_sorted (view : View) :
    (itemsOf view).Pairwise fun first second => first.index < second.index := by
  rw [itemsOf]
  split
  · exact .nil
  · rename_i items _
    rw [List.pairwise_map, ← List.pairwise_map (f := Prod.snd), List.zipIdx_map_snd]
    exact List.pairwise_lt_range'

/-- A node whose items are one entry. -/
def listed (name : String) (entry : Node) : Node :=
  { items := some (.one { properties := some [(name, entry)] }) }

/-! ## Sections of keyspaces -/

/-- Whether a branch leads on to further keyspaces. -/
def isKeyspacePassage : Branch → Bool
  | .items => false
  | _ => true

/-- The keyspaces along a branch. -/
def keyspacesAlong (view : View) : Branch → List Item
  | .items => itemsOf view
  | _ => []

/-- The tour for the entries of a section of keyspaces. -/
def keyspaceTour : Itinerary Item where
  order := keyspaceBranches.map Prod.fst ++ [.items]
  passes := isKeyspacePassage
  stops := keyspacesAlong
  sorted := by decide

/-- What becomes of the keyspaces along a branch. -/
def fateAlong : Branch → Fate
  | .part .deleted => .dropped
  | .part .added => .created
  | _ => .altered

/-- What becomes of the keyspaces at the end of a path: the last branch before the items decides. -/
def fateAfter (fate : Fate) : List Branch → Fate
  | [] => fate
  | .items :: _ => fate
  | branch :: more => fateAfter (fateAlong branch) more

theorem keyspaceVisit_eq
    (view : View)
    (along : Branch → Option (Fate → List Statement))
    (fate : Fate) :
    keyspaceVisit view along fate =
      (keyspaceBranches.flatMap fun branch => ((along branch.1).map (· branch.2)).getD [])
        ++ keyspaceItems view fate := by
  rw [keyspaceVisit]
  congr 2
  funext branch
  cases along branch.1 <;> rfl

/-- A section of keyspaces is made of its entries, in the order of the tour. -/
theorem keyspaceChanges_eq_flatMap
    (view : View)
    (fate : Fate) :
    keyspaceChanges view fate =
      (keyspaceTour.tour view).flatMap fun stop =>
        (keyspaceStatement? (fateAfter fate stop.1) stop.2.entry).toList := by
  induction view using View.branch_induction generalizing fate with
  | step view ih =>
      have hpassage {branch : Branch} (hpass : isKeyspacePassage branch = true) :
          (((view.branch? branch).map keyspaceChanges).map (· (fateAlong branch))).getD [] =
          (keyspaceTour.along view (fun branch => (view.branch? branch).map keyspaceTour.tour)
            branch).flatMap fun stop =>
              (keyspaceStatement? (fateAfter fate stop.1) stop.2.entry).toList := by
        have hfate (path : List Branch) :
            fateAfter fate (branch :: path) = fateAfter (fateAlong branch) path := by
          cases branch with
          | items => simp [isKeyspacePassage] at hpass
          | properties => rfl
          | part part => rfl
        rw [Itinerary.along_of_passes hpass, List.flatMap_map]
        simp only [hfate]
        cases hinner : view.branch? branch with
        | none => rfl
        | some inner => exact ih branch inner hinner (fateAlong branch)
      have hitems :
          keyspaceItems view fate =
            (keyspaceTour.along view (fun branch => (view.branch? branch).map keyspaceTour.tour)
              .items).flatMap fun stop =>
                (keyspaceStatement? (fateAfter fate stop.1) stop.2.entry).toList := by
        rw [Itinerary.along_of_stops rfl, List.flatMap_map]
        show _ = (itemsOf view).flatMap fun item => (keyspaceStatement? fate item.entry).toList
        rw [flatMap_itemsOf fun entry => (keyspaceStatement? fate entry).toList, keyspaceItems]
        cases view.branch? .items with
        | none => rfl
        | some items => exact List.filterMap_eq_flatMap_toList _ _
      rw [keyspaceChanges, View.walk_eq, keyspaceVisit_eq, hitems, Itinerary.tour_eq,
        List.flatMap_assoc]
      show _ = (keyspaceBranches.map Prod.fst ++ [Branch.items]).flatMap _
      rw [List.flatMap_append, List.flatMap_singleton, List.flatMap_map]
      refine congrArg (· ++ _) (congrArg List.flatten (List.map_congr_left ?_))
      simp only [keyspaceBranches, List.forall_mem_cons]
      exact ⟨hpassage rfl, hpassage rfl, hpassage rfl, hpassage rfl, by simp⟩

/-- A keyspace is found among the items behind branches that lead on. -/
theorem mem_keyspaceTour_iff
    {view : View}
    {path : List Branch}
    {item : Item} :
    (path, item) ∈ keyspaceTour.tour view ↔
      ∃ nested, path = nested ++ [.items] ∧
        (∀ branch ∈ nested, branch ∈ keyspaceBranches.map Prod.fst) ∧
        ∃ items, view.follow? path = some items ∧
          items.entries[item.index]? = some item.entry := by
  have hpasses (branch : Branch) :
      branch ∈ keyspaceTour.order ∧ keyspaceTour.passes branch = true ↔
        branch ∈ keyspaceBranches.map Prod.fst := by
    cases branch <;> simp [keyspaceTour, keyspaceBranches, isKeyspacePassage]
  rw [Itinerary.mem_tour_iff]
  constructor
  · rintro ⟨front, last, place, rfl, hfront, -, -, hfollow, hstop⟩
    cases last with
    | properties => simp [keyspaceTour, keyspacesAlong] at hstop
    | part part => simp [keyspaceTour, keyspacesAlong] at hstop
    | items =>
        obtain ⟨items, hitems, hentry⟩ := mem_itemsOf_iff.mp hstop
        refine ⟨front, rfl, fun branch hbranch => (hpasses branch).mp (hfront branch hbranch), ?_⟩
        exact ⟨items, by simp [View.follow?_append, View.follow?, hfollow, hitems], hentry⟩
  · rintro ⟨nested, rfl, hnested, items, hfollow, hentry⟩
    rw [View.follow?_append, Option.bind_eq_some_iff] at hfollow
    obtain ⟨place, hplace, hfollow⟩ := hfollow
    have hitems : place.branch? .items = some items := by simpa [View.follow?] using hfollow
    refine ⟨nested, .items, place, rfl, ?_, by decide, rfl, hplace, ?_⟩
    · exact fun branch hbranch => (hpasses branch).mpr (hnested branch hbranch)
    · exact mem_itemsOf_iff.mpr ⟨items, hitems, hentry⟩

/-- The entries of a section of keyspaces come in the order of their paths and positions. -/
theorem keyspaceTour_sorted
    (view : View) :
    (keyspaceTour.tour view).Pairwise fun first second =>
      Earlier (keyspaceTour.ranks first.1 ++ [first.2.index])
        (keyspaceTour.ranks second.1 ++ [second.2.index]) := by
  refine keyspaceTour.tour_sorted_by_marks (fun item => [item.index]) (fun view branch => ?_) view
  simp only [keyspaceTour]
  cases branch with
  | items => exact (itemsOf_sorted view).imp fun h => .here h [] []
  | properties => exact .nil
  | part part => exact .nil

/-- The entries of a section of keyspaces, each with the branches that lead to its items. -/
def keyspaceEntries (view : View) : List (List Branch × Item) :=
  (keyspaceTour.tour view).map fun stop => (stop.1.dropLast, stop.2)

/-- The entries of a section of keyspaces are those of all items behind branches that lead on. -/
theorem mem_keyspaceEntries_iff
    {view : View}
    {nested : List Branch}
    {item : Item} :
    (nested, item) ∈ keyspaceEntries view ↔
      (∀ branch ∈ nested, branch ∈ keyspaceBranches.map Prod.fst) ∧
        ∃ items, view.follow? (nested ++ [.items]) = some items ∧
          items.entries[item.index]? = some item.entry := by
  rw [keyspaceEntries, List.mem_map]
  constructor
  · rintro ⟨⟨path, item⟩, hstop, heq⟩
    obtain ⟨rfl, rfl⟩ := Prod.mk.inj heq
    obtain ⟨nested, rfl, hthrough, hfound⟩ := mem_keyspaceTour_iff.mp hstop
    rw [List.dropLast_concat]
    exact ⟨hthrough, hfound⟩
  · rintro ⟨hthrough, hfound⟩
    refine ⟨(nested ++ [.items], item), ?_, by rw [List.dropLast_concat]⟩
    exact mem_keyspaceTour_iff.mpr ⟨nested, rfl, hthrough, hfound⟩

/-- The entries of a section of keyspaces come in the order of their branches and positions. -/
theorem keyspaceEntries_sorted (view : View) :
    (keyspaceEntries view).Pairwise fun first second =>
      Earlier (keyspaceTour.ranks (first.1 ++ [.items]) ++ [first.2.index])
        (keyspaceTour.ranks (second.1 ++ [.items]) ++ [second.2.index]) := by
  rw [keyspaceEntries, List.pairwise_map]
  refine (keyspaceTour_sorted view).imp_of_mem fun {first second} hfirst hsecond h => ?_
  obtain ⟨nested, hnested, -⟩ := mem_keyspaceTour_iff.mp hfirst
  obtain ⟨nested', hnested', -⟩ := mem_keyspaceTour_iff.mp hsecond
  rw [hnested, hnested'] at h ⊢
  rwa [List.dropLast_concat, List.dropLast_concat]

/-! ## Sections of types -/

/-- An entry of a section of types, and the part where it stands. -/
structure TypeEntry extends Item where
  part : Part

/-- The entries along a branch of a section of types. -/
def typesAlong (view : View) : Branch → List TypeEntry
  | .part part =>
      match view.branch? (.part part) with
      | none => []
      | some inner => (itemsOf inner).map fun item => { item with part := part }
  | _ => []

/-- Whether a branch leads on to further types. -/
def isTypePassage : Branch → Bool
  | .properties | .items => true
  | .part _ => false

/-- The tour for the entries of a section of types. -/
def typeTour : Itinerary TypeEntry where
  order := typeBranches
  passes := isTypePassage
  stops := typesAlong
  sorted := by decide

/-- What an entry of a section of types leads to. -/
def TypeEntry.events (scope : Scope) (stop : TypeEntry) : List Event :=
  match stop.part with
  | .added => addedType scope stop.entry
  | .deleted => deletedType stop.entry
  | .modified => modifiedType scope stop.entry
  | _ => []

theorem flatMap_typesAlong
    {scope : Scope}
    {part : Part}
    {visit : String × Node → List Event}
    (h : ∀ item : Item, TypeEntry.events scope { item with part := part } = visit item.entry)
    (view : View) :
    (match view.branch? (.part part) with
      | none => []
      | some inner => typeEntries visit inner) =
      (typesAlong view (.part part)).flatMap fun stop => stop.events scope := by
  rw [typesAlong]
  cases view.branch? (.part part) with
  | none => rfl
  | some inner =>
      simp only [List.flatMap_map, h]
      exact (flatMap_itemsOf visit inner).symm

/-- A section of types is made of its entries, in the order of the tour. -/
theorem typeChanges_eq_flatMap
    (scope : Scope)
    (view : View) :
    typeChanges scope view = (typeTour.tour view).flatMap fun stop => stop.2.events scope := by
  induction view using View.branch_induction with
  | step view ih =>
      rw [typeChanges, View.walk_eq, typeVisit, Itinerary.tour_eq, List.flatMap_assoc]
      refine congrArg List.flatten (List.map_congr_left fun branch hbranch => ?_)
      have hpassage (branch : Branch) :
          ((view.branch? branch).map (typeChanges scope)).getD [] =
            (((view.branch? branch).map typeTour.tour).getD []).flatMap
              fun stop => stop.2.events scope := by
        cases hinner : view.branch? branch with
        | none => rfl
        | some inner => exact ih branch inner hinner
      match branch with
      | .properties | .items =>
          rw [Itinerary.along_of_passes rfl, List.flatMap_map]
          exact hpassage _
      | .part .added | .part .deleted | .part .modified =>
          rw [Itinerary.along_of_stops rfl, List.flatMap_map]
          exact flatMap_typesAlong (fun _ => rfl) view
      | .part .containers | .part .entities | .part .definitions =>
          simp [typeBranches] at hbranch

/-- A type is found among the items of an added, deleted or modified part behind branches that lead
on. -/
theorem mem_typeTour_iff
    {view : View}
    {path : List Branch}
    {stop : TypeEntry} :
    (path, stop) ∈ typeTour.tour view ↔
      ∃ front, path = front ++ [.part stop.part] ∧
        (∀ branch ∈ front, isTypePassage branch = true) ∧ .part stop.part ∈ typeBranches ∧
        ∃ items, view.follow? (path ++ [.items]) = some items ∧
          items.entries[stop.index]? = some stop.entry := by
  have horder (branch : Branch) (h : isTypePassage branch = true) : branch ∈ typeBranches := by
    cases branch <;> simp [isTypePassage, typeBranches] at h ⊢
  rw [Itinerary.mem_tour_iff]
  constructor
  · rintro ⟨front, last, place, rfl, hfront, hlast, -, hfollow, hstop⟩
    cases last with
    | properties => simp [typeTour, typesAlong] at hstop
    | items => simp [typeTour, typesAlong] at hstop
    | part part =>
        simp only [typeTour, typesAlong] at hstop
        split at hstop
        · simp at hstop
        · rename_i inner hinner
          obtain ⟨item, hitem, rfl⟩ := List.mem_map.mp hstop
          obtain ⟨items, hitems, hentry⟩ := mem_itemsOf_iff.mp hitem
          refine ⟨front, rfl, fun branch hbranch => (hfront branch hbranch).2, hlast, items, ?_,
            hentry⟩
          simp [View.follow?_append, View.follow?, hfollow, hinner, hitems]
  · rintro ⟨front, rfl, hfront, hlast, items, hfollow, hentry⟩
    simp only [List.append_assoc, View.follow?_append, Option.bind_eq_some_iff] at hfollow
    obtain ⟨place, hplace, inner, hinner, hfollow⟩ := hfollow
    have hpart : place.branch? (.part stop.part) = some inner := by
      simpa [View.follow?] using hinner
    have hitems : inner.branch? .items = some items := by simpa [View.follow?] using hfollow
    refine ⟨front, .part stop.part, place, rfl, fun branch hbranch => ?_, hlast, rfl, hplace, ?_⟩
    · exact ⟨horder branch (hfront branch hbranch), hfront branch hbranch⟩
    · simp only [typeTour, typesAlong, hpart]
      exact List.mem_map.mpr ⟨stop.toItem, mem_itemsOf_iff.mpr ⟨items, hitems, hentry⟩, rfl⟩

theorem typesAlong_sorted
    (view : View)
    (branch : Branch) :
    (typesAlong view branch).Pairwise fun first second => first.index < second.index := by
  cases branch with
  | properties => exact .nil
  | items => exact .nil
  | part part =>
      rw [typesAlong]
      split
      · exact .nil
      · rw [List.pairwise_map]
        exact itemsOf_sorted _

/-- The entries of a section of types come in the order of their paths and positions. -/
theorem typeTour_sorted
    (view : View) :
    (typeTour.tour view).Pairwise fun first second =>
      Earlier (typeTour.ranks first.1 ++ [first.2.index])
        (typeTour.ranks second.1 ++ [second.2.index]) :=
  typeTour.tour_sorted_by_marks (fun stop => [stop.index])
    (fun view branch => (typesAlong_sorted view branch).imp fun h => .here h [] []) view

/-! ## Sections of tables -/

/-- A section of tables is made of its items. -/
theorem tableTrail_eq_concat
    (scope : Scope)
    (edit : ColumnEdit)
    (view : View) :
    tableTrail scope edit view =
      .concat ((itemsOf view).map fun item => entryTrail scope edit item.entry) := by
  rw [tableTrail, ← Function.comp_def (entryTrail scope edit) Item.entry, ← List.map_map,
    map_entry_itemsOf]
  cases view.branch? .items <;> rfl

/-! ## Blocks -/

/-- The statements of one entry: the path of its section, and its position there. -/
structure Block where
  path : List Branch
  position : List Nat
  statements : List Statement

/-- The place of a block in a plan. -/
def Block.place (block : Block) : List Nat :=
  sectionTour.ranks block.path ++ block.position

/-- The statements of events. -/
def statementsOf (events : List Event) : List Statement :=
  events.filterMap Trail.statementOf?

/-- The block of a keyspace. -/
def keyspaceBlock (path : List Branch) (stop : List Branch × Item) : Block where
  path := path
  position := keyspaceTour.ranks stop.1 ++ [stop.2.index]
  statements := (keyspaceStatement? (fateAfter .altered stop.1) stop.2.entry).toList

/-- The block of a type. -/
def typeBlock (scope : Scope) (path : List Branch) (stop : List Branch × TypeEntry) : Block where
  path := path
  position := typeTour.ranks stop.1 ++ [stop.2.index]
  statements := statementsOf (stop.2.events scope)

/-- The block of a table. -/
def tableBlock (scope : Scope) (edit : ColumnEdit) (path : List Branch) (item : Item) : Block where
  path := path
  position := [item.index]
  statements := (entryTrail scope edit item.entry).statements

/-- The blocks of a section that is found along a path. -/
def Section.blocks (scope : Scope) (path : List Branch) (changes : Section) : List Block :=
  match changes.part with
  | .entities => []
  | .containers => (keyspaceTour.tour changes.view).map (keyspaceBlock path)
  | .definitions => (typeTour.tour changes.view).map (typeBlock scope path)
  | .modified => (itemsOf changes.view).map (tableBlock scope .replace path)
  | .deleted => (itemsOf changes.view).map (tableBlock scope .drop path)
  | .added => (itemsOf changes.view).map (tableBlock scope .add path)

/-- The blocks of a comparison's plan. -/
def planBlocks (scope : Scope) (document : Node) : List Block :=
  (sectionTour.tour (.single document)).flatMap fun stop => stop.2.blocks scope stop.1

theorem statements_tableTrail
    {scope : Scope}
    {edit : ColumnEdit}
    {view : View}
    (h : (tableTrail scope edit view).fault = none)
    (path : List Branch) :
    (tableTrail scope edit view).statements =
      ((itemsOf view).map (tableBlock scope edit path)).flatMap Block.statements := by
  rw [tableTrail_eq_concat] at h ⊢
  rw [Trail.statements_concat h, List.flatMap_map, List.flatMap_map]
  rfl

theorem statements_blocks
    {scope : Scope}
    {changes : Section}
    (h : (changes.trail scope).fault = none)
    (path : List Branch) :
    (changes.trail scope).statements = (changes.blocks scope path).flatMap Block.statements := by
  obtain ⟨part, view⟩ := changes
  cases part with
  | containers =>
      simp only [Section.trail, Section.blocks, Trail.statements_ofStatements,
        keyspaceChanges_eq_flatMap, List.flatMap_map]
      rfl
  | definitions =>
      simp only [Section.trail, Section.blocks, Trail.statements, Trail.ofEvents,
        typeChanges_eq_flatMap, List.filterMap_flatMap, List.flatMap_map]
      rfl
  | entities => rfl
  | modified => exact statements_tableTrail h path
  | deleted => exact statements_tableTrail h path
  | added => exact statements_tableTrail h path

/-- A plan that succeeds has the statements of its blocks, in their order. -/
theorem statements_planBlocks
    {scope : Scope}
    {document : Node}
    (h : (trailOf scope (.single document)).fault = none) :
    (trailOf scope (.single document)).statements =
      (planBlocks scope document).flatMap Block.statements := by
  rw [trailOf_eq_concat] at h ⊢
  rw [Trail.statements_concat h, planBlocks, List.flatMap_assoc, List.flatMap_map]
  rw [Trail.fault_concat, List.findSome?_map, List.findSome?_eq_none_iff] at h
  exact congrArg List.flatten
    (List.map_congr_left fun stop hstop => statements_blocks (h stop hstop) stop.1)

theorem path_of_mem_blocks
    {scope : Scope}
    {path : List Branch}
    {changes : Section}
    {block : Block}
    (h : block ∈ changes.blocks scope path) :
    block.path = path := by
  rw [Section.blocks] at h
  split at h
  · simp at h
  all_goals
    obtain ⟨stop, -, rfl⟩ := List.mem_map.mp h
    rfl

theorem blocks_sorted
    (scope : Scope)
    (path : List Branch)
    (changes : Section) :
    (changes.blocks scope path).Pairwise fun first second => first.place < second.place := by
  have htables (edit : ColumnEdit) :
      ((itemsOf changes.view).map (tableBlock scope edit path)).Pairwise
        fun first second => first.place < second.place := by
    rw [List.pairwise_map]
    exact (itemsOf_sorted changes.view).imp fun h => ((Earlier.here h [] []).prepend _).lt
  rw [Section.blocks]
  split
  · exact .nil
  · rw [List.pairwise_map]
    exact (keyspaceTour_sorted changes.view).imp fun h => (h.prepend _).lt
  · rw [List.pairwise_map]
    exact (typeTour_sorted changes.view).imp fun h => (h.prepend _).lt
  · exact htables .replace
  · exact htables .drop
  · exact htables .add

/-- Blocks come in the order of their places. -/
theorem planBlocks_sorted
    (scope : Scope)
    (document : Node) :
    (planBlocks scope document).Pairwise fun first second => first.place < second.place := by
  rw [planBlocks, List.pairwise_flatMap]
  constructor
  · exact fun stop _ => blocks_sorted scope stop.1 stop.2
  · refine (sectionTour_sorted (.single document)).imp fun h first hfirst second hsecond => ?_
    rw [Block.place, Block.place, path_of_mem_blocks hfirst, path_of_mem_blocks hsecond]
    exact (h.append _ _).lt

end Plan
end CqlDelta
