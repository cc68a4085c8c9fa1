import CqlDelta.Proofs.Plan.Blocks
import CqlDelta.Proofs.Plan.Faults

/-!
# Entries and their spots

Every statement of a plan stems from an entry: a named node among the items of a section. A spot
says where an entry stands, and the place of a spot says when it has its turn. `entriesOf` lists all
entries of a comparison (`mem_entriesOf_iff`) in the order of their places (`entriesOf_sorted`), and
a plan is made of what they lead to one after another (`trailOf_eq_entries`).
-/

namespace CqlDelta
namespace Plan

open Cql Delta

/-! ## Spots -/

/-- Where an entry stands: behind which passages, in which section, behind which branches of that
section, and where among the items there. -/
structure Spot where
  passages : List Branch
  part : Part
  nested : List Branch
  index : Nat

/-- The branches below a section, in the order in which they are searched for items. -/
def searchOrder : Part → List Branch
  | .containers => keyspaceBranches.map Prod.fst ++ [.items]
  | .definitions => typeBranches
  | _ => [.items]

/-- The branches that lead from a section to items whose entries have their turn. -/
inductive Searched : Part → List Branch → Prop
  | keyspaces {nested : List Branch}
      (through : ∀ branch ∈ nested, branch ∈ keyspaceBranches.map Prod.fst) :
      Searched .containers nested
  | types {front : List Branch} {part : Part}
      (through : ∀ branch ∈ front, isTypePassage branch = true)
      (stops : .part part ∈ typeBranches) :
      Searched .definitions (front ++ [.part part])
  | tables {part : Part}
      (holds : isTablePart part = true) :
      Searched part []

/-- What is searched is a section. -/
theorem Searched.not_isPassage
    {part : Part}
    {nested : List Branch}
    (h : Searched part nested) :
    isPassage (.part part) = false := by
  cases h with
  | keyspaces through => rfl
  | types through stops => rfl
  | tables holds => cases part <;> first | rfl | simp [isTablePart] at holds

namespace Spot

/-- The branches that lead to the items among which an entry stands. -/
def path (spot : Spot) : List Branch :=
  spot.passages ++ [.part spot.part] ++ (spot.nested ++ [.items])

/-- The place of a spot in the order in which a plan is made: by the passages and the section, then
by the branches inside the section, then by the position. -/
def place (spot : Spot) : List Nat :=
  (spot.passages ++ [Branch.part spot.part]).map Branch.all.idxOf
    ++ ((spot.nested ++ [Branch.items]).map (searchOrder spot.part).idxOf ++ [spot.index])

/-- The trail of an entry at a spot. -/
def trail (scope : Scope) (spot : Spot) (entry : String × Node) : Trail :=
  match spot.part with
  | .containers =>
      .ofStatements (keyspaceStatement? (fateAfter .altered spot.nested) entry).toList
  | .definitions =>
      match spot.nested.getLast? with
      | some (.part part) => .ofEvents (TypeEntry.events scope ⟨⟨spot.index, entry⟩, part⟩)
      | _ => {}
  | .modified => entryTrail scope .replace entry
  | .deleted => entryTrail scope .drop entry
  | .added => entryTrail scope .add entry
  | .entities => {}

/-- An entry of a section of tables leads to what its table does, with the edit of the section. -/
theorem trail_of_tables
    {spot : Spot}
    (h : isTablePart spot.part = true) :
    ∃ edit, ∀ scope entry, spot.trail scope entry = entryTrail scope edit entry := by
  obtain ⟨passages, part, nested, index⟩ := spot
  cases part with
  | modified => exact ⟨.replace, fun _ _ => rfl⟩
  | deleted => exact ⟨.drop, fun _ _ => rfl⟩
  | added => exact ⟨.add, fun _ _ => rfl⟩
  | _ => simp [isTablePart] at h

end Spot

/-- An entry stands at a spot of a comparison. -/
structure StandsAt (document : Node) (spot : Spot) (entry : String × Node) : Prop where
  through : ∀ branch ∈ spot.passages, isPassage branch = true
  searched : Searched spot.part spot.nested
  found : ∃ items, (View.single document).follow? spot.path = some items ∧
    items.entries[spot.index]? = some entry

/-! ## The entries of a section -/

/-- The entries of a section behind passages, in order, each with its spot. -/
def Section.entries (passages : List Branch) (changes : Section) : List (Spot × (String × Node)) :=
  let tables := (itemsOf changes.view).map fun item =>
    (⟨passages, changes.part, [], item.index⟩, item.entry)
  match changes.part with
  | .containers =>
      (keyspaceTour.tour changes.view).map fun stop =>
        (⟨passages, .containers, stop.1.dropLast, stop.2.index⟩, stop.2.entry)
  | .definitions =>
      (typeTour.tour changes.view).map fun stop =>
        (⟨passages, .definitions, stop.1, stop.2.index⟩, stop.2.entry)
  | .entities => []
  | .modified => tables
  | .deleted => tables
  | .added => tables

/-- The entries of a section of tables are its items. -/
theorem entries_of_tables
    {part : Part}
    (h : isTablePart part = true)
    (passages : List Branch)
    (view : View) :
    (Section.mk part view).entries passages =
      (itemsOf view).map fun item => (⟨passages, part, [], item.index⟩, item.entry) := by
  cases part <;> first | rfl | simp [isTablePart] at h

/-- The entries of a section of keyspaces are those behind the branches that lead on from it. -/
theorem entries_of_keyspaces
    (passages : List Branch)
    (view : View) :
    (Section.mk .containers view).entries passages =
      (keyspaceEntries view).map fun standing =>
        (⟨passages, .containers, standing.1, standing.2.index⟩, standing.2.entry) := by
  rw [keyspaceEntries, List.map_map]
  rfl

/-- An entry of a section is found along branches along which the section is searched. -/
theorem mem_sectionEntries_iff
    {passages : List Branch}
    {changes : Section}
    {spot : Spot}
    {entry : String × Node} :
    (spot, entry) ∈ changes.entries passages ↔
      spot.passages = passages ∧ spot.part = changes.part ∧ Searched spot.part spot.nested ∧
        ∃ items, changes.view.follow? (spot.nested ++ [.items]) = some items ∧
          items.entries[spot.index]? = some entry := by
  obtain ⟨part, view⟩ := changes
  obtain ⟨passages', part', nested, index⟩ := spot
  have htables (holds : isTablePart part = true) :
      (⟨passages', part', nested, index⟩, entry) ∈ (Section.mk part view).entries passages ↔
        passages' = passages ∧ part' = part ∧ Searched part' nested ∧
          ∃ items, view.follow? (nested ++ [.items]) = some items ∧
            items.entries[index]? = some entry := by
    rw [entries_of_tables holds, List.mem_map]
    constructor
    · rintro ⟨item, hitem, heq⟩
      obtain ⟨hspot, rfl⟩ := Prod.mk.inj heq
      obtain ⟨rfl, rfl, rfl, rfl⟩ := Spot.mk.inj hspot
      obtain ⟨items, hitems, hentry⟩ := mem_itemsOf_iff.mp hitem
      exact ⟨rfl, rfl, .tables holds, items, by simpa [View.follow?] using hitems, hentry⟩
    · rintro ⟨rfl, rfl, hsearched, items, hfollow, hentry⟩
      obtain rfl : nested = [] := by
        cases hsearched with
        | keyspaces through => simp [isTablePart] at holds
        | types through stops => simp [isTablePart] at holds
        | tables holds => rfl
      have hitems : view.branch? .items = some items := by simpa [View.follow?] using hfollow
      exact ⟨⟨index, entry⟩, mem_itemsOf_iff.mpr ⟨items, hitems, hentry⟩, rfl⟩
  cases part with
  | modified => exact htables rfl
  | deleted => exact htables rfl
  | added => exact htables rfl
  | entities =>
      simp only [Section.entries, List.not_mem_nil, false_iff]
      rintro ⟨-, rfl, hsearched, -⟩
      cases hsearched with
      | tables holds => simp [isTablePart] at holds
  | containers =>
      rw [entries_of_keyspaces, List.mem_map]
      constructor
      · rintro ⟨⟨nested, item⟩, hstanding, heq⟩
        obtain ⟨hspot, rfl⟩ := Prod.mk.inj heq
        obtain ⟨rfl, rfl, rfl, rfl⟩ := Spot.mk.inj hspot
        obtain ⟨hthrough, items, hfollow, hentry⟩ := mem_keyspaceEntries_iff.mp hstanding
        exact ⟨rfl, rfl, .keyspaces hthrough, items, hfollow, hentry⟩
      · rintro ⟨rfl, rfl, hsearched, items, hfollow, hentry⟩
        have hthrough : ∀ branch ∈ nested, branch ∈ keyspaceBranches.map Prod.fst := by
          cases hsearched with
          | keyspaces through => exact through
          | tables holds => simp [isTablePart] at holds
        exact ⟨(nested, ⟨index, entry⟩),
          mem_keyspaceEntries_iff.mpr ⟨hthrough, items, hfollow, hentry⟩, rfl⟩
  | definitions =>
      simp only [Section.entries, List.mem_map]
      constructor
      · rintro ⟨⟨path, stop⟩, hstop, heq⟩
        obtain ⟨hspot, rfl⟩ := Prod.mk.inj heq
        obtain ⟨rfl, rfl, rfl, rfl⟩ := Spot.mk.inj hspot
        obtain ⟨front, rfl, hthrough, hpart, items, hfollow, hentry⟩ := mem_typeTour_iff.mp hstop
        exact ⟨rfl, rfl, .types hthrough hpart, items, hfollow, hentry⟩
      · rintro ⟨rfl, rfl, hsearched, items, hfollow, hentry⟩
        cases hsearched with
        | tables holds => simp [isTablePart] at holds
        | @types front part through stops =>
            refine ⟨(front ++ [.part part], ⟨⟨index, entry⟩, part⟩), ?_, rfl⟩
            exact mem_typeTour_iff.mpr ⟨front, rfl, through, stops, items, hfollow, hentry⟩

/-- The entries of a section come in the order of their places. -/
theorem sectionEntries_sorted
    (passages : List Branch)
    (changes : Section) :
    (changes.entries passages).Pairwise fun first second =>
      Earlier first.1.place second.1.place := by
  obtain ⟨part, view⟩ := changes
  have htables (holds : isTablePart part = true) :
      ((Section.mk part view).entries passages).Pairwise fun first second =>
        Earlier first.1.place second.1.place := by
    rw [entries_of_tables holds, List.pairwise_map]
    refine (itemsOf_sorted view).imp fun h => ?_
    exact ((Earlier.here h [] []).prepend _).prepend _
  cases part with
  | modified => exact htables rfl
  | deleted => exact htables rfl
  | added => exact htables rfl
  | entities => exact .nil
  | containers =>
      rw [entries_of_keyspaces, List.pairwise_map]
      exact (keyspaceEntries_sorted view).imp fun h => h.prepend _
  | definitions =>
      rw [Section.entries, List.pairwise_map]
      have hmarks := typeTour.tour_sorted_by_marks
        (fun stop => [typeBranches.idxOf .items, stop.index])
        (fun view branch => (typesAlong_sorted view branch).imp fun h => .there _ (.here h [] []))
        view
      refine hmarks.imp fun h => ?_
      simp only [Spot.place, List.map_append, List.append_assoc]
      exact (h.prepend _).prepend _

/-! ## The entries of a comparison -/

/-- The entries of a comparison, in the order in which they have their turn. -/
def entriesOf (document : Node) : List (Spot × (String × Node)) :=
  (sectionTour.tour (.single document)).flatMap fun stop => stop.2.entries stop.1.dropLast

/-- The entries of a comparison are those that stand at its spots. -/
theorem mem_entriesOf_iff
    {document : Node}
    {spot : Spot}
    {entry : String × Node} :
    (spot, entry) ∈ entriesOf document ↔ StandsAt document spot entry := by
  rw [entriesOf, List.mem_flatMap]
  constructor
  · rintro ⟨⟨path, changes⟩, hstop, hentry⟩
    obtain ⟨front, rfl, hthrough, -, hreached⟩ := mem_sectionTour_iff.mp hstop
    rw [List.dropLast_concat] at hentry
    obtain ⟨rfl, hpart, hsearched, items, hfollow, hfound⟩ := mem_sectionEntries_iff.mp hentry
    refine ⟨hthrough, hsearched, items, ?_, hfound⟩
    rw [Spot.path, hpart, View.follow?_append, hreached, Option.bind_some, hfollow]
  · rintro ⟨hthrough, hsearched, items, hfollow, hfound⟩
    rw [Spot.path, View.follow?_append, Option.bind_eq_some_iff] at hfollow
    obtain ⟨view, hreached, hfollow⟩ := hfollow
    refine ⟨(spot.passages ++ [.part spot.part], ⟨spot.part, view⟩), ?_, ?_⟩
    · exact mem_sectionTour_iff.mpr
        ⟨spot.passages, rfl, hthrough, hsearched.not_isPassage, hreached⟩
    · rw [List.dropLast_concat]
      exact mem_sectionEntries_iff.mpr ⟨rfl, rfl, hsearched, items, hfollow, hfound⟩

/-- The entries of a comparison come in the order of their places. -/
theorem entriesOf_sorted (document : Node) :
    (entriesOf document).Pairwise fun first second => first.1.place < second.1.place := by
  rw [entriesOf, List.pairwise_flatMap]
  constructor
  · exact fun stop _ => (sectionEntries_sorted stop.1.dropLast stop.2).imp Earlier.lt
  · have hsections := sectionTour_sorted (.single document)
    refine hsections.imp_of_mem fun {first second} hfirst hsecond h => ?_
    rintro ⟨spot, entry⟩ hentry ⟨spot', entry'⟩ hentry'
    obtain ⟨path, changes⟩ := first
    obtain ⟨path', changes'⟩ := second
    obtain ⟨front, rfl, -⟩ := mem_sectionTour_iff.mp hfirst
    obtain ⟨front', rfl, -⟩ := mem_sectionTour_iff.mp hsecond
    rw [List.dropLast_concat] at hentry hentry'
    obtain ⟨rfl, hpart, -⟩ := mem_sectionEntries_iff.mp hentry
    obtain ⟨rfl, hpart', -⟩ := mem_sectionEntries_iff.mp hentry'
    rw [Spot.place, Spot.place, hpart, hpart']
    exact (h.append _ _).lt

/-! ## What entries lead to -/

/-- The items at the end of a path do not change what becomes of a keyspace. -/
theorem fateAfter_items
    (fate : Fate)
    (nested : List Branch) :
    fateAfter fate (nested ++ [.items]) = fateAfter fate nested := by
  induction nested generalizing fate with
  | nil => rfl
  | cons branch more ih =>
      cases branch with
      | items => rfl
      | properties => exact ih _
      | part part => exact ih _

/-- The last branch before the items decides what becomes of a keyspace. -/
theorem fateAfter_eq_fateAlong
    {nested : List Branch}
    (h : ∀ branch ∈ nested, branch ∈ keyspaceBranches.map Prod.fst)
    (fate : Fate) :
    fateAfter fate nested = (nested.getLast?.map fateAlong).getD fate := by
  induction nested generalizing fate with
  | nil => rfl
  | cons branch more ih =>
      rw [List.forall_mem_cons] at h
      have hbranch : fateAfter fate (branch :: more) = fateAfter (fateAlong branch) more := by
        cases branch with
        | items => simp [keyspaceBranches] at h
        | properties => rfl
        | part part => rfl
      rw [hbranch, ih h.2, List.getLast?_cons]
      cases more.getLast? <;> rfl

/-- A section leads to what its entries lead to one after another. -/
theorem trail_section_eq_entries
    (scope : Scope)
    (passages : List Branch)
    (changes : Section) :
    changes.trail scope =
      .concat ((changes.entries passages).map fun standing =>
        standing.1.trail scope standing.2) := by
  obtain ⟨part, view⟩ := changes
  cases part with
  | entities => rfl
  | modified =>
      rw [entries_of_tables rfl, List.map_map]
      exact tableTrail_eq_concat scope .replace view
  | deleted =>
      rw [entries_of_tables rfl, List.map_map]
      exact tableTrail_eq_concat scope .drop view
  | added =>
      rw [entries_of_tables rfl, List.map_map]
      exact tableTrail_eq_concat scope .add view
  | containers =>
      rw [Section.trail, keyspaceChanges_eq_flatMap, Trail.ofStatements_flatMap, Section.entries,
        List.map_map]
      refine congrArg Trail.concat (List.map_congr_left fun stop hstop => ?_)
      obtain ⟨path, item⟩ := stop
      obtain ⟨nested, rfl, -⟩ := mem_keyspaceTour_iff.mp hstop
      simp only [Function.comp_apply, Spot.trail, fateAfter_items, List.dropLast_concat]
  | definitions =>
      rw [Section.trail, typeChanges_eq_flatMap, Trail.ofEvents_flatMap, Section.entries,
        List.map_map]
      refine congrArg Trail.concat (List.map_congr_left fun stop hstop => ?_)
      obtain ⟨path, stop⟩ := stop
      obtain ⟨front, rfl, -⟩ := mem_typeTour_iff.mp hstop
      simp only [Function.comp_apply, Spot.trail, List.getLast?_concat]

/-- A plan is made of what the entries of its comparison lead to one after another. -/
theorem trailOf_eq_entries
    (scope : Scope)
    (document : Node) :
    trailOf scope (.single document) =
      .concat ((entriesOf document).map fun standing => standing.1.trail scope standing.2) := by
  rw [trailOf_eq_concat, entriesOf, List.map_flatMap, Trail.concat_flatMap]
  exact congrArg Trail.concat
    (List.map_congr_left fun stop _ => trail_section_eq_entries scope stop.1.dropLast stop.2)

/-! ## Picking from the entries -/

section Picking

variable {α : Type}

/-- Everything that is said of spots, each with its spot, in the order of their places. -/
structure InWalkOrder (Holds : Spot → α → Prop) (found : List (Spot × α)) : Prop where
  complete : ∀ spot value, (spot, value) ∈ found ↔ Holds spot value
  sorted : found.Pairwise fun first second => first.1.place < second.1.place

/-- The entries of a comparison have their turn in the order of their places. -/
theorem entriesOf_inWalkOrder (document : Node) :
    InWalkOrder (StandsAt document) (entriesOf document) where
  complete := fun _ _ => mem_entriesOf_iff
  sorted := entriesOf_sorted document

/-- What is picked of entries, each with its spot. -/
def picked
    (pick : Spot → String × Node → Option α)
    (entries : List (Spot × (String × Node))) :
    List (Spot × α) :=
  entries.filterMap fun standing => (pick standing.1 standing.2).map (Prod.mk standing.1)

theorem picked_inWalkOrder
    {document : Node}
    {pick : Spot → String × Node → Option α}
    {Holds : Spot → α → Prop}
    (h : ∀ spot value,
      Holds spot value ↔ ∃ entry, StandsAt document spot entry ∧ pick spot entry = some value) :
    InWalkOrder Holds (picked pick (entriesOf document)) where
  complete := by
    intro spot value
    rw [h, picked, List.mem_filterMap]
    constructor
    · rintro ⟨⟨other, entry⟩, hentry, hpick⟩
      obtain ⟨found, hfound, heq⟩ := Option.map_eq_some_iff.mp hpick
      obtain ⟨rfl, rfl⟩ := Prod.mk.inj heq
      exact ⟨entry, mem_entriesOf_iff.mp hentry, hfound⟩
    · rintro ⟨entry, hstands, hpick⟩
      exact ⟨(spot, entry), mem_entriesOf_iff.mpr hstands, by simp [hpick]⟩
  sorted := by
    rw [picked, List.pairwise_filterMap]
    refine (entriesOf_sorted document).imp fun hplace found hfound found' hfound' => ?_
    obtain ⟨value, -, rfl⟩ := Option.map_eq_some_iff.mp hfound
    obtain ⟨value', -, rfl⟩ := Option.map_eq_some_iff.mp hfound'
    exact hplace

/-- What entries give one after another is what the values picked of them give, if each entry gives
what its own value does. -/
theorem flatMap_eq_picked
    {β : Type}
    {pick : Spot → String × Node → Option α}
    {values : α → List β}
    {entries : List (Spot × (String × Node))}
    {part : Spot × (String × Node) → List β}
    (h : ∀ standing ∈ entries,
      part standing = (pick standing.1 standing.2).toList.flatMap values) :
    entries.flatMap part = (picked pick entries).flatMap fun found => values found.2 := by
  rw [picked, List.filterMap_eq_flatMap_toList, List.flatMap_assoc]
  refine congrArg List.flatten (List.map_congr_left fun standing hstanding => ?_)
  rw [h standing hstanding]
  cases pick standing.1 standing.2 <;> rfl

/-- If of every entry certain statements are those of what is picked, then so they are of the whole
plan. -/
theorem filter_statements_eq_picked
    {scope : Scope}
    {document : Node}
    (hfault : (trailOf scope (.single document)).fault = none)
    {wanted : Statement → Bool}
    {pick : Spot → String × Node → Option α}
    {statements : α → List Statement}
    (h : ∀ spot entry, StandsAt document spot entry →
      (spot.trail scope entry).statements.filter wanted =
        (pick spot entry).toList.flatMap statements) :
    (trailOf scope (.single document)).statements.filter wanted =
      (picked pick (entriesOf document)).flatMap fun found => statements found.2 := by
  rw [trailOf_eq_entries] at hfault ⊢
  rw [Trail.statements_concat hfault, List.filter_flatMap, List.flatMap_map]
  exact flatMap_eq_picked fun standing hstanding =>
    h standing.1 standing.2 (mem_entriesOf_iff.mp hstanding)

end Picking

/-- A statement of a plan that succeeds is said of an entry. -/
theorem exists_entry_of_mem_statements
    {scope : Scope}
    {document : Node}
    {statement : Statement}
    (hfault : (trailOf scope (.single document)).fault = none)
    (h : statement ∈ (trailOf scope (.single document)).statements) :
    ∃ spot entry, StandsAt document spot entry ∧
      statement ∈ (spot.trail scope entry).statements := by
  rw [trailOf_eq_entries] at hfault h
  rw [Trail.statements_concat hfault, List.flatMap_map, List.mem_flatMap] at h
  obtain ⟨⟨spot, entry⟩, hentry, hstatement⟩ := h
  exact ⟨spot, entry, mem_entriesOf_iff.mp hentry, hstatement⟩

/-- In a plan that succeeds all is said that is said of its entries. -/
theorem mem_statements_of_stands
    {scope : Scope}
    {document : Node}
    {spot : Spot}
    {entry : String × Node}
    {statement : Statement}
    (hfault : (trailOf scope (.single document)).fault = none)
    (hstands : StandsAt document spot entry)
    (h : statement ∈ (spot.trail scope entry).statements) :
    statement ∈ (trailOf scope (.single document)).statements := by
  rw [trailOf_eq_entries] at hfault ⊢
  rw [Trail.statements_concat hfault, List.flatMap_map, List.mem_flatMap]
  exact ⟨(spot, entry), mem_entriesOf_iff.mpr hstands, h⟩

end Plan
end CqlDelta
