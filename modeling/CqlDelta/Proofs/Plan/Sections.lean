import CqlDelta.Proofs.Delta.Tours
import CqlDelta.Proofs.Plan.Account

/-!
# The sections of a comparison

A comparison is toured for its sections: the branches `properties`, `items` and `entities` are
passed through, every other branch is a section. A plan's trail is that of its sections, put
together in the order of the tour (`trailOf_eq_concat`). Hence a plan is the concatenation of what
its sections lead to by themselves (`plan_is_concatenation_of_its_sections`).
-/

namespace CqlDelta
namespace Plan

open Cql Delta

/-- A section: the part that it is, and what is found there. -/
structure Section where
  part : Part
  view : View

/-- Whether a branch leads on to further sections. -/
def isPassage : Branch → Bool
  | .properties | .items | .part .entities => true
  | .part _ => false

/-- The section along a branch. -/
def sectionAlong (view : View) : Branch → List Section
  | .part part => (view.branch? (.part part)).toList.map (Section.mk part)
  | _ => []

/-- The tour for the sections of a comparison. -/
def sectionTour : Itinerary Section where
  order := Branch.all
  passes := isPassage
  stops := sectionAlong
  sorted := by decide

/-- A section is reached through passages, and is what is found along its path. -/
theorem mem_sectionTour_iff
    {view : View}
    {path : List Branch}
    {changes : Section} :
    (path, changes) ∈ sectionTour.tour view ↔
      ∃ front, path = front ++ [.part changes.part] ∧
        (∀ branch ∈ front, isPassage branch = true) ∧ isPassage (.part changes.part) = false ∧
          view.follow? path = some changes.view := by
  rw [Itinerary.mem_tour_iff]
  constructor
  · rintro ⟨front, last, place, rfl, hfront, -, hlast, hfollow, hstop⟩
    cases last with
    | properties => simp [sectionTour, sectionAlong] at hstop
    | items => simp [sectionTour, sectionAlong] at hstop
    | part part =>
        obtain ⟨inner, hinner, rfl⟩ := List.mem_map.mp hstop
        refine ⟨front, rfl, fun branch hbranch => (hfront branch hbranch).2, hlast, ?_⟩
        rw [View.follow?_append, hfollow, Option.bind_some, View.follow?,
          Option.mem_toList.mp hinner, Option.bind_some]
        rfl
  · rintro ⟨front, rfl, hfront, hlast, hfollow⟩
    rw [View.follow?_append, Option.bind_eq_some_iff] at hfollow
    obtain ⟨place, hplace, hfollow⟩ := hfollow
    rw [View.follow?, Option.bind_eq_some_iff] at hfollow
    obtain ⟨inner, hinner, hfollow⟩ := hfollow
    obtain rfl := Option.some.inj hfollow
    refine ⟨front, .part changes.part, place, rfl, fun branch hbranch => ?_, Branch.mem_all _,
      hlast, hplace, ?_⟩
    · exact ⟨Branch.mem_all branch, hfront branch hbranch⟩
    · exact List.mem_map.mpr ⟨changes.view, Option.mem_toList.mpr hinner, rfl⟩

/-- Sections come in the order of their paths, one for each. -/
theorem sectionTour_sorted
    (view : View) :
    (sectionTour.tour view).Pairwise fun first second =>
      Earlier (sectionTour.ranks first.1) (sectionTour.ranks second.1) := by
  have hstops (view : View) (branch : Branch) :
      (sectionTour.stops view branch).Pairwise fun _ _ => False := by
    simp only [sectionTour]
    cases branch with
    | properties => exact .nil
    | items => exact .nil
    | part part =>
        rw [sectionAlong]
        cases view.branch? (.part part) <;> simp
  refine (Itinerary.tour_sorted hstops view).imp fun h => ?_
  exact h.resolve_left fun hsame => hsame.2

/-- What a section leads to by itself. -/
def Section.trail (scope : Scope) (changes : Section) : Trail :=
  match changes.part with
  | .entities => {}
  | .containers => .ofStatements (keyspaceChanges changes.view .altered)
  | .definitions => .ofEvents (typeChanges scope changes.view)
  | .modified => tableTrail scope .replace changes.view
  | .deleted => tableTrail scope .drop changes.view
  | .added => tableTrail scope .add changes.view

/-- A plan is made of its sections, in the order of their paths. -/
theorem trailOf_eq_concat
    (scope : Scope)
    (view : View) :
    trailOf scope view =
      .concat ((sectionTour.tour view).map fun stop => stop.2.trail scope) := by
  induction view using View.branch_induction with
  | step view ih =>
      rw [trailOf, View.walk_eq, visitTrail, Itinerary.tour_eq, List.map_flatMap,
        Trail.concat_flatMap]
      refine congrArg Trail.concat (List.map_congr_left fun branch _ => ?_)
      have hpassage {branch : Branch} (hpass : isPassage branch = true) :
          ((view.branch? branch).map (trailOf scope)).getD {} =
            .concat
              ((sectionTour.along view (fun branch => (view.branch? branch).map sectionTour.tour)
                branch).map fun stop => stop.2.trail scope) := by
        rw [Itinerary.along_of_passes hpass, List.map_map]
        cases hinner : view.branch? branch with
        | none => rfl
        | some inner => exact ih branch inner hinner
      have hstop {part : Part} (hpass : isPassage (.part part) = false) :
          ((view.branch? (.part part)).map
              fun inner => (Section.mk part inner).trail scope).getD {} =
            .concat
              ((sectionTour.along view (fun branch => (view.branch? branch).map sectionTour.tour)
                (.part part)).map fun stop => stop.2.trail scope) := by
        rw [Itinerary.along_of_stops hpass, List.map_map]
        simp only [sectionTour, sectionAlong]
        cases view.branch? (.part part) with
        | none => rfl
        | some inner => exact (Trail.append_empty _).symm
      cases branch with
      | properties => exact hpassage rfl
      | items => exact hpassage rfl
      | part part =>
          cases part with
          | entities => exact hpassage rfl
          | _ =>
              rw [← hstop rfl, branchTrail]
              cases view.branch? _ <;> rfl

/-! ## Sections by themselves -/

/-- Making what a section leads to by itself: keyspaces are altered unless a branch in the section
says otherwise, and what happens to the columns of tables depends on the section's part. -/
def Section.making (scope : Scope) (changes : Section) : Making (List Statement) :=
  match changes.part with
  | .entities => return []
  | .containers => return keyspaceChanges changes.view .altered
  | .definitions => Making.inTurn ((typeChanges scope changes.view).map Making.perform)
  | .modified => tableChanges scope .replace changes.view
  | .deleted => tableChanges scope .drop changes.view
  | .added => tableChanges scope .add changes.view

/-- A section by itself succeeds with statements, whatever is at hand. -/
def Section.LeadsTo (scope : Scope) (changes : Section) (statements : List Statement) : Prop :=
  ∀ desk, ((changes.making scope).run.run desk).1 = .ok statements

/-- A path leads from a comparison through passages to a section. -/
def ReachesSection (document : Node) (path : List Branch) (changes : Section) : Prop :=
  ∃ front, path = front ++ [.part changes.part] ∧
    (∀ branch ∈ front, isPassage branch = true) ∧ isPassage (.part changes.part) = false ∧
      (View.single document).follow? path = some changes.view

theorem making_eq_replay
    (scope : Scope)
    (changes : Section) :
    changes.making scope = (changes.trail scope).replay := by
  obtain ⟨part, view⟩ := changes
  cases part with
  | containers => exact (Trail.replay_ofStatements _).symm
  | entities => exact Trail.replay_empty.symm
  | definitions => exact inTurn_perform _
  | modified => exact tableChanges_eq_replay scope .replace view
  | deleted => exact tableChanges_eq_replay scope .drop view
  | added => exact tableChanges_eq_replay scope .add view

/-- What is at hand has no part in what a section leads to. -/
theorem leadsTo_iff
    {scope : Scope}
    {changes : Section}
    {statements : List Statement} :
    changes.LeadsTo scope statements ↔ (changes.trail scope).result = .ok statements := by
  rw [Section.LeadsTo, making_eq_replay]
  exact ⟨fun h => h ⟨{}, []⟩, fun h _ => h⟩

/-- A plan succeeds if and only if every section by itself does, and then is the concatenation of
what they lead to. All sections that can be reached take part, each once, in the lexicographic order
of their paths. -/
theorem plan_is_concatenation_of_its_sections
    (options : Options)
    (names : Listing String)
    (context : Context)
    (document : Node) :
    ∃ sections : List (List Branch × Section),
      (∀ path changes, (path, changes) ∈ sections ↔ ReachesSection document path changes) ∧
      (sections.Pairwise fun first second =>
        first.1.map Branch.all.idxOf < second.1.map Branch.all.idxOf) ∧
      ∀ plan, (compile options names context document).result = .ok plan ↔
        ∃ parts,
          List.Forall₂ (fun stop part => stop.2.LeadsTo (scopeIn options names context) part)
            sections parts ∧
          plan = parts.flatten := by
  refine ⟨sectionTour.tour (.single document), ?paths, ?order, ?plan⟩
  case paths => exact fun path changes => mem_sectionTour_iff
  case order => exact (sectionTour_sorted (.single document)).imp Earlier.lt
  case plan =>
    intro plan
    simp only [result_compile, trailOf_eq_concat, Trail.result_concat_eq_ok_iff,
      List.forall₂_map_left_iff, leadsTo_iff]

end Plan
end CqlDelta
