import CqlDelta.Proofs.Plan.HandOver
import Mathlib.Data.List.TakeWhile

/-!
# The table that is created last

A plan reaches the tables that are created up to the first one with a key column that is not
identified, and each of them hands its draft over (`drafts_of_entries`). The last of them is told by
its spot alone (`LastCreated`): all created tables up to there are identified, but not all up to any
created table behind it.
-/

namespace CqlDelta
namespace Plan

open Cql Delta

/-- No table that is created up to a spot stops a plan. -/
def Reached (document : Node) (spot : Spot) : Prop :=
  ∀ earlier creation, CreatedTable document earlier creation → ¬ spot.place < earlier.place →
    creation.Identified

/-- A created table is the last one that a plan reaches. -/
structure LastCreated (document : Node) (spot : Spot) (creation : Creation) : Prop where
  created : CreatedTable document spot creation
  reached : Reached document spot
  last : ∀ later other, CreatedTable document later other → spot.place < later.place →
    ¬ Reached document later

/-- Created tables up to the first one that is not identified. -/
def reachedOf (created : List (Spot × Creation)) : List (Spot × Creation) :=
  created.takeWhile fun found => (unidentified? found.2.columns).isNone

theorem isNone_unidentified?_iff {creation : Creation} :
    (unidentified? creation.columns).isNone = true ↔ creation.Identified := by
  rw [identified_iff, Option.isNone_iff_eq_none]

theorem reachedOf_of_identified
    {created : List (Spot × Creation)}
    (h : ∀ found ∈ created, found.2.Identified) :
    reachedOf created = created :=
  List.takeWhile_eq_self_iff.mpr fun found hfound =>
    isNone_unidentified?_iff.mpr (h found hfound)

/-- Entries hand over the drafts of the tables that are reached, whether one of them fails or
not. -/
theorem drafts_of_entries
    (entries : List (Spot × (String × Node)))
    (scope : Scope) :
    (Trail.concat (entries.map fun standing => standing.1.trail scope standing.2)).drafts =
      (reachedOf (picked creation? entries)).map fun found => found.2.draft := by
  cases hfault : (Trail.concat (entries.map fun standing =>
      standing.1.trail scope standing.2)).fault with
  | none =>
      obtain ⟨hidentified, hdrafts, -⟩ := drafts_and_statements_of_entries hfault
      rw [reachedOf_of_identified hidentified, hdrafts]
  | some fault =>
      obtain ⟨before, failing, after, hcreated, hidentified, hfaulty, hdrafts⟩ :=
        drafts_of_failing_entries hfault
      have hstops : reachedOf (failing :: after) = [] := by
        refine List.takeWhile_cons_of_neg fun hnone => ?_
        obtain ⟨front, node, back, hcolumns, hkey, hguid, -⟩ := hfaulty.column
        refine isNone_unidentified?_iff.mp hnone _ ?_ hkey hguid
        rw [hcolumns]
        exact List.mem_append_right _ List.mem_cons_self
      have hreached : reachedOf (before ++ failing :: after) = before := by
        rw [reachedOf, List.takeWhile_append_of_pos fun found hfound =>
          isNone_unidentified?_iff.mpr (hidentified found hfound), ← reachedOf, hstops,
          List.append_nil]
      rw [hcreated, hreached, hdrafts]

section Reaching

variable {document : Node} {created : List (Spot × Creation)}

/-- What stands in front of the end of the reached tables is identified, and what stands behind it
starts with a table that is not. -/
theorem exists_reachedOf
    (created : List (Spot × Creation)) :
    ∃ rest, created = reachedOf created ++ rest ∧
      (∀ found ∈ reachedOf created, found.2.Identified) ∧
        ∀ failing more, rest = failing :: more → ¬ failing.2.Identified := by
  refine ⟨created.dropWhile fun found => (unidentified? found.2.columns).isNone,
    (List.takeWhile_append_dropWhile ..).symm, fun found hfound => ?identified, ?failing⟩
  case identified =>
    have hnone := List.mem_takeWhile_imp hfound
    exact isNone_unidentified?_iff.mp hnone
  case failing =>
    intro failing more hrest hidentified
    have hhead := List.head?_dropWhile_not
      (fun found : Spot × Creation => (unidentified? found.2.columns).isNone) created
    rw [hrest] at hhead
    simp [isNone_unidentified?_iff.mpr hidentified] at hhead

/-- If a plan gets past a created table behind the reached ones, it gets past all of the tables there
that come earlier, also past the first, which is not identified. -/
theorem not_reached_of_mem_rest
    (h : InWalkOrder (CreatedTable document) created)
    {rest : List (Spot × Creation)}
    (hsplit : created = reachedOf created ++ rest)
    (hstops : ∀ failing more, rest = failing :: more → ¬ failing.2.Identified)
    {later : Spot × Creation}
    (hlater : later ∈ rest) :
    ¬ Reached document later.1 := by
  intro hreached
  cases rest with
  | nil => simp at hlater
  | cons failing more =>
      have hsorted := h.sorted
      rw [hsplit, List.pairwise_append] at hsorted
      have hnot : ¬ later.1.place < failing.1.place := by
        rcases List.mem_cons.mp hlater with rfl | hmore
        · exact List.lt_irrefl _
        · exact List.lt_asymm (List.rel_of_pairwise_cons hsorted.2.1 hmore)
      have hcreated : CreatedTable document failing.1 failing.2 := by
        rw [← h.complete, hsplit]
        exact List.mem_append_right _ List.mem_cons_self
      exact hstops failing more rfl (hreached _ _ hcreated hnot)

/-- The last of the reached tables is the last one that a plan reaches. -/
theorem lastCreated_of_getLast?
    (h : InWalkOrder (CreatedTable document) created)
    {spot : Spot}
    {creation : Creation}
    (hlast : (reachedOf created).getLast? = some (spot, creation)) :
    LastCreated document spot creation := by
  obtain ⟨rest, hsplit, hidentified, hstops⟩ := exists_reachedOf created
  obtain ⟨front, hreached⟩ := List.getLast?_eq_some_iff.mp hlast
  have hsorted := h.sorted
  rw [hsplit, hreached, List.append_assoc, List.pairwise_append] at hsorted
  obtain ⟨-, hback, hfront⟩ := hsorted
  have hmem (found : Spot × Creation) : found ∈ created ↔
      found ∈ front ∨ found = (spot, creation) ∨ found ∈ rest := by
    rw [hsplit, hreached]
    simp
  refine ⟨(h.complete _ _).mp ((hmem _).mpr (.inr (.inl rfl))), ?reached, ?last⟩
  case reached =>
    intro earlier other hother hnot
    have hother := (h.complete _ _).mpr hother
    rw [hsplit, List.mem_append] at hother
    rcases hother with hother | hrest
    · exact hidentified _ hother
    · exact absurd (List.rel_of_pairwise_cons hback hrest) hnot
  case last =>
    intro later other hother hlt
    rcases (hmem _).mp ((h.complete _ _).mpr hother) with hbefore | heq | hrest
    · have hless := hfront _ hbefore _ List.mem_cons_self
      exact absurd hlt (List.lt_asymm hless)
    · obtain ⟨rfl, -⟩ := Prod.mk.inj heq
      exact absurd hlt (List.lt_irrefl _)
    · exact not_reached_of_mem_rest h hsplit hstops hrest

/-- If no table is reached, none is the last. -/
theorem not_lastCreated_of_nil
    (h : InWalkOrder (CreatedTable document) created)
    (hnil : reachedOf created = [])
    (spot : Spot)
    (creation : Creation) :
    ¬ LastCreated document spot creation := by
  rintro ⟨hcreated, hreached, -⟩
  obtain ⟨rest, hsplit, -, hstops⟩ := exists_reachedOf created
  have hmem : (spot, creation) ∈ rest := by
    rw [← h.complete, hsplit, hnil] at hcreated
    exact hcreated
  exact not_reached_of_mem_rest h hsplit hstops hmem hreached

end Reaching

end Plan
end CqlDelta
