import CqlDelta.Cql.Options
import CqlDelta.Proofs.Text.Cutting

/-!
# Stored options

A list of clauses is stored as one text, and cut again where the texts of two tables are compared.
If every clause can be told from the next one and its key from its value, then cutting gives the
clauses back, and the changed options are the clauses that only the new text has. The empty text is
the exception: it stores no clause, but is cut into one that is empty
(`changedOptions_storedOptions`).
-/

namespace CqlDelta
namespace Cql

open Text

/-- The text that stores a clause. -/
def OptionClause.stored (clause : OptionClause) : String :=
  clause.key ++ " = " ++ clause.value

/-- The text that stores a list of clauses. It is empty if the list is. -/
def storedOptions (clauses : List OptionClause) : String :=
  "\nAND ".intercalate (clauses.map OptionClause.stored)

/-- A clause that can be stored: it has a key, its value starts behind the first sign that separates
the two, and it does not look like more than one clause. -/
structure OptionClause.Storable (clause : OptionClause) : Prop where
  keyed : clause.key ≠ ""
  parted : FirstBehind valueSeparator clause.key.toList clause.value.toList
  single : ¬clauseSeparator <:+: clause.stored.toList

theorem OptionClause.storable_iff (clause : OptionClause) :
    clause.Storable ↔
      clause.key ≠ "" ∧
        cutAt valueSeparator (clause.key.toList ++ valueSeparator ++ clause.value.toList) =
          some (clause.key.toList, clause.value.toList) ∧
        ¬clauseSeparator <:+: clause.stored.toList := by
  rw [← firstBehind_iff (by decide)]
  exact ⟨fun h => ⟨h.keyed, h.parted, h.single⟩, fun h => ⟨h.1, h.2.1, h.2.2⟩⟩

instance : DecidablePred OptionClause.Storable := fun clause =>
  decidable_of_iff' _ clause.storable_iff

theorem OptionClause.toList_stored (clause : OptionClause) :
    clause.stored.toList = clause.key.toList ++ valueSeparator ++ clause.value.toList := by
  rw [stored, String.toList_append, String.toList_append]
  rfl

theorem OptionClause.stored_ne_empty (clause : OptionClause) : clause.stored ≠ "" := by
  intro hempty
  have hlist := clause.toList_stored
  rw [hempty] at hlist
  simp [valueSeparator] at hlist

/-- A clause whose value starts behind the first separator is read back. -/
theorem OptionClause.ofText_stored
    {clause : OptionClause}
    (h : FirstBehind valueSeparator clause.key.toList clause.value.toList) :
    OptionClause.ofText clause.stored = clause := by
  rw [OptionClause.ofText, clause.toList_stored, cutAt_append (by decide) h]
  simp

/-- A stored clause is read back. -/
theorem OptionClause.Storable.ofText_stored
    {clause : OptionClause}
    (h : clause.Storable) :
    OptionClause.ofText clause.stored = clause :=
  OptionClause.ofText_stored h.parted

/-- Stored clauses are told apart by their texts. -/
theorem OptionClause.Storable.stored_inj
    {clause other : OptionClause}
    (h : clause.Storable)
    (hother : other.Storable) :
    clause.stored = other.stored ↔ clause = other := by
  refine ⟨fun heq => ?_, congrArg OptionClause.stored⟩
  rw [← h.ofText_stored, heq, hother.ofText_stored]

theorem clauses_empty : clauses "" = [""] :=
  rfl

/-- The clauses of a text that stores any are those that it stores. -/
theorem clauses_storedOptions
    {stored : List OptionClause}
    (hne : stored ≠ [])
    (h : ∀ clause ∈ stored, clause.Storable) :
    clauses (storedOptions stored) = stored.map OptionClause.stored := by
  have hpieces : ∀ piece ∈ (stored.map OptionClause.stored).map String.toList,
      ¬clauseSeparator <:+: piece := by
    simpa using fun clause hclause => (h clause hclause).single
  rw [clauses, storedOptions, toList_intercalate_eq_joinWith]
  have hcut := splitAt_joinWith (by decide : '\n' ∉ ['A', 'N', 'D', ' ']) (by simpa using hne)
    hpieces
  exact (congrArg (List.map String.ofList) hcut).trans (by simp)

theorem stored_mem_clauses_iff
    {stored : List OptionClause}
    (h : ∀ clause ∈ stored, clause.Storable)
    {clause : OptionClause}
    (hclause : clause.Storable) :
    clause.stored ∈ clauses (storedOptions stored) ↔ clause ∈ stored := by
  cases stored with
  | nil => simpa [storedOptions, clauses_empty] using clause.stored_ne_empty
  | cons first more =>
      rw [clauses_storedOptions (by simp) h, List.mem_map]
      constructor
      · rintro ⟨other, hother, heq⟩
        exact ((h other hother).stored_inj hclause).mp heq ▸ hother
      · exact fun hmem => ⟨clause, hmem, rfl⟩

/-- Where the new text stores clauses, those are changed that the old one does not store. -/
theorem changedOptions_of_ne_nil
    {new old : List OptionClause}
    (hne : new ≠ [])
    (hnew : ∀ clause ∈ new, clause.Storable)
    (hold : ∀ clause ∈ old, clause.Storable) :
    changedOptions (storedOptions new) (storedOptions old) = new.filter (· ∉ old) := by
  have hunknown : ∀ clause ∈ new,
      (!(clauses (storedOptions old)).contains clause.stored) = decide (clause ∉ old) := by
    intro clause hclause
    simp [stored_mem_clauses_iff hold (hnew clause hclause)]
  have hread : ∀ clause ∈ new.filter (· ∉ old), OptionClause.ofText clause.stored = clause :=
    fun clause hclause => (hnew clause (List.mem_filter.mp hclause).1).ofText_stored
  calc changedOptions (storedOptions new) (storedOptions old)
    _ = (new.filter fun clause => !(clauses (storedOptions old)).contains clause.stored).map
          fun clause => OptionClause.ofText clause.stored := by
        rw [changedOptions, clauses_storedOptions hne hnew, List.filter_map, List.map_map]
        rfl
    _ = (new.filter (· ∉ old)).map fun clause => OptionClause.ofText clause.stored := by
        rw [List.filter_congr hunknown]
    _ = new.filter (· ∉ old) := by
        rw [List.map_congr_left hread, List.map_id']

/-- Where the new text stores no clause but the old one does, one is changed that has neither a key
nor a value. -/
theorem changedOptions_of_all_removed
    {old : List OptionClause}
    (hne : old ≠ [])
    (hold : ∀ clause ∈ old, clause.Storable) :
    changedOptions (storedOptions []) (storedOptions old) = [⟨"", ""⟩] := by
  have hunknown : "" ∉ clauses (storedOptions old) := by
    rw [clauses_storedOptions hne hold, List.mem_map]
    rintro ⟨clause, -, hempty⟩
    exact clause.stored_ne_empty hempty
  have hempty : clauses (storedOptions []) = [""] := clauses_empty
  rw [changedOptions, hempty, List.filter_cons_of_pos (by simpa using hunknown)]
  rfl

/-- The changed options are the clauses that only the new text stores, in order, unless all clauses
are removed. -/
theorem changedOptions_storedOptions
    {new old : List OptionClause}
    (hnew : ∀ clause ∈ new, clause.Storable)
    (hold : ∀ clause ∈ old, clause.Storable) :
    changedOptions (storedOptions new) (storedOptions old) =
      if new = [] ∧ old ≠ [] then [⟨"", ""⟩] else new.filter (· ∉ old) := by
  by_cases hnone : new = []
  · subst hnone
    by_cases hempty : old = []
    · subst hempty
      rfl
    · rw [if_pos ⟨rfl, hempty⟩, changedOptions_of_all_removed hempty hold]
  · rw [if_neg (fun h => hnone h.1), changedOptions_of_ne_nil hnone hnew hold]

end Cql
end CqlDelta
