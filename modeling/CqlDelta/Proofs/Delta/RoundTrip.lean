import CqlDelta.Program.Failure
import CqlDelta.Proofs.Delta.Nodes
import CqlDelta.Proofs.Json.Layouts
import Mathlib

/-!
# Comparisons written and read again

A comparison that was read, by whichever route, is read back from its compact text exactly as far as
that text keeps to the greatest nesting. What was read from a text always does.
-/

namespace CqlDelta
namespace Delta

open Json

/-! ## Sorting -/

theorem membersNesting_insertAbsent
    (key : Content)
    (value : Tree)
    (members : List (Content × Tree)) :
    membersNesting (insertAbsent key value members) ≤
      max value.nesting (membersNesting members) := by
  induction members with
  | nil => simp [insertAbsent, membersNesting]
  | cons member more ih =>
      obtain ⟨other, present⟩ := member
      rw [insertAbsent]
      split
      · exact Nat.le_refl _
      · split
        · exact Nat.le_max_right _ _
        · simp only [membersNesting]
          omega

/-- Sorting the members of a tree does not deepen it. -/
theorem nesting_sorted
    (tree : Tree) :
    tree.sorted.nesting ≤ tree.nesting := by
  induction tree using Tree.nested_induction with
  | leaf tree hleaf =>
      cases tree with
      | list items stop => simp [Tree.nesting] at hleaf
      | object members stop => simp [Tree.nesting] at hleaf
      | _ => exact Nat.le_refl _
  | list items stop ih =>
      rw [Tree.sorted, Tree.nesting, Tree.nesting, Nat.add_le_add_iff_right]
      induction items with
      | nil => exact Nat.le_refl _
      | cons item more ihmore =>
          rw [List.forall_mem_cons] at ih
          have hmore := ihmore ih.2
          rw [sortedItems, itemsNesting, itemsNesting]
          omega
  | object members stop ih =>
      rw [Tree.sorted, Tree.nesting, Tree.nesting, Nat.add_le_add_iff_right]
      induction members with
      | nil => exact Nat.le_refl _
      | cons member more ihmore =>
          obtain ⟨key, value⟩ := member
          rw [List.forall_mem_cons] at ih
          have hmore := ihmore ih.2
          have hvalue : value.sorted.nesting ≤ value.nesting := ih.1
          have hinsert := membersNesting_insertAbsent key value.sorted (sortedMembers more)
          rw [sortedMembers, membersNesting]
          omega

/-! ## The round trip -/

theorem readText_eq_ok_iff
    {α : Type}
    {reader : Reader α}
    {text : String}
    {value : α} :
    Program.readText reader text = .ok value ↔ (Document.ofText text).read reader = .ok value := by
  rw [Program.readText]
  cases (Document.ofText text).read reader <;> simp

/-- A node whose names are distinct is read back from its text if there is room for it. -/
theorem readText_compact_iff
    {node : Node}
    (h : node.Distinct) :
    Program.readText readNode node.toValue.compact = .ok node ↔
      node.toValue.nesting ≤ nestingLimit := by
  rw [readText_eq_ok_iff, ofText_compact, read_eq_ok_iff]
  constructor
  · rintro ⟨hread, -⟩
    exact (yields_node _ _ _ hread).1
  · intro hnesting
    refine ⟨recovers_node h .root (readAny_toTree (fits_node h) ?_), rfl⟩
    rintro _ ⟨rfl⟩
    exact hnesting

/-- A comparison that was read from a text, sorted or not, is read back from its compact text. One
that was read from a tree nests no deeper than the tree, and is read back if and only if it keeps to
the greatest nesting. -/
theorem written_comparison_is_read_back :
    (∀ text node,
      Program.readText readNode text = .ok node →
        Program.readText readNode node.toValue.compact = .ok node) ∧
    (∀ text node,
      (Document.ofText text).readSorted readNode = .ok node →
        Program.readText readNode node.toValue.compact = .ok node) ∧
    (∀ tree node,
      readNode .whole tree = .ok node →
        node.toValue.nesting ≤ tree.nesting ∧
          (Program.readText readNode node.toValue.compact = .ok node ↔
            node.toValue.nesting ≤ nestingLimit)) := by
  refine ⟨?text, ?sorted, ?whole⟩
  case text =>
    intro text node hread
    rw [readText_eq_ok_iff, read_eq_ok_iff] at hread
    obtain ⟨hnesting, hdistinct⟩ := yields_node _ _ _ hread.1
    exact (readText_compact_iff hdistinct).mpr hnesting
  case sorted =>
    intro text node hread
    obtain ⟨tree, htree, hread⟩ := bind_eq_ok_iff.mp hread
    obtain ⟨hnesting, hdistinct⟩ := yields_node _ _ _ hread
    obtain ⟨⟨⟩, hany, hroot⟩ := bind_eq_ok_iff.mp (read_eq_ok_iff.mp htree).1
    obtain rfl := Except.ok.inj hroot
    have hroom := nesting_le_room hany
    have hsorted := nesting_sorted (Document.ofText text).root
    exact (readText_compact_iff hdistinct).mpr
      (Nat.le_trans hnesting (Nat.le_trans hsorted hroom))
  case whole =>
    intro tree node hread
    obtain ⟨hnesting, hdistinct⟩ := yields_node _ _ _ hread
    exact ⟨hnesting, readText_compact_iff hdistinct⟩

/-- Members that are given as a list, and a change that is given as one. -/
def listedText : String :=
  "\x7b\"entities\":\x7b\"properties\":[\x7b\"GUID\":\"7\"\x7d]\x7d,\"compMod\":[\"TRUE\"]\x7d"

/-- What is read from lists. -/
def listedNode : Node :=
  { entities := some { properties := some [("0", { declaration := { guid := some "7" } })] }
    change := some { created := true } }

theorem listed_comparison_is_read_back :
    Program.readText readNode listedText = .ok listedNode ∧
      (Document.ofText listedText).readSorted readNode = .ok listedNode ∧
      readNode .whole (Document.ofText listedText).root = .ok listedNode ∧
      Program.readText readNode listedNode.toValue.compact = .ok listedNode ∧
      listedNode.toValue.nesting ≤ nestingLimit := by
  have htext : Program.readText readNode listedText = .ok listedNode := by cbv
  have hsorted : (Document.ofText listedText).readSorted readNode = .ok listedNode := by cbv
  have hwhole : readNode .whole (Document.ofText listedText).root = .ok listedNode := by cbv
  obtain ⟨hfromText, hfromSorted, hfromWhole⟩ := written_comparison_is_read_back
  have hnesting := (hfromWhole _ _ hwhole).2.mp (hfromText _ _ htext)
  exact ⟨htext, hsorted, hwhole, hfromSorted _ _ hsorted, hnesting⟩

end Delta
end CqlDelta
