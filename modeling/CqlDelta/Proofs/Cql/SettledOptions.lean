import CqlDelta.Proofs.Cql.OptionLiterals
import CqlDelta.Proofs.Cql.StoredOptions

/-!
# Written options read again

A clause of an option text is read, written with a literal for its value, and may be read again from
what was written. The second reading finds the same key and the value as it was written, and writing
changes nothing any more (`rendered_clauses_are_fixed_points`). The key cannot move: whether a
separator is the first one depends on the key alone, whatever the value becomes. The value stays,
because a string literal is itself one of the values that are written as they stand.
-/

namespace CqlDelta
namespace Cql

open Text

/-! ## Values -/

theorem optionValue_of_isLiteral
    {value : String}
    (h : isLiteral (trim value.toList) = true) :
    (optionValue value).toList = trim value.toList := by
  simp [optionValue, h]

theorem optionValue_of_not_isLiteral
    {value : String}
    (h : isLiteral (trim value.toList) = false) :
    (optionValue value).toList = enclose literalMark (trim value.toList) := by
  simp [optionValue, h]

/-- A written value has no blanks at its ends, and counts as a literal. -/
theorem trim_optionValue (value : String) :
    trim (optionValue value).toList = (optionValue value).toList ∧
      isLiteral (optionValue value).toList = true := by
  cases hliteral : isLiteral (trim value.toList) with
  | true =>
      rw [optionValue_of_isLiteral hliteral]
      exact ⟨trim_trim _, hliteral⟩
  | false =>
      rw [optionValue_of_not_isLiteral hliteral]
      exact ⟨trim_enclose (by decide) _, isLiteral_iff.mpr (.inl (.string _))⟩

/-- A written value is written as it stands. -/
theorem optionValue_optionValue (value : String) :
    optionValue (optionValue value) = optionValue value := by
  obtain ⟨htrim, hliteral⟩ := trim_optionValue value
  rw [← String.toList_inj, optionValue_of_isLiteral (by rwa [htrim]), htrim]

/-! ## Clauses -/

/-- A clause with its value as it is written. -/
def OptionClause.settled (clause : OptionClause) : OptionClause :=
  ⟨clause.key, optionValue clause.value⟩

theorem OptionClause.settled_settled (clause : OptionClause) :
    clause.settled.settled = clause.settled := by
  rw [settled, settled, optionValue_optionValue]

/-- Writing a clause is storing it with its value as it is written. -/
theorem OptionClause.render_eq_stored (clause : OptionClause) :
    clause.render = clause.settled.stored :=
  rfl

/-- A text with a separator is cut at the first one. -/
theorem OptionClause.stored_ofText
    {clause : String}
    (h : valueSeparator <:+: clause.toList) :
    (OptionClause.ofText clause).stored = clause ∧
      FirstBehind valueSeparator (OptionClause.ofText clause).key.toList
        (OptionClause.ofText clause).value.toList := by
  obtain ⟨key, value, hcut, hfirst⟩ := exists_cut_of_infix (by decide) h
  have hread : OptionClause.ofText clause = ⟨String.ofList key, String.ofList value⟩ := by
    rw [ofText, hcut]
  rw [hread, ← String.toList_inj, toList_stored, String.toList_ofList, String.toList_ofList]
  exact ⟨append_of_cutAt hcut, hfirst⟩

/-- Let a clause hold a separator. Read from what it is written as, the clause has the same key and
the value as it is written, and is written in the same way once more. Where the value is written as
a string, the text between the marks stands for the trimmed value, with every mark doubled; where it
is written as it stands, the written clause lacks nothing but blanks around the value. -/
theorem rendered_clauses_are_fixed_points
    (clause : String)
    (hparted : valueSeparator <:+: clause.toList) :
    let option := OptionClause.ofText clause
    let trimmed := trim option.value.toList
    let written := (optionValue option.value).toList
    OptionClause.ofText option.render = ⟨option.key, optionValue option.value⟩ ∧
    (OptionClause.ofText option.render).render = option.render ∧
    (isLiteral trimmed = false →
      ∃ content, written = literalMark :: (content ++ [literalMark]) ∧
        undouble literalMark content = trimmed) ∧
    (isLiteral trimmed = true →
      ∃ front back, (∀ c ∈ front ++ back, isBlank c = true) ∧
        clause.toList = option.key.toList ++ valueSeparator ++ (front ++ written ++ back) ∧
        option.render.toList = option.key.toList ++ valueSeparator ++ written) := by
  intro option trimmed written
  obtain ⟨hstored, hfirst⟩ := OptionClause.stored_ofText hparted
  have hread : OptionClause.ofText option.render = option.settled := by
    rw [option.render_eq_stored]
    exact OptionClause.ofText_stored (hfirst.other _)
  refine ⟨hread, ?again, ?quoted, ?kept⟩
  case again =>
    rw [hread, OptionClause.render_eq_stored, option.settled_settled, option.render_eq_stored]
  case quoted =>
    intro hliteral
    exact ⟨double literalMark trimmed, optionValue_of_not_isLiteral hliteral,
      undouble_double literalMark trimmed⟩
  case kept =>
    intro hliteral
    obtain ⟨front, back, hfront, hback, hvalue⟩ := exists_blanks_around_trim option.value.toList
    refine ⟨front, back, List.forall_mem_append.mpr ⟨hfront, hback⟩, ?_, ?_⟩
    · have hwritten : written = trimmed := optionValue_of_isLiteral hliteral
      rw [hwritten, List.append_assoc front, hvalue, ← option.toList_stored, hstored]
    · rw [option.render_eq_stored, OptionClause.toList_stored]
      rfl

theorem straddled_separator_and_marked_value_are_settled :
    let clause := "caching = = it's = ALL "
    let option := OptionClause.ofText clause
    valueSeparator <:+: clause.toList ∧ option = ⟨"caching", "= it's = ALL "⟩ ∧
      option.render = "caching = '= it''s = ALL'" ∧
      OptionClause.ofText option.render = ⟨"caching", "'= it''s = ALL'"⟩ ∧
      (OptionClause.ofText option.render).render = option.render ∧
      ∃ content, (optionValue option.value).toList = literalMark :: (content ++ [literalMark]) ∧
        undouble literalMark content = "= it's = ALL".toList := by
  intro clause option
  have hparted : valueSeparator <:+: clause.toList := by decide +kernel
  have hoption : option = ⟨"caching", "= it's = ALL "⟩ := by decide +kernel
  have hwritten : optionValue option.value = "'= it''s = ALL'" := by decide +kernel
  obtain ⟨hread, hagain, hquoted, -⟩ := rendered_clauses_are_fixed_points clause hparted
  refine ⟨hparted, hoption, by decide +kernel, hread.trans ?_, hagain, ?_⟩
  · show OptionClause.mk option.key (optionValue option.value) = _
    rw [hwritten, hoption]
  · obtain ⟨content, hcontent, hvalue⟩ := hquoted (by decide +kernel)
    exact ⟨content, hcontent, hvalue.trans (by decide +kernel)⟩

end Cql
end CqlDelta
