import CqlDelta.Proofs.Plan.OptionChanges

/-!
# Changes of table comments

The statement for the options of an altered table is the first that is said of the table. A comment
that changes is its first clause, and the options that change are the others
(`render_alterTable_comment`). A comment counts as changed only where there is an old one
(`changed_comments_are_written_unless_first`), so the first comment of a table is not written
(`first_comment_is_lost`).
-/

namespace CqlDelta
namespace Plan

open Cql Delta Text

/-- The comment that a statement sets for a table that is there. -/
def commentOf? : Statement → Option String
  | .alterTable _ comment _ => comment
  | _ => none

/-! ## What a change says of the comment -/

/-- A comment is new where it differs from an old one. -/
theorem newComment?_eq_some
    {change : Change}
    {revision : Revision}
    {new old : String}
    (hcomment : change.comment = some revision)
    (hnew : revision.new = some new)
    (hold : revision.old = some old)
    (hdiffer : old ≠ new) :
    newComment? change = some new := by
  simp [newComment?, hcomment, Revision.changed?, hnew, hold, hdiffer]

/-- A comment is not new where there is no old one, or the same. -/
theorem newComment?_eq_none
    {change : Change}
    {revision : Revision}
    {new : String}
    (hcomment : change.comment = some revision)
    (hnew : revision.new = some new)
    (hold : revision.old = none ∨ revision.old = some new) :
    newComment? change = none := by
  rcases hold with hold | hold <;> simp [newComment?, hcomment, Revision.changed?, hnew, hold]

theorem optionStatement?_of_comment
    {change : Change}
    {comment : String}
    (hcomment : newComment? change = some comment)
    (table : TableName) :
    optionStatement? table change =
      some (.alterTable table (some comment) (newOptions change)) := by
  rw [optionStatement?, hcomment]

/-- The statement for the options sets the new comment and no other. -/
theorem commentOf?_optionStatement?
    {table : TableName}
    {change : Change}
    {statement : Statement}
    (h : optionStatement? table change = some statement) :
    commentOf? statement = newComment? change := by
  rw [eq_alterTable_of_optionStatement? h]
  rfl

theorem commentOf?_of_editsColumn
    {statement : Statement}
    (h : editsColumn statement = true) :
    commentOf? statement = none := by
  cases statement <;> first | rfl | simp [editsColumn] at h

/-! ## The text of the statement -/

/-- A new comment is the first clause, and every option is another behind `AND`. -/
theorem render_alterTable_comment
    (table : TableName)
    (comment : String)
    (options : List OptionClause) :
    (Statement.alterTable table (some comment) options).render =
      alterTableHead table ++ " WITH comment = " ++ quoteLiteral comment
        ++ String.join (options.map fun option => "\n AND " ++ option.render) ++ ";" := by
  have hclauses :
      alterationClauses (some comment) options =
        ("comment = " ++ quoteLiteral comment) :: options.map OptionClause.render := by
    simp [alterationClauses, toString]
  have hfirst : " WITH comment = " = " WITH " ++ "comment = " := by decide
  show alterTableHead table ++ clauseChain (alterationClauses (some comment) options) ++ ";" = _
  rw [hclauses, clauseChain, intercalate_cons_eq_join, List.map_map, hfirst]
  simp only [String.append_assoc, Function.comp_def]

/-! ## Changed comments -/

/-- An altered table of a modified section whose comment has a new side. If there is an old side and
it differs, then the first statement of the table, and no other, is for its options: its clauses are
the new comment, as a string literal, and after it the options that change, in the order in which
they are stored. The statements behind it edit columns. If the old side is the same, or there is
none, then no statement sets a comment: the first comment of a table is not written. -/
theorem changed_comments_are_written_unless_first
    (options : Options)
    (names : Listing String)
    (context : Context)
    (document : Node)
    (spot : Spot)
    (entry : String × Node)
    (hstands : StandsAt document spot entry)
    (hmodified : spot.part = .modified)
    (change : Change)
    (columns : Members)
    (halters : AltersTable entry change columns)
    (revision : Revision)
    (hcomment : change.comment = some revision)
    (new : String)
    (hnew : revision.new = some new) :
    let table : TableName := ⟨change.keyspace, entry.1⟩
    let changed := ((clauses (newOptionText change)).filter
      (· ∉ clauses (oldOptionText change))).map OptionClause.ofText
    let said := (spot.trail (scopeIn options names context) entry).statements
    (∀ plan, (compile options names context document).result = .ok plan → said <:+: plan) ∧
    (∀ old, revision.old = some old → old ≠ new →
      let statement : Statement := .alterTable table (some new) changed
      (∃ others, said = statement :: others ∧ ∀ other ∈ others, editsColumn other = true) ∧
      said.filter changesOptions = [statement] ∧
      statement.render =
        alterTableHead table ++ " WITH comment = " ++ quoteLiteral new
          ++ String.join (changed.map fun option => "\n AND " ++ option.render) ++ ";") ∧
    (revision.old = none ∨ revision.old = some new →
      ∀ statement ∈ said, commentOf? statement = none) := by
  intro table changed said
  have hchanged : newOptions change = changed := by
    rw [newOptions_eq, changedOptions]
    exact congrArg _ (List.filter_congr (by simp))
  obtain ⟨others, hsaid, hothers⟩ :
      ∃ others, said = (optionStatement? table change).toList ++ others ∧
        ∀ other ∈ others, editsColumn other = true :=
    halters.statements_eq hmodified _
  refine ⟨fun plan => infix_of_stands hstands, ?written, ?unset⟩
  case written =>
    intro old hold hdiffer statement
    have hstatement : optionStatement? table change = some statement := by
      rw [optionStatement?_of_comment (newComment?_eq_some hcomment hnew hold hdiffer), hchanged]
    refine ⟨⟨others, ?_, hothers⟩, ?_, render_alterTable_comment table new changed⟩
    · rw [hsaid, hstatement, Option.toList_some, List.singleton_append]
    · exact (halters.filter_changesOptions hmodified _).trans (by rw [hstatement]; rfl)
  case unset =>
    intro hold statement hstatement
    have hkept := newComment?_eq_none hcomment hnew hold
    rw [hsaid, List.mem_append] at hstatement
    rcases hstatement with hoption | hother
    · exact (commentOf?_optionStatement? (Option.mem_toList.mp hoption)).trans hkept
    · exact commentOf?_of_editsColumn (hothers statement hother)

/-- The change of a table whose comment changes, and one of its options. -/
def annotatedChange (comment : Revision) : Change :=
  { comment := some comment
    options := some
      { new := some "caching = \x7b\x7d\nAND gc_grace_seconds = 0"
        old := some "caching = \x7b\x7d" } }

/-- A table that changes, with one column. -/
def changedTable (change : Change) : Node :=
  { element := some { change := some change }
    properties := some [("name", { declaration := { physical := some "text" } })] }

/-- A comparison whose only entry is a table that changes. -/
def changedDocument (change : Change) : Node :=
  { modified := some (listed "users" (changedTable change)) }

theorem changedDocument_stands (change : Change) :
    StandsAt (changedDocument change) ⟨[], .modified, [], 0⟩ ("users", changedTable change) :=
  ⟨by simp, .tables rfl, _, rfl, rfl⟩

theorem changed_comment_stands_before_changed_option :
    let change := annotatedChange { new := some "it's new", old := some "old" }
    let spot : Spot := ⟨[], .modified, [], 0⟩
    let table : TableName := ⟨none, "users"⟩
    let statement : Statement := .alterTable table (some "it's new") [⟨"gc_grace_seconds", "0"⟩]
    let said := (spot.trail (scopeIn {} [] {}) ("users", changedTable change)).statements
    (compile {} [] {} (changedDocument change)).result =
        .ok [statement, .dropColumn table "name", .addColumn table "name" "text"] ∧
      said.filter changesOptions = [statement] ∧
      statement.render =
        "ALTER TABLE \"users\" WITH comment = 'it''s new'\n AND gc_grace_seconds = 0;" := by
  intro change spot table statement said
  obtain ⟨-, hwritten, -⟩ :=
    changed_comments_are_written_unless_first {} [] {} (changedDocument change) spot _
      (changedDocument_stands change) rfl change _ ⟨rfl, rfl, rfl, rfl⟩ _ rfl "it's new" rfl
  obtain ⟨-, hsaid, hrender⟩ := hwritten "old" rfl (by decide)
  have hchanged :
      ((clauses (newOptionText change)).filter (· ∉ clauses (oldOptionText change))).map
        OptionClause.ofText = [⟨"gc_grace_seconds", "0"⟩] := by decide +kernel
  rw [hchanged] at hsaid hrender
  refine ⟨by decide +kernel, hsaid, hrender.trans (by decide +kernel)⟩

/-- A table that gets its first comment: there is no old one, and nothing is said of the table. -/
theorem first_comment_is_lost :
    let change : Change := { comment := some { new := some "people" } }
    let table : Node := { element := some { change := some change }, properties := some [] }
    let document : Node := { modified := some (listed "users" table) }
    let spot : Spot := ⟨[], .modified, [], 0⟩
    StandsAt document spot ("users", table) ∧ AltersTable ("users", table) change [] ∧
      (spot.trail (scopeIn {} [] {}) ("users", table)).statements.filter changesOptions = [] ∧
      (compile {} [] {} document).result = .ok [] ∧
      (Statement.alterTable ⟨none, "users"⟩ (some "people") []).render =
        "ALTER TABLE \"users\" WITH comment = 'people';" := by
  intro change table document spot
  refine ⟨⟨by simp [spot], .tables rfl, _, rfl, rfl⟩, ⟨rfl, rfl, rfl, rfl⟩, ?_, ?_, ?_⟩
    <;> decide +kernel

end Plan
end CqlDelta
