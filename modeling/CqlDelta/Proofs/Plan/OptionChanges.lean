import CqlDelta.Proofs.Cql.StoredOptions
import CqlDelta.Proofs.Plan.FanOut
import CqlDelta.Proofs.Plan.InPlace

/-!
# Changes of table options

An altered table of a modified section has at most one statement for its options. It writes the
options that are stored for the new table but not for the old one, and is left out if there are none
(`changed_options_are_written_unless_all_are_removed`). A table that loses all its options is the
exception: its statement writes one option without a key (`removed_options_are_written_as_empty`).
-/

namespace CqlDelta
namespace Plan

open Cql Delta Text

/-- The text of a change's new options, empty if there is none. -/
def newOptionText (change : Change) : String :=
  (change.options.bind Revision.new).getD ""

/-- The text of a change's old options, empty if there is none. -/
def oldOptionText (change : Change) : String :=
  (change.options.bind Revision.old).getD ""

/-- Whether a statement changes the options or the comment of a table. -/
def changesOptions : Statement → Bool
  | .alterTable _ _ _ => true
  | _ => false

/-- Whether a statement adds, drops or retypes a column. -/
def editsColumn : Statement → Bool
  | .addColumn _ _ _ => true
  | .dropColumn _ _ => true
  | .retypeColumn _ _ _ => true
  | _ => false

theorem newOptions_eq (change : Change) :
    newOptions change = changedOptions (newOptionText change) (oldOptionText change) := by
  rw [newOptions, newOptionText, oldOptionText]
  cases change.options with
  | none => rfl
  | some options => rfl

theorem optionStatement?_of_no_comment
    {change : Change}
    (hcomment : newComment? change = none)
    (table : TableName) :
    (optionStatement? table change).toList =
      if newOptions change = [] then [] else [.alterTable table none (newOptions change)] := by
  rw [optionStatement?, hcomment]
  cases newOptions change <;> rfl

theorem editsColumn_columnStatements
    {scope : Scope}
    {edit : ColumnEdit}
    {table : TableName}
    {column : String × Node}
    {statement : Statement}
    (h : statement ∈ columnStatements scope edit table column) :
    editsColumn statement = true := by
  rcases columnStatements_cases h with ⟨-, type, -, rfl⟩ | ⟨-, rfl⟩ | ⟨-, rfl⟩ <;> rfl

/-- No statement for a column changes the options of its table. -/
theorem changesOptions_of_editsColumn
    {statement : Statement}
    (h : editsColumn statement = true) :
    changesOptions statement = false := by
  cases statement <;> first | rfl | simp [editsColumn] at h

/-- Of an altered table of a modified section the options are said first, and then its columns. -/
theorem AltersTable.statements_eq
    {spot : Spot}
    {entry : String × Node}
    {change : Change}
    {columns : Members}
    (h : AltersTable entry change columns)
    (hmodified : spot.part = .modified)
    (scope : Scope) :
    ∃ others, (spot.trail scope entry).statements =
        (optionStatement? ⟨change.keyspace, entry.1⟩ change).toList ++ others ∧
      ∀ other ∈ others, editsColumn other = true := by
  have hedit : columnEdit? spot.part = some .replace := by rw [hmodified]; rfl
  refine ⟨columns.flatMap (columnStatements scope .replace ⟨change.keyspace, entry.1⟩), ?_, ?_⟩
  · rw [trail_of_columnEdit hedit, h.entryTrail_eq, Trail.statements_ofStatements, alterTable,
      if_pos rfl]
  · intro other hother
    obtain ⟨column, -, hmem⟩ := List.mem_flatMap.mp hother
    exact editsColumn_columnStatements hmem

/-- The columns of an altered table have no part in what is said of its options. -/
theorem AltersTable.filter_changesOptions
    {spot : Spot}
    {entry : String × Node}
    {change : Change}
    {columns : Members}
    (h : AltersTable entry change columns)
    (hmodified : spot.part = .modified)
    (scope : Scope) :
    (spot.trail scope entry).statements.filter changesOptions =
      (optionStatement? ⟨change.keyspace, entry.1⟩ change).toList := by
  obtain ⟨others, hsaid, hothers⟩ := h.statements_eq hmodified scope
  have hcolumns : others.filter changesOptions = [] := by
    rw [List.filter_eq_nil_iff]
    intro other hother
    simp [changesOptions_of_editsColumn (hothers other hother)]
  have hwritten (table : TableName) :
      (optionStatement? table change).toList.filter changesOptions =
        (optionStatement? table change).toList := by
    rw [optionStatement?]
    split <;> rfl
  rw [hsaid, List.filter_append, hcolumns, hwritten, List.append_nil]

/-- Let the options of a table be stored before and after a change, clause by clause. The compared
texts give the clauses that are new, in order, each with its key, unless all clauses are removed:
then they give one without a key. What any plan says of an altered table of a modified section with
these options, whose comment does not change, stands in one piece; there is one statement for the
options in it, with just those that the comparison gives, if it gives any, and otherwise none. -/
theorem changed_options_are_written_unless_all_are_removed
    (new old : List OptionClause)
    (hnew : ∀ clause ∈ new, clause.Storable)
    (hold : ∀ clause ∈ old, clause.Storable) :
    let compared := changedOptions (storedOptions new) (storedOptions old)
    (compared = if new = [] ∧ old ≠ [] then [⟨"", ""⟩] else new.filter (· ∉ old)) ∧
    ((∀ option ∈ compared, option.key ≠ "") ↔ ¬(new = [] ∧ old ≠ [])) ∧
    ∀ (options : Options) (names : Listing String) (context : Context) (document : Node)
      (spot : Spot) (entry : String × Node) (change : Change) (columns : Members),
      StandsAt document spot entry → spot.part = .modified → AltersTable entry change columns →
      newOptionText change = storedOptions new → oldOptionText change = storedOptions old →
      newComment? change = none →
      let said := (spot.trail (scopeIn options names context) entry).statements
      (∀ plan, (compile options names context document).result = .ok plan → said <:+: plan) ∧
      said.filter changesOptions =
        if compared = [] then []
        else [.alterTable ⟨change.keyspace, entry.1⟩ none compared] := by
  intro compared
  have hcompared : compared =
      if new = [] ∧ old ≠ [] then [⟨"", ""⟩] else new.filter (· ∉ old) :=
    changedOptions_storedOptions hnew hold
  refine ⟨hcompared, ?keyed, ?tables⟩
  case keyed =>
    rw [hcompared]
    split
    · rename_i hremoved
      simp [hremoved]
    · rename_i hremoved
      refine ⟨fun _ => hremoved, fun _ option hoption => ?_⟩
      exact (hnew option (List.mem_filter.mp hoption).1).keyed
  case tables =>
    intro options names context document spot entry change columns hstands hmodified halters
      hnewText holdText hcomment said
    refine ⟨fun plan => infix_of_stands hstands, ?_⟩
    have hoptions : newOptions change = compared := by rw [newOptions_eq, hnewText, holdText]
    show (spot.trail _ entry).statements.filter changesOptions = _
    rw [halters.filter_changesOptions hmodified, optionStatement?_of_no_comment hcomment, hoptions]

/-- A table that is altered from one option text to another. -/
def tableWithOptions (new old : String) : Node :=
  { element := some { change := some { options := some { new := some new, old := some old } } }
    properties := some [] }

/-- A comparison whose only entry is a table with changed options. -/
def optionsDocument (new old : String) : Node :=
  { modified := some (listed "users" (tableWithOptions new old)) }

theorem optionsDocument_stands (new old : String) :
    StandsAt (optionsDocument new old) ⟨[], .modified, [], 0⟩
      ("users", tableWithOptions new old) :=
  ⟨by simp, .tables rfl, _, rfl, rfl⟩

theorem changed_and_added_option_are_written :
    let new : List OptionClause :=
      [⟨"gc_grace_seconds", "3600"⟩, ⟨"comment", "''"⟩, ⟨"caching", "'rows = NONE'"⟩]
    let old : List OptionClause := [⟨"comment", "''"⟩, ⟨"gc_grace_seconds", "864000"⟩]
    let document := optionsDocument (storedOptions new) (storedOptions old)
    let entry := ("users", tableWithOptions (storedOptions new) (storedOptions old))
    let said := (Spot.trail (scopeIn {} [] {}) ⟨[], .modified, [], 0⟩ entry).statements
    let statement : Statement :=
      .alterTable ⟨none, "users"⟩ none
        [⟨"gc_grace_seconds", "3600"⟩, ⟨"caching", "'rows = NONE'"⟩]
    (∀ clause ∈ new, clause.Storable) ∧ (∀ clause ∈ old, clause.Storable) ∧
      (compile {} [] {} document).result = .ok [statement] ∧
      said <:+: [statement] ∧ said.filter changesOptions = [statement] := by
  intro new old document entry said statement
  have hnew : ∀ clause ∈ new, clause.Storable := by decide +kernel
  have hold : ∀ clause ∈ old, clause.Storable := by decide +kernel
  have hresult : (compile {} [] {} document).result = .ok [statement] := by decide +kernel
  obtain ⟨hcompared, -, htables⟩ :=
    changed_options_are_written_unless_all_are_removed new old hnew hold
  obtain ⟨hpiece, hsaid⟩ :=
    htables {} [] {} document _ entry _ [] (optionsDocument_stands _ _) rfl ⟨rfl, rfl, rfl, rfl⟩ rfl
      rfl rfl
  rw [hcompared] at hsaid
  exact ⟨hnew, hold, hresult, hpiece _ hresult, hsaid⟩

theorem removed_options_are_written_as_empty :
    let old : List OptionClause := [⟨"gc_grace_seconds", "864000"⟩]
    let document := optionsDocument (storedOptions []) (storedOptions old)
    let statement : Statement := .alterTable ⟨none, "users"⟩ none [⟨"", ""⟩]
    (∀ clause ∈ old, clause.Storable) ∧ storedOptions [] = "" ∧
      changedOptions (storedOptions []) (storedOptions old) ≠ [].filter (· ∉ old) ∧
      (compile {} [] {} document).result = .ok [statement] ∧
      statement.render = "ALTER TABLE \"users\" WITH  = '';" := by
  decide +kernel

end Plan
end CqlDelta
