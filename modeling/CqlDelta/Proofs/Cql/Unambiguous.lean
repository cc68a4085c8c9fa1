import CqlDelta.Cql.Rendering
import Mathlib.Data.List.Infix

/-!
# Rendering is unambiguous

A statement that drops a table or a type, or changes one column or field, is written as words,
quoted names and at most one type, which is taken over as it stands and goes up to the final
semicolon. A reader that goes through such a text from left to right is never in doubt: no word that
may stand in a place begins with another one that may stand there (`Choices.read_append`), a quoted
name ends where it seems to end, and no point follows a qualified name. So it gives the statement
back, with an empty keyspace taken for none (`readElementary_render`). The main statement,
`statements_are_told_by_their_texts`, says that two such statements have one text just if they are
the same.
-/

namespace CqlDelta
namespace Cql

open Delta Text

/-! ## Statements as far as their texts tell -/

/-- A table's name with an empty keyspace taken for none. -/
def TableName.canonical (table : TableName) : TableName :=
  { table with keyspace := table.keyspace.filter fun keyspace => !keyspace.isEmpty }

/-- A statement with an empty keyspace of its table taken for none. -/
def Statement.canonical : Statement → Statement
  | .createTable table script => .createTable table.canonical script
  | .dropTable table => .dropTable table.canonical
  | .addColumn table column type => .addColumn table.canonical column type
  | .dropColumn table column => .dropColumn table.canonical column
  | .retypeColumn table column type => .retypeColumn table.canonical column type
  | .alterTable table comment options => .alterTable table.canonical comment options
  | statement => statement

/-- Whether a statement drops a table or a type, or changes one column or field. -/
def Statement.isElementary : Statement → Bool
  | .dropTable _ | .addColumn _ _ _ | .dropColumn _ _ | .retypeColumn _ _ _ => true
  | .dropType _ | .addTypeField _ _ | .retypeTypeField _ _ | .renameTypeField _ _ _ => true
  | _ => false

theorem TableName.qualified_canonical (table : TableName) :
    table.canonical.qualified = table.qualified := by
  rw [TableName.qualified, TableName.qualified, qualifiedName, qualifiedName, TableName.canonical,
    Option.filter_filter]
  simp only [Bool.and_self]

theorem alterTableHead_canonical (table : TableName) :
    alterTableHead table.canonical = alterTableHead table := by
  rw [alterTableHead, alterTableHead, TableName.qualified_canonical]

/-- An empty keyspace is not written. -/
theorem Statement.render_canonical (statement : Statement) :
    statement.canonical.render = statement.render := by
  cases statement with
  | dropTable table =>
      exact congrArg (fun name => "DROP TABLE " ++ name ++ ";") table.qualified_canonical
  | addColumn table column type =>
      exact congrArg (fun head => head ++ " ADD " ++ quoteIdentifier column ++ " " ++ type ++ ";")
        (alterTableHead_canonical table)
  | dropColumn table column =>
      exact congrArg (fun head => head ++ " DROP " ++ quoteIdentifier column ++ ";")
        (alterTableHead_canonical table)
  | retypeColumn table column type =>
      exact congrArg
        (fun head => head ++ " ALTER " ++ quoteIdentifier column ++ " TYPE " ++ type ++ ";")
        (alterTableHead_canonical table)
  | alterTable table comment options =>
      exact congrArg
        (fun head => head ++ clauseChain (alterationClauses comment options) ++ ";")
        (alterTableHead_canonical table)
  | _ => rfl

/-! ## Words -/

/-- Neither of two words begins with the other. -/
def Apart (word other : String) : Prop :=
  ¬word.toList <+: other.toList ∧ ¬other.toList <+: word.toList

instance (word other : String) : Decidable (Apart word other) :=
  inferInstanceAs (Decidable (_ ∧ _))

section Choices

variable {α : Type}

/-- Words that may stand in one place, each with how reading goes on behind it. -/
structure Choices (α : Type) where
  readers : List (String × (List Char → Option α))
  apart : (readers.map Prod.fst).Pairwise Apart

/-- Goes on behind the first word that a text begins with. -/
def readByWord : List (String × (List Char → Option α)) → List Char → Option α
  | [], _ => none
  | (word, read) :: others, cs =>
      match cs.dropPrefix? word.toList with
      | some rest => read rest
      | none => readByWord others cs

/-- Reads a word, and goes on as it says. -/
def Choices.read (choices : Choices α) : List Char → Option α :=
  readByWord choices.readers

theorem dropWord_append (word : String) (rest : List Char) :
    (word.toList ++ rest).dropPrefix? word.toList = some rest :=
  List.dropPrefix?_append_of_beq rest (beq_self_eq_true word.toList)

/-- A text that begins with a word does not begin with one apart from it. -/
theorem dropWord_of_apart
    {word other : String}
    (h : Apart other word)
    (rest : List Char) :
    (word.toList ++ rest).dropPrefix? other.toList = none := by
  rw [Option.eq_none_iff_forall_not_mem]
  intro found hfound
  obtain ⟨start, hstart, hother⟩ := List.dropPrefix?_eq_some_iff.mp hfound
  have hbegins : other.toList <+: word.toList ++ rest := by
    rw [hstart, eq_of_beq hother]
    exact List.prefix_append _ _
  exact (List.prefix_or_prefix_of_prefix hbegins (List.prefix_append _ _)).elim h.1 h.2

/-- Reading goes on as the word says that is written. -/
theorem Choices.read_append
    (choices : Choices α)
    {word : String}
    {read : List Char → Option α}
    (hword : (word, read) ∈ choices.readers)
    (rest : List Char) :
    choices.read (word.toList ++ rest) = read rest := by
  obtain ⟨readers, hapart⟩ := choices
  rw [Choices.read]
  -- The words in front of the written one are apart from it, so they are passed over.
  induction readers with
  | nil => cases hword
  | cons choice others ih =>
      rw [List.map_cons, List.pairwise_cons] at hapart
      rw [readByWord]
      cases hword with
      | head => rw [dropWord_append]
      | tail _ hword =>
          rw [dropWord_of_apart (hapart.1 word (List.mem_map_of_mem hword))]
          exact ih hapart.2 hword

end Choices

/-! ## Names and types -/

/-- Reads a quoted name, and what follows it. -/
def readIdentifier (cs : List Char) : Option (String × List Char) :=
  (readEnclosed identifierMark cs).map fun found => (String.ofList found.1, found.2)

/-- Reads a table's name behind its keyspace, if a point shows that there is one, and what follows
them. -/
def readTableName (cs : List Char) : Option (TableName × List Char) := do
  let (name, rest) ← readIdentifier cs
  match rest with
  | '.' :: rest => (readIdentifier rest).map fun found => (⟨some name, found.1⟩, found.2)
  | _ => some (⟨none, name⟩, rest)

/-- Reads a type's name behind its keyspace, and what follows them. -/
def readTypeName (cs : List Char) : Option (TypeName × List Char) :=
  (readTableName cs).map fun found => (⟨found.1.keyspace.getD "", found.1.table⟩, found.2)

/-- Reads the final semicolon. -/
def readEnd (statement : Statement) (cs : List Char) : Option Statement :=
  if cs = ";".toList then some statement else none

/-- Reads a type, which goes up to the final semicolon. -/
def readType (cs : List Char) : Option String :=
  if cs.getLast? = some ';' then some (String.ofList cs.dropLast) else none

/-- Reads a name and, behind a word, a type. -/
def readTyped (word : String) (cs : List Char) : Option (String × String) := do
  let (name, rest) ← readIdentifier cs
  let source ← rest.dropPrefix? word.toList
  let type ← readType source
  return (name, type)

/-- What may follow a qualified name: neither a mark nor a point. -/
def FollowsName (rest : List Char) : Prop :=
  rest.head? ≠ some identifierMark ∧ rest.head? ≠ some '.'

theorem followsName_of_blank
    {rest : List Char}
    (h : rest.head? = some ' ') :
    FollowsName rest := by
  simp [FollowsName, h, identifierMark]

theorem followsName_semicolon : FollowsName ";".toList := by
  simp [FollowsName, identifierMark]

theorem readIdentifier_append
    (name : String)
    {rest : List Char}
    (hrest : rest.head? ≠ some identifierMark) :
    readIdentifier ((quoteIdentifier name).toList ++ rest) = some (name, rest) := by
  rw [readIdentifier, quoteIdentifier, String.toList_ofList, readEnclosed_append _ _ _ hrest]
  simp

theorem readTableName_append
    (table : TableName)
    {rest : List Char}
    (hrest : FollowsName rest) :
    readTableName (table.qualified.toList ++ rest) = some (table.canonical, rest) := by
  rw [TableName.qualified, qualifiedName, TableName.canonical]
  split
  next keyspace hkeyspace =>
    have hpoint : ('.' :: ((quoteIdentifier table.table).toList ++ rest)).head? ≠
        some identifierMark := by simp [identifierMark]
    simp [readTableName, hkeyspace, readIdentifier_append keyspace hpoint,
      readIdentifier_append table.table hrest.1, toString]
  next hkeyspace =>
    simp only [readTableName, hkeyspace, readIdentifier_append table.table hrest.1,
      Option.bind_eq_bind, Option.bind_some]
    split
    next => exact absurd rfl hrest.2
    next => rfl

theorem readTypeName_append
    (type : TypeName)
    {rest : List Char}
    (hrest : FollowsName rest) :
    readTypeName (type.qualified.toList ++ rest) = some (type, rest) := by
  have hkeyspace : ((some type.keyspace).filter fun keyspace => !keyspace.isEmpty).getD "" =
      type.keyspace := by
    cases hempty : type.keyspace.isEmpty <;> simp_all [Option.filter]
  have hread : readTableName (type.qualified.toList ++ rest) = _ :=
    readTableName_append ⟨some type.keyspace, type.type⟩ hrest
  rw [readTypeName, hread, Option.map_some, TableName.canonical, hkeyspace]

theorem readType_append (type : String) : readType (type.toList ++ ";".toList) = some type := by
  simp [readType]

theorem readTyped_append
    {word : String}
    (hword : word.toList.head? = some ' ')
    (name type : String) :
    readTyped word
        ((quoteIdentifier name).toList ++ (word.toList ++ (type.toList ++ ";".toList))) =
      some (name, type) := by
  have hrest : (word.toList ++ (type.toList ++ ";".toList)).head? ≠ some identifierMark := by
    rw [List.head?_append, hword]
    simp [identifierMark]
  simp only [readTyped, readIdentifier_append name hrest, dropWord_append, readType_append,
    Option.bind_eq_bind, Option.bind_some, Option.pure_def]

/-! ## Statements -/

theorem columnWords_apart : [" ADD ", " DROP ", " ALTER "].Pairwise Apart := by
  decide

theorem fieldWords_apart : [" ADD ", " ALTER ", " RENAME "].Pairwise Apart := by
  decide

theorem statementWords_apart :
    ["DROP TABLE ", "DROP TYPE ", "ALTER TABLE ", "ALTER TYPE "].Pairwise Apart := by
  decide

/-- How a column of a table may be changed. -/
def columnChanges (table : TableName) : Choices Statement where
  readers :=
    [ (" ADD ", fun cs =>
        (readTyped " " cs).map fun found => .addColumn table found.1 found.2),
      (" DROP ", fun cs =>
        (readIdentifier cs).bind fun found => readEnd (.dropColumn table found.1) found.2),
      (" ALTER ", fun cs =>
        (readTyped " TYPE " cs).map fun found => .retypeColumn table found.1 found.2) ]
  apart := columnWords_apart

/-- Reads the old and the new name of a field. -/
def readRename (type : TypeName) (cs : List Char) : Option Statement := do
  let (old, rest) ← readIdentifier cs
  let rest ← rest.dropPrefix? " TO ".toList
  let (new, rest) ← readIdentifier rest
  readEnd (.renameTypeField type old new) rest

/-- How a field of a type may be changed. -/
def fieldChanges (type : TypeName) : Choices Statement where
  readers :=
    [ (" ADD ", fun cs =>
        (readTyped " " cs).map fun found => .addTypeField type ⟨found.1, found.2⟩),
      (" ALTER ", fun cs =>
        (readTyped " TYPE " cs).map fun found => .retypeTypeField type ⟨found.1, found.2⟩),
      (" RENAME ", readRename type) ]
  apart := fieldWords_apart

/-- What an elementary statement may do. -/
def elementaryStatements : Choices Statement where
  readers :=
    [ ("DROP TABLE ", fun cs =>
        (readTableName cs).bind fun found => readEnd (.dropTable found.1) found.2),
      ("DROP TYPE ", fun cs =>
        (readTypeName cs).bind fun found => readEnd (.dropType found.1) found.2),
      ("ALTER TABLE ", fun cs =>
        (readTableName cs).bind fun found => (columnChanges found.1).read found.2),
      ("ALTER TYPE ", fun cs =>
        (readTypeName cs).bind fun found => (fieldChanges found.1).read found.2) ]
  apart := statementWords_apart

/-- Reads an elementary statement. -/
def readElementary (cs : List Char) : Option Statement :=
  elementaryStatements.read cs

theorem readRename_append (type : TypeName) (old new : String) :
    readRename type
        ((quoteIdentifier old).toList ++
          (" TO ".toList ++ ((quoteIdentifier new).toList ++ ";".toList))) =
      some (.renameTypeField type old new) := by
  have hto : (" TO ".toList ++ ((quoteIdentifier new).toList ++ ";".toList)).head? ≠
      some identifierMark := (followsName_of_blank rfl).1
  simp only [readRename, readIdentifier_append old hto, dropWord_append,
    readIdentifier_append new followsName_semicolon.1, Option.bind_eq_bind, Option.bind_some]
  rfl

theorem readElementary_alterTable
    (table : TableName)
    {change : List Char}
    (hchange : change.head? = some ' ') :
    readElementary ((alterTableHead table).toList ++ change) =
      (columnChanges table.canonical).read change := by
  have hhead : (alterTableHead table).toList ++ change =
      "ALTER TABLE ".toList ++ (table.qualified.toList ++ change) := by
    rw [← List.append_assoc, ← String.toList_append]
    rfl
  rw [hhead, readElementary, elementaryStatements.read_append (.tail _ (.tail _ (.head _))),
    readTableName_append table (followsName_of_blank hchange), Option.bind_some]

theorem readElementary_alterType
    (type : TypeName)
    {change : List Char}
    (hchange : change.head? = some ' ') :
    readElementary ((alterTypeHead type).toList ++ change) = (fieldChanges type).read change := by
  have hhead : (alterTypeHead type).toList ++ change =
      "ALTER TYPE ".toList ++ (type.qualified.toList ++ change) := by
    rw [← List.append_assoc, ← String.toList_append]
    rfl
  rw [hhead, readElementary,
    elementaryStatements.read_append (.tail _ (.tail _ (.tail _ (.head _)))),
    readTypeName_append type (followsName_of_blank hchange), Option.bind_some]

/-- The text of an elementary statement gives the statement back, with an empty keyspace taken for
none. -/
theorem readElementary_render
    {statement : Statement}
    (h : statement.isElementary = true) :
    readElementary statement.render.toList = some statement.canonical := by
  -- One case for each kind: its text in parts, and then a reading lemma for each part from the left.
  cases statement with
  | dropTable table =>
      have htext : (Statement.dropTable table).render = "DROP TABLE " ++ table.qualified ++ ";" :=
        rfl
      simp only [htext, String.toList_append, List.append_assoc]
      rw [readElementary, elementaryStatements.read_append (.head _),
        readTableName_append table followsName_semicolon]
      rfl
  | dropType type =>
      have htext : (Statement.dropType type).render = "DROP TYPE " ++ type.qualified ++ ";" := rfl
      simp only [htext, String.toList_append, List.append_assoc]
      rw [readElementary, elementaryStatements.read_append (.tail _ (.head _)),
        readTypeName_append type followsName_semicolon]
      rfl
  | addColumn table column type =>
      have htext : (Statement.addColumn table column type).render =
          alterTableHead table ++ " ADD " ++ quoteIdentifier column ++ " " ++ type ++ ";" := rfl
      simp only [htext, String.toList_append, List.append_assoc]
      rw [readElementary_alterTable table rfl, Choices.read_append _ (.head _),
        readTyped_append rfl column type]
      rfl
  | dropColumn table column =>
      have htext : (Statement.dropColumn table column).render =
          alterTableHead table ++ " DROP " ++ quoteIdentifier column ++ ";" := rfl
      simp only [htext, String.toList_append, List.append_assoc]
      rw [readElementary_alterTable table rfl, Choices.read_append _ (.tail _ (.head _)),
        readIdentifier_append column followsName_semicolon.1]
      rfl
  | retypeColumn table column type =>
      have htext : (Statement.retypeColumn table column type).render =
          alterTableHead table ++ " ALTER " ++ quoteIdentifier column ++ " TYPE " ++ type ++ ";" :=
        rfl
      simp only [htext, String.toList_append, List.append_assoc]
      rw [readElementary_alterTable table rfl,
        Choices.read_append _ (.tail _ (.tail _ (.head _))), readTyped_append rfl column type]
      rfl
  | addTypeField type field =>
      have htext : (Statement.addTypeField type field).render =
          alterTypeHead type ++ " ADD " ++ quoteIdentifier field.name ++ " " ++ field.type ++ ";" :=
        rfl
      simp only [htext, String.toList_append, List.append_assoc]
      rw [readElementary_alterType type rfl, Choices.read_append _ (.head _),
        readTyped_append rfl field.name field.type]
      rfl
  | retypeTypeField type field =>
      have htext : (Statement.retypeTypeField type field).render =
          alterTypeHead type ++ " ALTER " ++ quoteIdentifier field.name ++ " TYPE " ++ field.type ++
            ";" := rfl
      simp only [htext, String.toList_append, List.append_assoc]
      rw [readElementary_alterType type rfl, Choices.read_append _ (.tail _ (.head _)),
        readTyped_append rfl field.name field.type]
      rfl
  | renameTypeField type old new =>
      have htext : (Statement.renameTypeField type old new).render =
          alterTypeHead type ++ " RENAME " ++ quoteIdentifier old ++ " TO " ++
            quoteIdentifier new ++ ";" := rfl
      simp only [htext, String.toList_append, List.append_assoc]
      rw [readElementary_alterType type rfl, Choices.read_append _ (.tail _ (.tail _ (.head _))),
        readRename_append type old new]
      rfl
  | _ => cases h

/-- Two elementary statements have one text just if they are the same, an empty keyspace counting as
an absent one. -/
theorem statements_are_told_by_their_texts
    {statement other : Statement}
    (h : statement.isElementary = true)
    (hother : other.isElementary = true) :
    statement.render = other.render ↔ statement.canonical = other.canonical := by
  constructor
  · intro htext
    have hread := readElementary_render h
    rw [htext, readElementary_render hother] at hread
    exact (Option.some.inj hread).symm
  · intro hcanonical
    rw [← statement.render_canonical, hcanonical, other.render_canonical]

/-- A table's name that imitates a keyspace and a name is told from the two, and so are two names
that imitate the word between them. An empty keyspace makes no difference. -/
theorem imitating_names_are_told_apart :
    let imitating : Statement := .dropTable ⟨none, "shop\".\"users"⟩
    let imitated : Statement := .dropTable ⟨some "shop", "users"⟩
    let early : Statement := .renameTypeField ⟨"shop", "address"⟩ "a" "b\" TO \"c"
    let late : Statement := .renameTypeField ⟨"shop", "address"⟩ "a\" TO \"b" "c"
    let unplaced : Statement := .dropTable ⟨some "", "users"⟩
    let bare : Statement := .dropTable ⟨none, "users"⟩
    (∀ statement ∈ [imitating, imitated, early, late, unplaced, bare],
        statement.isElementary = true) ∧
      imitating.render ≠ imitated.render ∧
      early.render ≠ late.render ∧
      unplaced.render = bare.render := by
  intro imitating imitated early late unplaced bare
  refine ⟨by decide, ?imitated, ?shifted, ?unplaced⟩
  case imitated => exact (statements_are_told_by_their_texts rfl rfl).not.mpr (by decide)
  case shifted => exact (statements_are_told_by_their_texts rfl rfl).not.mpr (by decide)
  case unplaced => exact (statements_are_told_by_their_texts rfl rfl).mpr (by decide)

end Cql
end CqlDelta
