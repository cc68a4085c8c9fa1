import CqlDelta.Proofs.Cql.Texts
import CqlDelta.Proofs.Text.BlankLines

/-!
# The lines of statements

If the texts in a statement stand on one line each, then no line of the statement's text is empty,
with one exception: the text of a type that is created without fields has a blank line between its
brackets, and so has that of a table without columns. What is indented has no empty lines, whatever
it is.
-/

namespace CqlDelta
namespace Cql

open Delta Text

/-! ## The texts in a statement -/

/-- The keyspace and the name of a table. -/
def TableName.texts (table : TableName) : List String :=
  table.keyspace.toList ++ [table.table]

/-- The keyspace and the name of a type. -/
def TypeName.texts (type : TypeName) : List String :=
  [type.keyspace, type.type]

/-- The name and the type of a field. -/
def TypeField.texts (field : TypeField) : List String :=
  [field.name, field.type]

/-- The key and the value of a table option. -/
def OptionClause.texts (clause : OptionClause) : List String :=
  [clause.key, clause.value]

/-- The texts in a statement. The settings of a keyspace are left out, since they are indented, and
so is the script of a created table. -/
def Statement.texts : Statement → List String
  | .createKeyspace name _ | .alterKeyspace name _ | .dropKeyspace name => [name]
  | .createTable table _ | .dropTable table => table.texts
  | .addColumn table column type | .retypeColumn table column type =>
      table.texts ++ [column, type]
  | .dropColumn table column => table.texts ++ [column]
  | .alterTable table comment options =>
      table.texts ++ comment.toList ++ options.flatMap OptionClause.texts
  | .createType name fields => name.texts ++ fields.flatMap TypeField.texts
  | .dropType name => name.texts
  | .addTypeField type field | .retypeTypeField type field => type.texts ++ field.texts
  | .renameTypeField type old new => type.texts ++ [old, new]

/-- Something stands between the brackets of a statement that creates a type, and the script of a
created table has no empty lines. -/
def Statement.Filled : Statement → Prop
  | .createTable _ script => Unbroken (terminate script)
  | .createType _ fields => fields ≠ []
  | _ => True

/-! ## Names, types and options -/

theorem oneLine_qualifiedName
    {keyspace : Option String}
    {name : String}
    (hkeyspace : ∀ text, keyspace = some text → OneLine text)
    (hname : OneLine name) :
    OneLine (qualifiedName keyspace name) := by
  rw [qualifiedName]
  split
  · rename_i text htext
    obtain ⟨hgiven, -⟩ := Option.filter_eq_some_iff.mp htext
    have hquoted := oneLine_quoteIdentifier (hkeyspace text hgiven)
    exact (hquoted.append (by decide)).append (oneLine_quoteIdentifier hname)
  · exact oneLine_quoteIdentifier hname

theorem oneLine_qualifiedTable
    {table : TableName}
    (h : ∀ text ∈ table.texts, OneLine text) :
    OneLine table.qualified :=
  oneLine_qualifiedName (fun text htext => h text (by simp [TableName.texts, htext]))
    (h table.table (by simp [TableName.texts]))

theorem oneLine_qualifiedType
    {type : TypeName}
    (h : ∀ text ∈ type.texts, OneLine text) :
    OneLine type.qualified := by
  refine oneLine_qualifiedName (fun text htext => ?_) (h type.type (by simp [TypeName.texts]))
  obtain rfl := Option.some.inj htext
  exact h type.keyspace (by simp [TypeName.texts])

theorem oneLine_optionValue
    {value : String}
    (h : OneLine value) :
    OneLine (optionValue value) := by
  have htrim : '\n' ∉ trim value.toList := fun hmem => h (trim_subset _ hmem)
  rw [optionValue]
  split
  · rwa [OneLine, String.toList_ofList]
  · rw [OneLine, String.toList_ofList]
    exact not_mem_enclose (by decide) htrim

theorem oneLine_option
    {option : OptionClause}
    (h : ∀ text ∈ option.texts, OneLine text) :
    OneLine option.render := by
  simp only [OptionClause.texts, List.forall_mem_cons] at h
  obtain ⟨hkey, hvalue, -⟩ := h
  exact (hkey.append (by decide : OneLine " = ")).append (oneLine_optionValue hvalue)

/-- The type of a declaration stands on one line if its texts and the known names of types do. -/
theorem oneLine_cqlType
    {names : Listing String}
    {declaration : Declaration}
    (hnames : ∀ entry ∈ names, OneLine entry.2)
    (hgiven : ∀ text, some text ∈
      [ declaration.logical, declaration.physical, declaration.element, declaration.mapKey,
        declaration.reference ] → OneLine text) :
    OneLine (cqlType names declaration) := by
  refine cqlType_induction OneLine.append fun {text} hpiece => ?_
  cases hpiece with
  | literal known =>
      have hliterals : ∀ text ∈ typeLiterals, OneLine text := by decide
      exact hliterals text known
  | given among =>
      refine hgiven text ?_
      simp only [List.mem_cons, List.not_mem_nil, or_false] at among ⊢
      tauto
  | @quoted reference refers =>
      refine oneLine_quoteIdentifier ?_
      rw [referencedName]
      cases hname : Listing.get? reference names with
      | some name => exact hnames _ (Listing.mem_of_get? hname)
      | none =>
          refine (hgiven reference (by simp [refers])).of_subset fun c hc => ?_
          rw [Option.getD_none, lastSegment, String.toList_ofList, List.mem_reverse] at hc
          exact List.mem_reverse.mp (List.takeWhile_subset _ hc)

/-! ## Keyspaces and tables -/

theorem unbroken_withSettings
    {head : String}
    (h : Unbroken head)
    (settings : Settings) :
    Unbroken (withSettings head settings) := by
  have hclause : settings.replicationClause ≠ "" := by
    unfold Settings.replicationClause
    simp
  have hdurable : Leads true (durableWritesClause settings.durableWrites) false := by
    cases settings.durableWrites with
    | true => exact (by decide : Leads true ("AND DURABLE_WRITES = " ++ "true") false)
    | false => exact (by decide : Leads true ("AND DURABLE_WRITES = " ++ "false") false)
  have hbreak : Leads false "\n" true := by decide
  have hsettings := (h.append hbreak).append (unbroken_indent hclause)
  exact ((hsettings.append hbreak).append hdurable).append (by decide : Leads false ";" false)

/-- The options of a table may go on a line if each of their clauses stands on one. -/
theorem leads_of_clauses
    {options : String}
    (h : ∀ clause ∈ clauses options, OneLine clause) :
    Leads false options false := by
  have hpieces : ∀ piece ∈ splitAt clauseSeparator options.toList,
      follow? false piece = some false := by
    intro piece hpiece
    have hline := h (String.ofList piece) (List.mem_map_of_mem hpiece)
    rw [OneLine, String.toList_ofList] at hline
    exact follow?_of_not_mem hline
  have hseparator : follow? false clauseSeparator = some false := rfl
  have hjoined := follow?_joinWith hseparator hpieces (splitSkipping_ne_nil _ _ _)
  rwa [joinWith_splitAt (by decide)] at hjoined

/-- A trimmed option text may go on a line if the text itself may. -/
theorem leads_tableClauses
    {table : TableDraft}
    (hoptions : Leads false table.options false)
    (hcomment : OneLine table.comment) :
    ∀ clause ∈ tableClauses table, Leads false clause false := by
  intro clause hclause
  rcases List.mem_append.mp hclause with hoption | hliteral
  · split at hoption
    · simp at hoption
    · obtain rfl := List.mem_singleton.mp hoption
      rw [Leads, String.toList_ofList]
      exact follow?_trim hoptions
  · split at hliteral
    · simp at hliteral
    · obtain rfl := List.mem_singleton.mp hliteral
      exact OneLine.leads
        ((by decide : OneLine "comment = ").append (oneLine_quoteLiteral hcomment))

theorem intercalate_ne_empty
    {separator first : String}
    (h : first ≠ "")
    (more : List String) :
    separator.intercalate (first :: more) ≠ "" := by
  cases more with
  | nil => rwa [String.intercalate_singleton]
  | cons next more => simp [String.intercalate_cons_cons, h]

/-- The text of a table with columns has no empty lines. -/
theorem unbroken_composeTable
    (names : Listing String)
    {draft : Draft}
    {table : TableDraft}
    {more : List TableDraft}
    (htable : draft.tables = table :: more)
    (hcolumns : draft.columnList ≠ [])
    (hname : OneLine (qualifiedName draft.keyspaces.head?.join table.name))
    (hoptions : Leads false table.options false)
    (hcomment : OneLine table.comment) :
    Unbroken (terminate (composeTable names draft)) := by
  have hbody : Unbroken (indent (",\n".intercalate
      (draft.columnList.map (columnLine names)
        ++ (primaryKeyLine? table draft.columnList).toList))) := by
    refine unbroken_indent ?_
    cases hlist : draft.columnList with
    | nil => exact absurd hlist hcolumns
    | cons column columns =>
        have hline : columnLine names column ≠ "" := by
          show quoteIdentifier column.1 ++ " " ++ cqlType names column.2.declaration ≠ ""
          simp
        exact intercalate_ne_empty hline _
  have hhead := Leads.append (by decide : Unbroken "CREATE TABLE IF NOT EXISTS ") hname.leads
  have hopening := hhead.append (by decide : Leads false " (\n" true)
  have hfilled := (hopening.append hbody).append (by decide : Leads false "\n)" false)
  simp only [composeTable, htable]
  show Unbroken (terminate (_ ++ ";"))
  rw [terminate_of_semicolon]
  refine (hfilled.append ?_).append (by decide : Leads false ";" false)
  split
  · exact (by decide : Leads false "" false)
  · rename_i hclauses
    refine (by decide : Leads false "\nWITH " false).append ?_
    exact leads_intercalate (by decide) (leads_tableClauses hoptions hcomment) hclauses

/-! ## Statements -/

/-- A text on one line with a semicolon behind it. -/
theorem unbroken_closed {text : String} (h : OneLine text) : Unbroken (text ++ ";") :=
  (h.append (by decide : OneLine ";")).unbroken (by simp)

theorem oneLine_alterationClauses
    {comment : Option String}
    {options : List OptionClause}
    (hcomment : ∀ text ∈ comment.toList, OneLine text)
    (hoptions : ∀ option ∈ options, ∀ text ∈ option.texts, OneLine text) :
    ∀ clause ∈ alterationClauses comment options, OneLine clause := by
  intro clause hclause
  rcases List.mem_append.mp hclause with hliteral | hoption
  · obtain ⟨text, htext, rfl⟩ := Option.map_eq_some_iff.mp (Option.mem_toList.mp hliteral)
    have hquoted := oneLine_quoteLiteral (hcomment text (Option.mem_toList.mpr htext))
    exact (by decide : OneLine "comment = ").append hquoted
  · obtain ⟨option, hmem, rfl⟩ := List.mem_map.mp hoption
    exact oneLine_option (hoptions option hmem)

theorem leads_clauseChain
    {clauses : List String}
    (h : ∀ clause ∈ clauses, OneLine clause) :
    Leads false (clauseChain clauses) false := by
  cases clauses with
  | nil => exact (by decide : Leads false "" false)
  | cons clause more =>
      refine (by decide : Leads false " WITH " false).append ?_
      exact leads_intercalate (by decide) (fun piece hpiece => (h piece hpiece).leads) (by simp)

theorem unbroken_typeFieldLine
    {field : TypeField}
    (h : ∀ text ∈ field.texts, OneLine text) :
    Unbroken (typeFieldLine field) := by
  simp only [TypeField.texts, List.forall_mem_cons] at h
  obtain ⟨hname, htype, -⟩ := h
  have hline := ((by decide : OneLine "\t").append (oneLine_quoteIdentifier hname)).append
    (by decide : OneLine " ")
  exact (hline.append htype).unbroken (by simp)

/-- If the texts in a statement stand on one line each and something stands between its brackets, no
line of its own text is empty. -/
theorem unbroken_render
    {statement : Statement}
    (htexts : ∀ text ∈ statement.texts, OneLine text)
    (hfilled : statement.Filled) :
    Unbroken statement.render := by
  have hblank : OneLine " " := by decide
  have hadding : OneLine " ADD " := by decide
  have haltering : OneLine " ALTER " := by decide
  have htyping : OneLine " TYPE " := by decide
  have halterTable {table : TableName} (h : ∀ text ∈ table.texts, OneLine text) :
      OneLine (alterTableHead table) :=
    (by decide : OneLine "ALTER TABLE ").append (oneLine_qualifiedTable h)
  have halterType {type : TypeName} (h : ∀ text ∈ type.texts, OneLine text) :
      OneLine (alterTypeHead type) :=
    (by decide : OneLine "ALTER TYPE ").append (oneLine_qualifiedType h)
  simp only [Statement.texts] at htexts
  cases statement with
  | createKeyspace name settings =>
      have hname : OneLine name := htexts name (by simp)
      have hhead := Leads.append (by decide : Unbroken "CREATE KEYSPACE ") hname.leads
      exact unbroken_withSettings hhead settings
  | alterKeyspace name settings =>
      have hname : OneLine name := htexts name (by simp)
      have hhead := Leads.append (by decide : Unbroken "ALTER KEYSPACE ") hname.leads
      exact unbroken_withSettings hhead settings
  | dropKeyspace name =>
      have hname : OneLine name := htexts name (by simp)
      exact unbroken_closed ((by decide : OneLine "DROP KEYSPACE ").append hname)
  | createTable table script => exact hfilled
  | dropTable table =>
      have hdrop : OneLine "DROP TABLE " := by decide
      exact unbroken_closed (hdrop.append (oneLine_qualifiedTable htexts))
  | addColumn table column type =>
      simp only [List.forall_mem_append, List.forall_mem_cons] at htexts
      obtain ⟨htable, hcolumn, htype, -⟩ := htexts
      have hadd := ((halterTable htable).append hadding).append (oneLine_quoteIdentifier hcolumn)
      exact unbroken_closed ((hadd.append hblank).append htype)
  | dropColumn table column =>
      simp only [List.forall_mem_append, List.forall_mem_cons] at htexts
      obtain ⟨htable, hcolumn, -⟩ := htexts
      have hdropping : OneLine " DROP " := by decide
      have hdrop := (halterTable htable).append hdropping
      exact unbroken_closed (hdrop.append (oneLine_quoteIdentifier hcolumn))
  | retypeColumn table column type =>
      simp only [List.forall_mem_append, List.forall_mem_cons] at htexts
      obtain ⟨htable, hcolumn, htype, -⟩ := htexts
      have halter :=
        ((halterTable htable).append haltering).append (oneLine_quoteIdentifier hcolumn)
      exact unbroken_closed ((halter.append htyping).append htype)
  | alterTable table comment options =>
      simp only [List.forall_mem_append, List.forall_mem_flatMap] at htexts
      obtain ⟨⟨htable, hcomment⟩, hoptions⟩ := htexts
      have hhead : Unbroken (alterTableHead table) :=
        (halterTable htable).unbroken (by simp [alterTableHead, toString])
      have hclauses := leads_clauseChain (oneLine_alterationClauses hcomment hoptions)
      exact (Leads.append hhead hclauses).append (by decide : Leads false ";" false)
  | createType name fields =>
      simp only [List.forall_mem_append, List.forall_mem_flatMap] at htexts
      obtain ⟨hname, hfields⟩ := htexts
      have hne : fields ≠ [] := hfilled
      have hlines : ∀ line ∈ fields.map typeFieldLine, Unbroken line := by
        intro line hline
        obtain ⟨field, hfield, rfl⟩ := List.mem_map.mp hline
        exact unbroken_typeFieldLine (hfields field hfield)
      have hhead : Leads true ("CREATE TYPE IF NOT EXISTS " ++ name.qualified) false :=
        Leads.append (by decide) (oneLine_qualifiedType hname).leads
      have hbody := leads_intercalate (by decide : Leads false ",\n" true) hlines
        (by simpa using hne)
      have hopened := hhead.append (by decide : Leads false " (\n" true)
      exact (hopened.append hbody).append (by decide : Leads false "\n);" false)
  | dropType name =>
      have hdrop : OneLine "DROP TYPE " := by decide
      exact unbroken_closed (hdrop.append (oneLine_qualifiedType htexts))
  | addTypeField type field =>
      simp only [List.forall_mem_append, TypeField.texts, List.forall_mem_cons] at htexts
      obtain ⟨htype, hname, hfield, -⟩ := htexts
      have hadd := ((halterType htype).append hadding).append (oneLine_quoteIdentifier hname)
      exact unbroken_closed ((hadd.append hblank).append hfield)
  | retypeTypeField type field =>
      simp only [List.forall_mem_append, TypeField.texts, List.forall_mem_cons] at htexts
      obtain ⟨htype, hname, hfield, -⟩ := htexts
      have halter := ((halterType htype).append haltering).append (oneLine_quoteIdentifier hname)
      exact unbroken_closed ((halter.append htyping).append hfield)
  | renameTypeField type old new =>
      simp only [List.forall_mem_append, List.forall_mem_cons] at htexts
      obtain ⟨htype, hold, hnew, -⟩ := htexts
      have hrenaming : OneLine " RENAME " := by decide
      have hto : OneLine " TO " := by decide
      have hrename :=
        ((halterType htype).append hrenaming).append (oneLine_quoteIdentifier hold)
      exact unbroken_closed ((hrename.append hto).append (oneLine_quoteIdentifier hnew))

/-! ## Brackets with nothing between them -/

theorem hasBlankLine_brackets
    (opening : String)
    {closing : String}
    (hclosing : closing.toList.head? = some '\n') :
    HasBlankLine (opening ++ " (\n" ++ "" ++ closing) := by
  obtain ⟨rest, hrest⟩ := List.head?_eq_some_iff.mp hclosing
  refine ⟨opening.toList ++ [' ', '('], rest, ?_⟩
  simp [blankLine, hrest]

theorem hasBlankLine_createType (name : TypeName) :
    HasBlankLine (Statement.createType name []).render :=
  hasBlankLine_brackets ("CREATE TYPE IF NOT EXISTS " ++ name.qualified) (by decide)

theorem hasBlankLine_composeTable
    (names : Listing String)
    {draft : Draft}
    {table : TableDraft}
    {more : List TableDraft}
    (htable : draft.tables = table :: more)
    (hcolumns : draft.columnList = []) :
    HasBlankLine (terminate (composeTable names draft)) := by
  have hkey : primaryKeyLine? table [] = none := by
    have hnone : keyColumns table.partitionKey [] = [] := by
      simp [keyColumns, columnByGuid?]
    rw [primaryKeyLine?, hnone]
  have hlines : indent (",\n".intercalate ([].map (columnLine names) ++ none.toList)) = "" := rfl
  simp only [composeTable, htable, hcolumns, hkey, hlines]
  show HasBlankLine (terminate (_ ++ ";"))
  rw [terminate_of_semicolon]
  have hbrackets := hasBlankLine_brackets
    ("CREATE TABLE IF NOT EXISTS " ++ qualifiedName draft.keyspaces.head?.join table.name)
    (by decide : "\n)".toList.head? = some '\n')
  exact (hbrackets.append_right _).append_right _

end Cql
end CqlDelta
