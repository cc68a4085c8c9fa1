import CqlDelta.Proofs.Cql.Texts
import CqlDelta.Proofs.Plan.Wording
import CqlDelta.Proofs.Text.Scanning

/-!
# No name breaks out of its statement

Names and comments are quoted wherever a statement of a table or a type takes them up, so its text
is sealed up to the final semicolon whatever they are, as long as the texts that are taken over as
they stand, parts of types and table options, hold no quotation mark and no semicolon
(`statements_of_plan_are_sealed`).
-/

namespace CqlDelta
namespace Plan

open Cql Delta Text

/-- A text is plain if it holds no quotation mark and no semicolon. -/
def Plain (text : String) : Prop :=
  ∀ c ∈ text.toList, isSign c = false

theorem signs_eq_nil_iff {cs : List Char} : signs cs = [] ↔ ∀ c ∈ cs, isSign c = false := by
  simp [signs, List.filter_eq_nil_iff]

instance (text : String) : Decidable (Plain text) :=
  decidable_of_iff (signs text.toList = []) signs_eq_nil_iff

/-- The texts that are taken over as they stand are plain. -/
def PlainFragments (phrases : List Phrase) : Prop :=
  ∀ phrase ∈ phrases, phrase.kind ≠ .name → Plain phrase.content

theorem PlainFragments.subset
    {phrases others : List Phrase}
    (h : PlainFragments phrases)
    (hsubset : others ⊆ phrases) :
    PlainFragments others :=
  fun phrase hphrase => h phrase (hsubset hphrase)

theorem Plain.sealed {text : String} (h : Plain text) : Sealed text :=
  sealed_of_no_signs text (signs_eq_nil_iff.mpr h)

/-! ## Types -/

/-- The name of a referenced type is quoted, and other types are made of plain texts. -/
theorem sealed_cqlType
    (names : Listing String)
    {declaration : Declaration}
    (h : PlainFragments declaration.phrases) :
    Sealed (cqlType names declaration) := by
  refine cqlType_induction Sealed.append fun {text} hpiece => ?_
  cases hpiece with
  | literal known =>
      have hliterals : ∀ text ∈ typeLiterals, signs text.toList = [] := by decide
      exact sealed_of_no_signs text (hliterals text known)
  | given among =>
      have hplain : Plain text :=
        h ⟨.type, text⟩ (by simp [Declaration.phrases, among]) (by simp)
      exact hplain.sealed
  | quoted refers => exact sealed_quoteIdentifier _

/-! ## Options -/

theorem Plain.of_subset
    {text other : String}
    (h : Plain text)
    (hsubset : other.toList ⊆ text.toList) :
    Plain other :=
  fun c hc => h c (hsubset hc)

theorem sealed_optionValue {value : String} (h : Plain value) : Sealed (optionValue value) := by
  rw [optionValue]
  split
  · exact h.sealed.of_signs_eq (by rw [String.toList_ofList, signs_trim])
  · exact sealed_enclose rfl _

/-- The changed options of a table are written without signs of their own. -/
theorem sealed_newOptions
    {change : Change}
    (h : PlainFragments change.phrases) :
    ∀ option ∈ newOptions change, Sealed option.render := by
  intro option hoption
  obtain ⟨options, hoptions, clause, hclause, rfl⟩ := exists_clause_of_mem_newOptions hoption
  have hnew : Plain (options.new.getD "") := by
    cases hgiven : options.new with
    | none => simp [Plain]
    | some text =>
        refine h ⟨.options, text⟩ ?_ (by simp)
        simp [Change.phrases, hoptions, Revision.phrases, hgiven]
  have hplain := hnew.of_subset (subset_of_mem_clauses hclause)
  obtain ⟨hkey, hvalue⟩ := subset_ofText clause
  exact ((hplain.of_subset hkey).sealed.append (sealed_of_no_signs _ rfl)).append
    (sealed_optionValue (hplain.of_subset hvalue))

theorem sealed_clauseChain
    {clauses : List String}
    (h : ∀ clause ∈ clauses, Sealed clause) :
    Sealed (clauseChain clauses) := by
  cases clauses with
  | nil => exact sealed_of_no_signs _ rfl
  | cons clause more =>
      exact (sealed_of_no_signs _ rfl).append (sealed_join (sealed_of_no_signs _ rfl) h)

theorem sealed_alterationClauses
    (comment : Option String)
    {options : List OptionClause}
    (h : ∀ option ∈ options, Sealed option.render) :
    ∀ clause ∈ alterationClauses comment options, Sealed clause := by
  intro clause hclause
  rcases List.mem_append.mp hclause with hcomment | hoption
  · obtain ⟨text, -, rfl⟩ := Option.map_eq_some_iff.mp (Option.mem_toList.mp hcomment)
    exact (sealed_of_no_signs _ rfl).append (sealed_quoteLiteral text)
  · obtain ⟨option, hmem, rfl⟩ := List.mem_map.mp hoption
    exact h option hmem

/-! ## Names -/

theorem sealed_qualifiedName (keyspace : Option String) (name : String) :
    Sealed (qualifiedName keyspace name) := by
  rw [qualifiedName]
  split
  · exact ((sealed_quoteIdentifier _).append (sealed_of_no_signs _ rfl)).append
      (sealed_quoteIdentifier name)
  · exact sealed_quoteIdentifier name

theorem sealed_alterTableHead (table : TableName) : Sealed (alterTableHead table) :=
  (sealed_of_no_signs _ rfl).append (sealed_qualifiedName _ _)

theorem sealed_alterTypeHead (type : TypeName) : Sealed (alterTypeHead type) :=
  (sealed_of_no_signs _ rfl).append (sealed_qualifiedName _ _)

/-! ## Tables -/

theorem sealed_primaryKeyLine?
    {table : TableDraft}
    {columns : Members}
    {line : String}
    (h : primaryKeyLine? table columns = some line) :
    Sealed line := by
  have hkey (key : List String) : ∀ name ∈ keyColumns key columns, Sealed name := by
    intro name hname
    obtain ⟨guid, -, hquoted⟩ := List.mem_filterMap.mp hname
    obtain ⟨column, -, rfl⟩ := Option.map_eq_some_iff.mp hquoted
    exact sealed_quoteIdentifier column
  have hcomma : Sealed ", " := sealed_of_no_signs _ rfl
  have hopening : Sealed "(" := sealed_of_no_signs _ rfl
  have hclosing : Sealed ")" := sealed_of_no_signs _ rfl
  rw [primaryKeyLine?] at h
  split at h
  · simp at h
  · obtain rfl := Option.some.inj h
    have hpartition := sealed_join hcomma (hkey table.partitionKey)
    have hparts := List.forall_mem_cons.mpr
      ⟨(hopening.append hpartition).append hclosing, hkey table.clusteringKey⟩
    exact ((sealed_of_no_signs _ rfl).append (sealed_join hcomma hparts)).append hclosing

theorem sealed_tableClauses
    {table : TableDraft}
    (h : Plain table.options) :
    ∀ clause ∈ tableClauses table, Sealed clause := by
  intro clause hclause
  rcases List.mem_append.mp hclause with hoptions | hcomment
  · split at hoptions
    · simp at hoptions
    · obtain rfl := List.mem_singleton.mp hoptions
      exact h.sealed.of_signs_eq (by rw [String.toList_ofList, signs_trim])
  · split at hcomment
    · simp at hcomment
    · obtain rfl := List.mem_singleton.mp hcomment
      exact (sealed_of_no_signs _ rfl).append (sealed_quoteLiteral _)

/-- The text of a table is sealed up to its semicolon, also after its body was indented. -/
theorem sealed_composeTable
    (names : Listing String)
    {draft : Draft}
    {table : TableDraft}
    {more : List TableDraft}
    (htable : draft.tables = table :: more)
    (hcolumns : ∀ column ∈ draft.columnList, PlainFragments column.2.declaration.phrases)
    (hoptions : Plain table.options) :
    ∃ body, Sealed body ∧ composeTable names draft = body ++ ";" := by
  have hlines : ∀ line ∈ draft.columnList.map (columnLine names)
      ++ (primaryKeyLine? table draft.columnList).toList, Sealed line := by
    intro line hline
    rcases List.mem_append.mp hline with hcolumn | hkey
    · obtain ⟨column, hmem, rfl⟩ := List.mem_map.mp hcolumn
      exact ((sealed_quoteIdentifier _).append (sealed_of_no_signs _ rfl)).append
        (sealed_cqlType names (hcolumns column hmem))
    · exact sealed_primaryKeyLine? (Option.mem_toList.mp hkey)
  have hbody := (sealed_join (sealed_of_no_signs ",\n" rfl) hlines).indent
  have hhead := sealed_qualifiedName draft.keyspaces.head?.join table.name
  have hopening := (sealed_of_no_signs "CREATE TABLE IF NOT EXISTS " rfl).append hhead
  have hfilled := (hopening.append (sealed_of_no_signs " (\n" rfl)).append hbody
  simp only [composeTable, htable]
  refine ⟨_, (hfilled.append (sealed_of_no_signs "\n)" rfl)).append ?_, rfl⟩
  split
  · exact sealed_of_no_signs _ rfl
  · exact (sealed_of_no_signs "\nWITH " rfl).append
      (sealed_join (sealed_of_no_signs "\nAND " rfl) (sealed_tableClauses hoptions))

/-! ## Statements -/

/-- What a statement about a table or a type takes over as it stands is sealed: types, clauses, and
the text of a created table up to its semicolon. -/
def SealedParts : Statement → Prop
  | .createKeyspace _ _ | .alterKeyspace _ _ | .dropKeyspace _ => False
  | .createTable _ script => ∃ body, Sealed body ∧ script = body ++ ";"
  | .addColumn _ _ type | .retypeColumn _ _ type => Sealed type
  | .alterTable _ _ options => ∀ clause ∈ options, Sealed clause.render
  | .createType _ fields => ∀ field ∈ fields, Sealed field.type
  | .addTypeField _ field | .retypeTypeField _ field => Sealed field.type
  | .dropTable _ | .dropColumn _ _ | .dropType _ | .renameTypeField _ _ _ => True

/-- With sealed parts the text of a statement is sealed up to its semicolon, whatever the names in
it. -/
theorem sealed_render
    {statement : Statement}
    (h : SealedParts statement) :
    ∃ body, Sealed body ∧ statement.render = body ++ ";" := by
  have hquoted (name : String) := sealed_quoteIdentifier name
  have hblank := sealed_of_no_signs " " rfl
  have hadding := sealed_of_no_signs " ADD " rfl
  have haltering := sealed_of_no_signs " ALTER " rfl
  have htyping := sealed_of_no_signs " TYPE " rfl
  cases statement with
  | createKeyspace _ _ => exact h.elim
  | alterKeyspace _ _ => exact h.elim
  | dropKeyspace _ => exact h.elim
  | createTable table script =>
      obtain ⟨body, hbody, rfl⟩ := h
      exact ⟨body, hbody, terminate_of_semicolon body⟩
  | dropTable table =>
      exact ⟨_, (sealed_of_no_signs "DROP TABLE " rfl).append (sealed_qualifiedName _ _), rfl⟩
  | addColumn table column type =>
      have hadd := ((sealed_alterTableHead table).append hadding).append (hquoted column)
      exact ⟨_, (hadd.append hblank).append h, rfl⟩
  | dropColumn table column =>
      have hdrop := sealed_of_no_signs " DROP " rfl
      exact ⟨_, ((sealed_alterTableHead table).append hdrop).append (hquoted column), rfl⟩
  | retypeColumn table column type =>
      have halter := ((sealed_alterTableHead table).append haltering).append (hquoted column)
      exact ⟨_, (halter.append htyping).append h, rfl⟩
  | alterTable table comment options =>
      have hclauses := sealed_clauseChain (sealed_alterationClauses comment h)
      exact ⟨_, (sealed_alterTableHead table).append hclauses, rfl⟩
  | createType name fields =>
      have hlines : ∀ line ∈ fields.map typeFieldLine, Sealed line := by
        intro line hline
        obtain ⟨field, hmem, rfl⟩ := List.mem_map.mp hline
        have hname := (sealed_of_no_signs "\t" rfl).append (hquoted field.name)
        exact (hname.append hblank).append (h field hmem)
      have hhead := (sealed_of_no_signs "CREATE TYPE IF NOT EXISTS " rfl).append
        (sealed_qualifiedName name.keyspace name.type)
      have hbody := sealed_join (sealed_of_no_signs ",\n" rfl) hlines
      have hfilled := (hhead.append (sealed_of_no_signs " (\n" rfl)).append hbody
      refine ⟨_, hfilled.append (sealed_of_no_signs "\n)" rfl), ?_⟩
      have hclosing : "\n)" ++ ";" = "\n);" := by decide
      rw [String.append_assoc, hclosing]
      rfl
  | dropType name =>
      exact ⟨_, (sealed_of_no_signs "DROP TYPE " rfl).append (sealed_qualifiedName _ _), rfl⟩
  | addTypeField type field =>
      have hadd := ((sealed_alterTypeHead type).append hadding).append (hquoted field.name)
      exact ⟨_, (hadd.append hblank).append h, rfl⟩
  | retypeTypeField type field =>
      have halter := ((sealed_alterTypeHead type).append haltering).append (hquoted field.name)
      exact ⟨_, (halter.append htyping).append h, rfl⟩
  | renameTypeField type old new =>
      have hrenaming := sealed_of_no_signs " RENAME " rfl
      have hrename := ((sealed_alterTypeHead type).append hrenaming).append (hquoted old)
      exact ⟨_, (hrename.append (sealed_of_no_signs " TO " rfl)).append (hquoted new), rfl⟩

variable {document : Node} {scope : Scope} {entry : String × Node}

theorem sealed_initialFields
    (hplain : PlainFragments document.phrases)
    (hentry : document.Holds entry) :
    ∀ field ∈ initialFields scope entry.2, Sealed field.type := by
  intro field hfield
  obtain ⟨member, hmember, rfl⟩ := List.mem_map.mp hfield
  have hheld := holds_field hentry (List.mem_filter.mp hmember).1
  exact sealed_cqlType _ (hplain.subset hheld.declaration_phrases)

theorem sealed_createdTable
    (hplain : PlainFragments document.phrases)
    (hentry : document.Holds entry)
    {columns : Members}
    (declared : entry.2.properties = some columns)
    (table : TableName) :
    ∃ body, Sealed body ∧
      composeTable scope.names (draftOf table entry.2 columns) = body ++ ";" := by
  refine sealed_composeTable scope.names rfl ?_ ?_
  · intro column hcolumn
    have hlist : (draftOf table entry.2 columns).columnList = columns := by
      simp [draftOf, Draft.columnList, declared]
    have hheld := Node.holds_member hentry.within declared (hlist ▸ hcolumn)
    exact hplain.subset hheld.declaration_phrases
  · cases hoptions : entry.2.element.bind Element.options with
    | none => simp [Plain]
    | some options =>
        obtain ⟨element, helement, hgiven⟩ := Option.bind_eq_some_iff.mp hoptions
        have hmem : ⟨.options, options⟩ ∈ element.phrases := by simp [Element.phrases, hgiven]
        have hown := hentry.own (Node.element_phrases helement hmem)
        simpa [hoptions, Plain] using hplain _ hown (by simp)

/-- What is said of an entry takes over only sealed parts, unless it is said of a keyspace. -/
theorem sealedParts_of_worded
    (hplain : PlainFragments document.phrases)
    (hentry : document.Holds entry)
    {statement : Statement}
    (h : Worded scope entry statement)
    (hkind : isOfKeyspace statement = false) :
    SealedParts statement := by
  cases h with
  | createKeyspace _ => simp [isOfKeyspace] at hkind
  | alterKeyspace _ => simp [isOfKeyspace] at hkind
  | dropKeyspace _ => simp [isOfKeyspace] at hkind
  | createTable changed declared => exact sealed_createdTable hplain hentry declared _
  | dropTable changed => trivial
  | alterTable changed =>
      have hgiven := List.Subset.trans (Node.elementChange_phrases changed) hentry.own
      exact sealed_newOptions (hplain.subset hgiven)
  | addColumn changed declared among =>
      have hheld := Node.holds_member hentry.within declared among
      exact sealed_cqlType _ (hplain.subset hheld.declaration_phrases)
  | dropColumn changed declared among => trivial
  | retypeColumn changed declared among retyped redeclared =>
      have hheld := Node.holds_member hentry.within declared among
      exact sealed_cqlType _ (hplain.subset (redeclared_phrases hheld retyped redeclared))
  | createPlacedType placed among => exact sealed_initialFields hplain hentry
  | createType unplaced => exact sealed_initialFields hplain hentry
  | dropTypeColumn placed among used => trivial
  | dropType placed among => trivial
  | addTypeField placed among declared =>
      exact sealed_cqlType _ (hplain.subset (holds_field hentry declared).declaration_phrases)
  | retypeTypeField placed among declared changed redeclared =>
      have hheld := holds_field hentry declared
      exact sealed_cqlType _ (hplain.subset (redeclared_phrases hheld changed redeclared))
  | renameTypeField placed among declared changed renamed => trivial

/-! ## Whole plans -/

/-- No name breaks out of its statement. Whatever the names and the comments are, the text of each
statement about a table or a type has exactly one semicolon outside quotes, at its end, and no quote
is left open, if the parts of types and the table options of the comparison hold no quotation mark
and no semicolon. -/
theorem statements_of_plan_are_sealed
    (options : Options)
    (names : Listing String)
    (context : Context)
    (document : Node)
    (plan : List Statement)
    (hplain : PlainFragments document.phrases)
    (h : (compile options names context document).result = .ok plan) :
    ∀ statement ∈ plan, isOfKeyspace statement = false →
      IsOneStatement statement.render.toList := by
  rw [result_compile] at h
  obtain ⟨hfault, rfl⟩ := Trail.result_eq_ok_iff.mp h
  intro statement hstatement hkind
  obtain ⟨entry, hentry, hworded⟩ := exists_wording_of_mem hfault hstatement
  obtain ⟨body, hbody, hrender⟩ :=
    sealed_render (sealedParts_of_worded hplain hentry hworded hkind)
  rw [hrender, String.toList_append]
  exact isOneStatement_of_sealed hbody

/-- A created table and a changed type whose names are made of marks and semicolons. -/
def hostileDocument : Node :=
  let key : Declaration := { guid := some "1", inPartitionKey := true, physical := some "uuid" }
  let reference : Declaration := { reference := some "#/definitions/a\"; DROP TABLE b" }
  let created : Change := { created := true, keyspace := some "shop\";" }
  let table : Node :=
    { element := some { change := some created, comment := some "it's; --\"" }
      properties := some [("id';", { declaration := key }), ("\"", { declaration := reference })] }
  let changed : Change := { placement := some [("'shop;", [])] }
  let field : Node := { declaration := { physical := some "int" } }
  let type : Node := { change := some changed, properties := some [("\";\"", field)] }
  { definitions := some { added := some (listed "';\"" type) }
    added := some (listed "users\" (" table) }

theorem hostile_names_are_sealed :
    let table :=
      "CREATE TABLE IF NOT EXISTS \"shop\"\";\".\"users\"\" (\" (\n\t\"id';\" uuid,\n"
        ++ "\t\"\"\"\" frozen<\"a\"\"; DROP TABLE b\">,\n\tPRIMARY KEY ((\"id';\"))\n)\n"
        ++ "WITH comment = 'it''s; --\"';"
    let plan : List Statement :=
      [ .addTypeField ⟨"'shop;", "';\""⟩ ⟨"\";\"", "int"⟩,
        .createTable ⟨some "shop\";", "users\" ("⟩ table ]
    (compile {} [] {} hostileDocument).result = .ok plan ∧
      ∀ statement ∈ plan, IsOneStatement statement.render.toList := by
  intro table plan
  have hresult : (compile {} [] {} hostileDocument).result = .ok plan := by decide +kernel
  have hplain : PlainFragments hostileDocument.phrases := by
    unfold PlainFragments
    decide +kernel
  have hkinds : ∀ statement ∈ plan, isOfKeyspace statement = false := by decide
  exact ⟨hresult, fun statement hstatement =>
    statements_of_plan_are_sealed {} [] {} hostileDocument plan hplain hresult statement hstatement
      (hkinds statement hstatement)⟩

end Plan
end CqlDelta
