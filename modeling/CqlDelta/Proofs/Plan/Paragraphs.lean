import CqlDelta.Proofs.Cql.StatementLines
import CqlDelta.Proofs.Plan.Removals
import CqlDelta.Proofs.Plan.Wording

/-!
# The paragraphs of a script

A script puts a blank line behind each of its statements, and is taken apart again at blank lines.
This gives back the texts of the statements if no text of the comparison brings in line breaks of
its own and no entry is hollow (`script_falls_into_statements_iff`). An entry is hollow if it creates
a table without columns or a type without fields of its own: then there is a blank line between the
brackets of its statement, and the statement falls into two (`fieldless_type_falls_apart`).
-/

namespace CqlDelta
namespace Plan

open Cql Delta Text

/-- Texts stand on one line each, except that the clauses of table options stand on lines of their
own. -/
structure OneLined (phrases : List Phrase) : Prop where
  texts : ∀ phrase ∈ phrases, phrase.kind ≠ .options → OneLine phrase.content
  options : ∀ phrase ∈ phrases, phrase.kind = .options →
    ∀ clause ∈ clauses phrase.content, OneLine clause

theorem OneLined.subset
    {phrases others : List Phrase}
    (h : OneLined phrases)
    (hsubset : others ⊆ phrases) :
    OneLined others where
  texts := fun phrase hphrase => h.texts phrase (hsubset hphrase)
  options := fun phrase hphrase => h.options phrase (hsubset hphrase)

/-- A name of a comparison stands on one line. -/
theorem OneLined.name
    {phrases : List Phrase}
    (h : OneLined phrases)
    {text : String}
    (hmem : ⟨.name, text⟩ ∈ phrases) :
    OneLine text :=
  h.texts ⟨.name, text⟩ hmem (by simp)

/-! ## The texts of a statement -/

theorem oneLine_declaredType
    {names : Listing String}
    (hnames : ∀ entry ∈ names, OneLine entry.2)
    {declaration : Declaration}
    (h : OneLined declaration.phrases) :
    OneLine (cqlType names declaration) := by
  refine oneLine_cqlType hnames fun text htext => ?_
  rw [List.mem_cons, List.mem_cons, List.mem_cons, List.mem_cons, List.mem_singleton,
    ← or_assoc, ← or_assoc, ← or_assoc] at htext
  rcases htext with hpart | hreference
  · exact h.texts ⟨.type, text⟩ (by simpa [Declaration.phrases, or_assoc] using hpart) (by simp)
  · exact h.texts ⟨.name, text⟩ (by simp [Declaration.phrases, hreference]) (by simp)

/-- The changed options of a table are made of single clauses. -/
theorem oneLine_newOptions
    {change : Change}
    (h : OneLined change.phrases) :
    ∀ option ∈ newOptions change, ∀ text ∈ option.texts, OneLine text := by
  intro option hoption
  obtain ⟨options, hoptions, clause, hclause, rfl⟩ := exists_clause_of_mem_newOptions hoption
  have hline : OneLine clause := by
    cases hgiven : options.new with
    | none =>
        rw [hgiven] at hclause
        obtain rfl : clause = "" := by simpa [clauses, splitAt, splitSkipping] using hclause
        decide
    | some text =>
        rw [hgiven] at hclause
        refine h.options ⟨.options, text⟩ ?_ rfl clause hclause
        simp [Change.phrases, hoptions, Revision.phrases, hgiven]
  obtain ⟨hkey, hvalue⟩ := subset_ofText clause
  simp only [OptionClause.texts, List.forall_mem_cons]
  exact ⟨hline.of_subset hkey, hline.of_subset hvalue, by simp⟩

theorem Revision.mem_phrases_of_changed
    {revision : Revision}
    {names : String × String}
    (h : revision.changed? = some names) :
    ⟨.name, names.1⟩ ∈ revision.phrases .name ∧ ⟨.name, names.2⟩ ∈ revision.phrases .name := by
  rw [Revision.changed?] at h
  split at h
  · rename_i old new hold hnew
    split at h
    · simp at h
    · obtain rfl := Option.some.inj h
      simp [Revision.phrases, hold, hnew]
  · simp at h

/-- The names of a change that differ are names that it gives. -/
theorem mem_phrases_of_renamed
    {change : Change}
    {names : String × String}
    (h : change.name.bind Revision.changed? = some names) :
    ⟨.name, names.1⟩ ∈ change.phrases ∧ ⟨.name, names.2⟩ ∈ change.phrases := by
  obtain ⟨revision, hgiven, hchanged⟩ := Option.bind_eq_some_iff.mp h
  obtain ⟨hold, hnew⟩ := Revision.mem_phrases_of_changed hchanged
  constructor
  · simp [Change.phrases, hgiven, hold]
  · simp [Change.phrases, hgiven, hnew]

/-! ## The texts of an entry -/

section Entries

variable {document : Node} {entry : String × Node}
variable (hdocument : OneLined document.phrases) (hentry : document.Holds entry)
include hdocument hentry

/-- A name that an entry gives itself stands on one line. -/
theorem oneLine_own {text : String} (h : ⟨.name, text⟩ ∈ entry.2.ownPhrases) : OneLine text :=
  hdocument.name (hentry.own h)

theorem oneLine_elementName
    {element : Element}
    (declared : entry.2.element = some element) :
    OneLine (element.name.getD entry.1) := by
  cases hgiven : element.name with
  | none => exact hdocument.name hentry.name
  | some text =>
      refine oneLine_own hdocument hentry (Node.element_phrases declared ?_)
      simp [Element.phrases, hgiven]

theorem oneLine_tableName
    {change : Change}
    (changed : entry.2.elementChange? = some change) :
    ∀ text ∈ (TableName.mk change.keyspace entry.1).texts, OneLine text := by
  rw [TableName.texts, List.forall_mem_append]
  refine ⟨fun keyspace hkeyspace => ?_, by simpa using hdocument.name hentry.name⟩
  have hgiven : change.keyspace = some keyspace := Option.mem_toList.mp hkeyspace
  refine oneLine_own hdocument hentry (Node.elementChange_phrases changed ?_)
  simp [Change.phrases, hgiven]

/-- The keyspaces and the tables of a placement stand on one line each. -/
theorem oneLine_home
    {placement : Placement}
    (placed : entry.2.placement? = some placement)
    {home : String × List TableUse}
    (among : home ∈ placement) :
    OneLine home.1 ∧ ∀ use ∈ home.2, OneLine use.table := by
  have hgiven {text : String}
      (hmem : ⟨.name, text⟩ ∈
        phrasesOf .name (some home.1 :: home.2.map fun use => some use.table)) :
      OneLine text :=
    oneLine_own hdocument hentry
      (Node.placement_phrases placed (List.mem_flatMap.mpr ⟨home, among, hmem⟩))
  constructor
  · exact hgiven (by simp)
  · intro use hused
    exact hgiven (by simpa using .inr ⟨use, hused, rfl⟩)

theorem oneLine_keyspace
    {placement : Placement}
    (placed : entry.2.placement? = some placement)
    {keyspace : String}
    (among : keyspace ∈ placement.names) :
    OneLine keyspace := by
  obtain ⟨home, hhome, rfl⟩ := List.mem_map.mp among
  exact (oneLine_home hdocument hentry placed hhome).1

theorem oneLine_newComment
    {change : Change}
    (changed : entry.2.elementChange? = some change) :
    ∀ comment ∈ (newComment? change).toList, OneLine comment := by
  intro comment hcomment
  obtain ⟨names, hrevised, rfl⟩ := Option.map_eq_some_iff.mp (Option.mem_toList.mp hcomment)
  obtain ⟨revision, hgiven, hrevised⟩ := Option.bind_eq_some_iff.mp hrevised
  have hmem := (Revision.mem_phrases_of_changed hrevised).2
  refine oneLine_own hdocument hentry (Node.elementChange_phrases changed ?_)
  simp [Change.phrases, hgiven, hmem]

theorem oneLine_changedOptions
    {change : Change}
    (changed : entry.2.elementChange? = some change) :
    ∀ option ∈ newOptions change, ∀ text ∈ option.texts, OneLine text :=
  oneLine_newOptions (hdocument.subset
    (List.Subset.trans (Node.elementChange_phrases changed) hentry.own))

/-- The names between which a field is renamed stand on one line each. -/
theorem oneLine_renamed
    {change : Change}
    (changed : change ∈ entry.2.changes)
    {names : String × String}
    (renamed : change.name.bind Revision.changed? = some names) :
    OneLine names.1 ∧ OneLine names.2 := by
  obtain ⟨hold, hnew⟩ := mem_phrases_of_renamed renamed
  have hgiven := Node.change_phrases changed
  exact ⟨oneLine_own hdocument hentry (hgiven hold), oneLine_own hdocument hentry (hgiven hnew)⟩

variable {names : Listing String} (hnames : ∀ known ∈ names, OneLine known.2)
include hnames

theorem oneLine_entryType : OneLine (cqlType names entry.2.declaration) :=
  oneLine_declaredType hnames (hdocument.subset hentry.declaration_phrases)

theorem oneLine_retype
    {change : Change}
    (changed : change ∈ entry.2.changes)
    {sides : Declaration × Declaration}
    (redeclared : declarations? change = some sides) :
    OneLine (cqlType names sides.2) :=
  oneLine_declaredType hnames (hdocument.subset (redeclared_phrases hentry changed redeclared))

end Entries

variable {document : Node} {scope : Scope} {entry : String × Node}

theorem oneLine_initialFields
    (hnames : ∀ known ∈ scope.names, OneLine known.2)
    (hdocument : OneLined document.phrases)
    (hentry : document.Holds entry) :
    ∀ text ∈ (initialFields scope entry.2).flatMap TypeField.texts, OneLine text := by
  rw [List.forall_mem_flatMap]
  intro field hfield
  obtain ⟨member, hmember, rfl⟩ := List.mem_map.mp hfield
  have hheld := holds_field hentry (List.mem_filter.mp hmember).1
  simp only [TypeField.texts, typeField, List.forall_mem_cons, List.mem_singleton, forall_eq]
  exact ⟨hdocument.name hheld.name, oneLine_entryType hdocument hheld hnames⟩

/-- The texts in what is said of an entry stand on one line each. -/
theorem oneLine_of_worded
    (hdefault : OneLine scope.options.defaultKeyspace)
    (hnames : ∀ known ∈ scope.names, OneLine known.2)
    (hdocument : OneLined document.phrases)
    (hentry : document.Holds entry)
    {statement : Statement}
    (h : Worded scope entry statement) :
    ∀ text ∈ statement.texts, OneLine text := by
  have hname : OneLine entry.1 := hdocument.name hentry.name
  cases h with
  | createKeyspace declared =>
      simpa [Statement.texts] using oneLine_elementName hdocument hentry declared
  | alterKeyspace declared =>
      simpa [Statement.texts] using oneLine_elementName hdocument hentry declared
  | dropKeyspace declared =>
      simpa [Statement.texts] using oneLine_elementName hdocument hentry declared
  | createTable changed declared => exact oneLine_tableName hdocument hentry changed
  | dropTable changed => exact oneLine_tableName hdocument hentry changed
  | alterTable changed =>
      simp only [Statement.texts, List.forall_mem_append, List.forall_mem_flatMap]
      exact ⟨⟨oneLine_tableName hdocument hentry changed,
        oneLine_newComment hdocument hentry changed⟩,
        oneLine_changedOptions hdocument hentry changed⟩
  | addColumn changed declared among =>
      have hheld := Node.holds_member hentry.within declared among
      simp only [Statement.texts, List.forall_mem_append, List.forall_mem_cons,
        List.mem_singleton, forall_eq]
      exact ⟨oneLine_tableName hdocument hentry changed, hdocument.name hheld.name,
        oneLine_entryType hdocument hheld hnames⟩
  | dropColumn changed declared among =>
      have hheld := Node.holds_member hentry.within declared among
      simp only [Statement.texts, List.forall_mem_append, List.mem_singleton, forall_eq]
      exact ⟨oneLine_tableName hdocument hentry changed, hdocument.name hheld.name⟩
  | retypeColumn changed declared among retyped redeclared =>
      have hheld := Node.holds_member hentry.within declared among
      simp only [Statement.texts, List.forall_mem_append, List.forall_mem_cons,
        List.mem_singleton, forall_eq]
      exact ⟨oneLine_tableName hdocument hentry changed, hdocument.name hheld.name,
        oneLine_retype hdocument hheld hnames retyped redeclared⟩
  | createPlacedType placed among =>
      simp only [Statement.texts, TypeName.texts, List.forall_mem_append, List.forall_mem_cons,
        List.mem_singleton, forall_eq]
      exact ⟨⟨oneLine_keyspace hdocument hentry placed among, hname⟩,
        oneLine_initialFields hnames hdocument hentry⟩
  | createType unplaced =>
      simp only [Statement.texts, TypeName.texts, List.forall_mem_append, List.forall_mem_cons,
        List.mem_singleton, forall_eq]
      exact ⟨⟨hdefault, hname⟩, oneLine_initialFields hnames hdocument hentry⟩
  | dropTypeColumn placed among used =>
      obtain ⟨hhome, huses⟩ := oneLine_home hdocument hentry placed among
      simp only [Statement.texts, TableName.texts, Option.toList_some, List.forall_mem_append,
        List.mem_singleton, forall_eq]
      exact ⟨⟨hhome, huses _ used⟩, hname⟩
  | dropType placed among =>
      simp only [Statement.texts, TypeName.texts, List.forall_mem_cons, List.mem_singleton,
        forall_eq]
      exact ⟨oneLine_keyspace hdocument hentry placed among, hname⟩
  | addTypeField placed among declared =>
      have hheld := holds_field hentry declared
      simp only [Statement.texts, TypeName.texts, TypeField.texts, typeField,
        List.forall_mem_append, List.forall_mem_cons, List.mem_singleton, forall_eq]
      exact ⟨⟨oneLine_keyspace hdocument hentry placed among, hname⟩, hdocument.name hheld.name,
        oneLine_entryType hdocument hheld hnames⟩
  | @retypeTypeField placement keyspace field change sides placed among declared changed
      redeclared =>
      have hheld := holds_field hentry declared
      -- a field that is renamed as well is retyped under its old name
      have hcurrent :
          OneLine (((change.name.bind Revision.changed?).map Prod.fst).getD field.1) := by
        cases hrenamed : change.name.bind Revision.changed? with
        | none => exact hdocument.name hheld.name
        | some names => exact (oneLine_renamed hdocument hheld changed hrenamed).1
      simp only [Statement.texts, TypeName.texts, TypeField.texts, List.forall_mem_append,
        List.forall_mem_cons, List.mem_singleton, forall_eq]
      exact ⟨⟨oneLine_keyspace hdocument hentry placed among, hname⟩, hcurrent,
        oneLine_retype hdocument hheld hnames changed redeclared⟩
  | renameTypeField placed among declared changed renamed =>
      have hheld := holds_field hentry declared
      obtain ⟨hold, hnew⟩ := oneLine_renamed hdocument hheld changed renamed
      simp only [Statement.texts, TypeName.texts, List.forall_mem_append, List.forall_mem_cons,
        List.mem_singleton, forall_eq]
      exact ⟨⟨oneLine_keyspace hdocument hentry placed among, hname⟩, hold, hnew⟩

/-! ## Brackets with nothing between them -/

/-- An entry creates a table without columns, or somewhere a type without fields of its own: fields
that refer to other types are not among those with which a type is created. -/
inductive Hollow (spot : Spot) (entry : String × Node) : Prop
  | table {change : Change}
      (inTables : isTablePart spot.part = true)
      (changed : entry.2.elementChange? = some change)
      (kept : change.deleted = false)
      (created : change.created = true)
      (declared : entry.2.properties = some [])
  | type
      (inTypes : spot.part = .definitions)
      (behind : spot.nested.getLast? = some (.part .added))
      (created : isCreated entry.2 = true)
      (fieldless : ∀ field ∈ fieldsOf entry.2, field.2.declaration.reference ≠ none)
      (somewhere : ∀ placement, entry.2.placement? = some placement → placement ≠ [])

theorem initialFields_eq_nil_iff
    {type : Node} :
    initialFields scope type = [] ↔
      ∀ field ∈ fieldsOf type, field.2.declaration.reference ≠ none := by
  simp [initialFields, List.filter_eq_nil_iff]

/-- What a hollow entry leads to has a blank line in it. -/
theorem exists_hasBlankLine_of_hollow
    (scope : Scope)
    {spot : Spot}
    (h : Hollow spot entry) :
    ∃ statement ∈ (spot.trail scope entry).statements, HasBlankLine statement.render := by
  cases h with
  | @table change inTables changed kept created declared =>
      obtain ⟨edit, hedit⟩ := Spot.trail_of_tables inTables
      have hcreate : entryTrail scope edit entry =
          createTrail scope ⟨change.keyspace, entry.1⟩ entry.2 [] := by
        simp [entryTrail, changed, kept, declared, created]
      rw [hedit, hcreate]
      refine ⟨_, List.mem_singleton_self _, hasBlankLine_composeTable scope.names rfl ?_⟩
      simp [draftOf, Draft.columnList, declared]
  | type inTypes behind created fieldless somewhere =>
      obtain ⟨passages, part, nested, index⟩ := spot
      obtain rfl : part = .definitions := inTypes
      have hfields : initialFields scope entry.2 = [] := initialFields_eq_nil_iff.mpr fieldless
      have hcreate (keyspace : String)
          (hevent : .statement (.createType ⟨keyspace, entry.1⟩ []) ∈ addedType scope entry) :
          ∃ statement ∈ statementsOf (addedType scope entry), HasBlankLine statement.render :=
        ⟨_, mem_statementsOf_iff.mpr hevent, hasBlankLine_createType _⟩
      simp only [Spot.trail, behind]
      show ∃ statement ∈ statementsOf (addedType scope entry), HasBlankLine statement.render
      cases hplaced : entry.2.placement? with
      | none =>
          refine hcreate scope.options.defaultKeyspace ?_
          simp [addedType, created, createType, hplaced, hfields]
      | some placement =>
          cases placement with
          | nil => exact absurd rfl (somewhere [] hplaced)
          | cons home more =>
              refine hcreate home.1 ?_
              simp [addedType, created, createType, hplaced, hfields, Listing.names]

/-- Only an entry of a section of tables that is marked as created creates a table. -/
theorem created_of_createTable
    {spot : Spot}
    {table : TableName}
    {script : String}
    (h : .createTable table script ∈ (spot.trail scope entry).statements) :
    isTablePart spot.part = true ∧
      ∃ change, entry.2.elementChange? = some change ∧ change.deleted = false ∧
        change.created = true := by
  generalize hstatement : Statement.createTable table script = statement at h
  cases saidAt_of_mem h with
  | keyspace inKeyspaces said =>
      have hkeyspace := isOfKeyspace_of_keyspaceStatement? said
      simp [← hstatement, isOfKeyspace] at hkeyspace
  | type inTypes behind said => cases said <;> simp at hstatement
  | table inTables edits said =>
      cases said with
      | drop changed deleted => simp at hstatement
      | create changed kept created declared => exact ⟨inTables, _, changed, kept, created⟩
      | alter changed kept present declared said => cases said <;> simp at hstatement

/-- Only an entry of a part `added` that is marked as created creates a type. -/
theorem created_of_createType
    {spot : Spot}
    {name : TypeName}
    {fields : List TypeField}
    (h : .createType name fields ∈ (spot.trail scope entry).statements) :
    spot.part = .definitions ∧ spot.nested.getLast? = some (.part .added) ∧
      isCreated entry.2 = true := by
  generalize hstatement : Statement.createType name fields = statement at h
  cases saidAt_of_mem h with
  | keyspace inKeyspaces said =>
      have hkeyspace := isOfKeyspace_of_keyspaceStatement? said
      simp [← hstatement, isOfKeyspace] at hkeyspace
  | type inTypes behind said =>
      cases said with
      | create keyspace fields created => exact ⟨inTypes, behind, created⟩
      | _ => simp at hstatement
  | table inTables edits said =>
      cases said with
      | drop changed deleted => simp at hstatement
      | create changed kept created declared => simp at hstatement
      | alter changed kept present declared said => cases said <;> simp at hstatement

/-- The script of a created table with columns has no empty lines. -/
theorem filled_createTable
    {names : Listing String}
    {table : TableName}
    {columns : Members}
    (hdocument : OneLined document.phrases)
    (hentry : document.Holds entry)
    (htable : ∀ text ∈ table.texts, OneLine text)
    (declared : entry.2.properties = some columns)
    (hne : columns ≠ []) :
    Unbroken (terminate (composeTable names (draftOf table entry.2 columns))) := by
  have hlist : (draftOf table entry.2 columns).columnList = columns := by
    simp [draftOf, Draft.columnList, declared]
  refine unbroken_composeTable names rfl (hlist ▸ hne) (oneLine_qualifiedTable htable) ?options
    ?comment
  case options =>
    refine leads_of_clauses ?_
    cases hgiven : entry.2.element.bind Element.options with
    | none => simp [clauses, splitAt, splitSkipping, OneLine]
    | some text =>
        obtain ⟨element, helement, htext⟩ := Option.bind_eq_some_iff.mp hgiven
        have hmem : ⟨.options, text⟩ ∈ element.phrases := by simp [Element.phrases, htext]
        have hclauses := hdocument.options _ (hentry.own (Node.element_phrases helement hmem)) rfl
        simpa [draftOf, hgiven] using hclauses
  case comment =>
    cases hgiven : entry.2.element.bind Element.comment with
    | none => simp [OneLine]
    | some text =>
        obtain ⟨element, helement, htext⟩ := Option.bind_eq_some_iff.mp hgiven
        have hmem : ⟨.name, text⟩ ∈ element.phrases := by simp [Element.phrases, htext]
        simpa [draftOf, hgiven] using
          hdocument.name (hentry.own (Node.element_phrases helement hmem))

/-- Unless an entry is hollow, something stands between the brackets of what is said of it. -/
theorem filled_of_mem
    {spot : Spot}
    (hdocument : OneLined document.phrases)
    (hentry : document.Holds entry)
    (hfilled : ¬Hollow spot entry)
    {statement : Statement}
    (htexts : ∀ text ∈ statement.texts, OneLine text)
    (h : statement ∈ (spot.trail scope entry).statements) :
    statement.Filled := by
  cases worded_of_mem h with
  | createTable changed declared =>
      refine filled_createTable hdocument hentry htexts declared ?_
      rintro rfl
      obtain ⟨inTables, change, changed, kept, created⟩ := created_of_createTable h
      exact hfilled (.table inTables changed kept created declared)
  | createPlacedType placed among =>
      intro hfields
      obtain ⟨inTypes, behind, created⟩ := created_of_createType h
      refine hfilled (.type inTypes behind created (initialFields_eq_nil_iff.mp hfields) ?_)
      rintro placement hplaced rfl
      obtain rfl := Option.some.inj (placed.symm.trans hplaced)
      simp [Listing.names] at among
  | createType unplaced =>
      intro hfields
      obtain ⟨inTypes, behind, created⟩ := created_of_createType h
      refine hfilled (.type inTypes behind created (initialFields_eq_nil_iff.mp hfields) ?_)
      simp [unplaced]
  | _ => trivial

/-! ## Whole scripts -/

theorem renderScript_eq_scriptOf (plan : List Statement) :
    renderScript plan = scriptOf (plan.map Statement.render) := by
  rw [renderScript, scriptOf, List.map_map]
  rfl

/-- If all texts that a plan is made of stand on one line each, up to the clauses of table options,
then the script of the plan falls at its blank lines into the texts of the statements, provided that
no entry creates a table without columns or a type without fields of its own; and only then. -/
theorem script_falls_into_statements_iff
    (options : Options)
    (names : Listing String)
    (context : Context)
    (document : Node)
    (plan : List Statement)
    (hdefault : OneLine options.defaultKeyspace)
    (hnames : ∀ entry ∈ names, OneLine entry.2)
    (hdocument : OneLined document.phrases)
    (h : (compile options names context document).result = .ok plan) :
    paragraphs (renderScript plan) = plan.map Statement.render ↔
      ∀ spot entry, StandsAt document spot entry → ¬Hollow spot entry := by
  rw [result_compile] at h
  obtain ⟨hfault, rfl⟩ := Trail.result_eq_ok_iff.mp h
  constructor
  · intro hscript spot entry hstands hhollow
    obtain ⟨statement, hsaid, hblank⟩ :=
      exists_hasBlankLine_of_hollow (scopeIn options names context) hhollow
    have hplanned := mem_statements_of_stands hfault hstands hsaid
    have hpiece : statement.render ∈ paragraphs _ :=
      hscript.symm ▸ List.mem_map_of_mem hplanned
    exact not_hasBlankLine_of_mem_paragraphs hpiece hblank
  · intro hhollow
    rw [renderScript_eq_scriptOf]
    refine paragraphs_script fun text htext => ?_
    obtain ⟨statement, hstatement, rfl⟩ := List.mem_map.mp htext
    obtain ⟨spot, entry, hstands, hsaid⟩ := exists_entry_of_mem_statements hfault hstatement
    have htexts := oneLine_of_worded hdefault hnames hdocument hstands.holds (worded_of_mem hsaid)
    exact unbroken_render htexts
      (filled_of_mem hdocument hstands.holds (hhollow spot entry hstands) htexts hsaid)

/-- A created type with a field, and a table of which two options change. -/
def filledDocument : Node :=
  let created : Change := { created := true, placement := some [("shop", [])] }
  let city : Node := { declaration := { physical := some "text" } }
  let address : Node := { change := some created, properties := some [("city", city)] }
  let options : Revision := ⟨some "gc = 1\nAND ttl = 2", some "gc = 0"⟩
  let users : Node :=
    { element := some { change := some { options := some options } }, properties := some [] }
  { definitions := some { added := some (listed "address" address) }
    modified := some (listed "users" users) }

theorem script_of_type_and_table_falls_into_both :
    let plan : List Statement :=
      [ .createType ⟨"shop", "address"⟩ [⟨"city", "text"⟩],
        .alterTable ⟨none, "users"⟩ none [⟨"gc", "1"⟩, ⟨"ttl", "2"⟩] ]
    (compile {} [] {} filledDocument).result = .ok plan ∧
      paragraphs (renderScript plan) = plan.map Statement.render ∧
      ∀ spot entry, StandsAt filledDocument spot entry → ¬Hollow spot entry := by
  intro plan
  have hresult : (compile {} [] {} filledDocument).result = .ok plan := by decide +kernel
  have hdocument : OneLined filledDocument.phrases :=
    ⟨by decide +kernel, by decide +kernel⟩
  have hscript : paragraphs (renderScript plan) = plan.map Statement.render := by decide +kernel
  exact ⟨hresult, hscript,
    (script_falls_into_statements_iff {} [] {} filledDocument plan (by decide) (by simp) hdocument
      hresult).mp hscript⟩

/-- A created type without fields. -/
def fieldlessDocument : Node :=
  { definitions := some { added := some (listed "t" { change := some { created := true } }) } }

theorem fieldless_type_falls_apart :
    let plan : List Statement := [.createType ⟨"Default_Keyspace", "t"⟩ []]
    (compile {} [] {} fieldlessDocument).result = .ok plan ∧
      OneLined fieldlessDocument.phrases ∧
      paragraphs (renderScript plan) =
        ["CREATE TYPE IF NOT EXISTS \"Default_Keyspace\".\"t\" (", ");"] ∧
      paragraphs (renderScript plan) ≠ plan.map Statement.render := by
  refine ⟨by decide +kernel, ⟨by decide +kernel, by decide +kernel⟩, by decide +kernel,
    by decide +kernel⟩

end Plan
end CqlDelta
