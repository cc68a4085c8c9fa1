import CqlDelta.Proofs.Delta.Distinct
import CqlDelta.Proofs.Plan.EntryStatements
import CqlDelta.Text.Lines

/-!
# Dependencies between statements

A statement refers to the keyspace and the type that it is about or in which its table or type is
placed, and to the types of the columns and fields that it declares. Statements are in order if none
refers to an object before it is created or after it is dropped. A plan keeps to this order inside
each of its blocks; between blocks the fixed order of the walk decides, which does not look at
dependencies.
-/

namespace CqlDelta
namespace Plan

open Cql Delta

/-! ## What a statement refers to -/

/-- What other statements depend on. -/
inductive SchemaObject where
  | keyspace (name : String)
  | type (name : TypeName)
deriving DecidableEq, Repr

/-- The keyspace that a statement is about, or in which its table or type is placed. -/
def keyspaceOf? : Statement → Option String
  | .createKeyspace name _ => some name
  | .alterKeyspace name _ => some name
  | .dropKeyspace name => some name
  | .createTable table _ => table.keyspace
  | .dropTable table => table.keyspace
  | .addColumn table _ _ => table.keyspace
  | .dropColumn table _ => table.keyspace
  | .retypeColumn table _ _ => table.keyspace
  | .alterTable table _ _ => table.keyspace
  | .createType type _ => some type.keyspace
  | .dropType type => some type.keyspace
  | .addTypeField type _ => some type.keyspace
  | .retypeTypeField type _ => some type.keyspace
  | .renameTypeField type _ _ => some type.keyspace

/-- The type that a statement is about. -/
def typeOf? : Statement → Option TypeName
  | .createType type _ => some type
  | .dropType type => some type
  | .addTypeField type _ => some type
  | .retypeTypeField type _ => some type
  | .renameTypeField type _ _ => some type
  | _ => none

/-- Whether a line of a text, with or without a comma behind it, ends in a type. -/
def declaresInLine (script type : String) : Bool :=
  (Text.lines script.toList).any fun line =>
    (' ' :: type.toList).isSuffixOf line || (' ' :: type.toList ++ [',']).isSuffixOf line

/-- Whether a statement declares a column or a field of a type. -/
def declares (type : String) : Statement → Bool
  | .createTable _ script => declaresInLine script type
  | .addColumn _ _ declared => declared = type
  | .retypeColumn _ _ declared => declared = type
  | .createType _ fields => fields.any fun field => field.type = type
  | .addTypeField _ field => field.type = type
  | .retypeTypeField _ field => field.type = type
  | _ => false

/-- The type of the columns and fields that hold values of a user-defined type. -/
def frozenType (name : String) : String :=
  s!"frozen<{Text.quoteIdentifier name}>"

/-- Whether a statement refers to an object. -/
def refersTo (statement : Statement) : SchemaObject → Bool
  | .keyspace name => keyspaceOf? statement = some name
  | .type name =>
      typeOf? statement = some name ||
        (keyspaceOf? statement = some name.keyspace && declares (frozenType name.type) statement)

/-- The object that a statement creates. -/
def creates? : Statement → Option SchemaObject
  | .createKeyspace name _ => some (.keyspace name)
  | .createType name _ => some (.type name)
  | _ => none

/-- The object that a statement drops. -/
def drops? : Statement → Option SchemaObject
  | .dropKeyspace name => some (.keyspace name)
  | .dropType name => some (.type name)
  | _ => none

/-- A statement neither creates nor drops an object. -/
def LeavesObjects (statement : Statement) : Prop :=
  creates? statement = none ∧ drops? statement = none

/-- The part in whose sections an object is created and dropped. -/
def SchemaObject.part : SchemaObject → Part
  | .keyspace _ => .containers
  | .type _ => .definitions

/-- Of two statements the earlier one does not refer to what the later one creates, and the later
one does not refer to what the earlier one drops. -/
def InOrder (earlier later : Statement) : Prop :=
  (∀ object ∈ creates? later, refersTo earlier object = false) ∧
    (∀ object ∈ drops? earlier, refersTo later object = false)

/-- No statement refers to an object before it is created or after it is dropped. -/
def DependencyOrdered (statements : List Statement) : Prop :=
  statements.Pairwise InOrder

/-- No statement of a block refers to what a later block creates or an earlier one drops. -/
def BlocksOrdered (blocks : List Block) : Prop :=
  blocks.Pairwise fun first second =>
    ∀ earlier ∈ first.statements, ∀ later ∈ second.statements, InOrder earlier later

instance (earlier later : Statement) : Decidable (InOrder earlier later) :=
  inferInstanceAs (Decidable (_ ∧ _))

instance (statements : List Statement) : Decidable (DependencyOrdered statements) :=
  inferInstanceAs (Decidable (statements.Pairwise InOrder))

/-! ## Inside a block -/

theorem inOrder_of_creates_drops
    {earlier later : Statement}
    (hcreates : creates? later = none)
    (hdrops : drops? earlier = none) :
    InOrder earlier later := by
  simp [InOrder, hcreates, hdrops]

/-- Statements that neither create nor drop objects are in order. -/
theorem pairwise_of_leavesObjects
    {statements : List Statement}
    (h : ∀ statement ∈ statements, LeavesObjects statement) :
    statements.Pairwise InOrder :=
  List.pairwise_of_forall_mem_list fun earlier hearlier later hlater =>
    inOrder_of_creates_drops (h later hlater).1 (h earlier hearlier).2

theorem SaidOfTable.leavesObjects
    {scope : Scope}
    {edit : ColumnEdit}
    {entry : String × Node}
    {statement : Statement}
    (h : SaidOfTable scope edit entry statement) :
    LeavesObjects statement := by
  cases h with
  | drop changed deleted => exact ⟨rfl, rfl⟩
  | create changed kept created declared => exact ⟨rfl, rfl⟩
  | alter changed kept present declared said => cases said <;> exact ⟨rfl, rfl⟩

theorem dropTypeColumns_leavesObjects
    {name : String}
    {home : String × List TableUse}
    {statement : Statement}
    (h : .statement statement ∈ dropTypeColumns name home) :
    LeavesObjects statement := by
  obtain ⟨use, -, heq⟩ := List.mem_map.mp h
  obtain rfl := Event.statement.inj heq
  exact ⟨rfl, rfl⟩

/-- Types are created and dropped only by what is said of a created or a deleted one. -/
theorem SaidOfType.leavesObjects
    {entry : String × Node}
    {part : Part}
    {statement : Statement}
    (h : SaidOfType entry part statement)
    (hcreated : part = .added → isCreated entry.2 = false)
    (hdeleted : part ≠ .deleted) :
    LeavesObjects statement := by
  cases h with
  | create keyspace fields created => simp [created] at hcreated
  | addField keyspace field present => exact ⟨rfl, rfl⟩
  | dropColumn deleted placed among used named => exact ⟨rfl, rfl⟩
  | drop deleted placed among => exact absurd rfl hdeleted
  | retypeField keyspace field => exact ⟨rfl, rfl⟩
  | renameField keyspace old new => exact ⟨rfl, rfl⟩

theorem createType_inOrder_of_ne
    {first second : String}
    (h : first ≠ second)
    (name : String)
    (fields : List TypeField) :
    InOrder (.createType ⟨first, name⟩ fields) (.createType ⟨second, name⟩ fields) := by
  simp [InOrder, creates?, drops?, refersTo, typeOf?, keyspaceOf?, h]

theorem dropType_inOrder_of_ne
    {first second : String}
    (h : first ≠ second)
    (name : String) :
    InOrder (.dropType ⟨first, name⟩) (.dropType ⟨second, name⟩) := by
  simp [InOrder, creates?, drops?, refersTo, typeOf?, keyspaceOf?, declares, h.symm]

/-- A type is created in each of its keyspaces once. -/
theorem createType_inOrder
    {type : Node}
    (h : type.Distinct)
    (scope : Scope)
    (name : String) :
    (statementsOf (createType scope name type)).Pairwise InOrder := by
  rw [createType]
  split
  · rename_i placement hplacement
    rw [statementsOf_map, List.pairwise_map]
    exact (h.placement hplacement).imp fun hne => createType_inOrder_of_ne hne name _
  · exact List.pairwise_singleton _ _

/-- A type is dropped from each of its keyspaces once, behind the columns that hold its values. -/
theorem deletedType_inOrder
    {entry : String × Node}
    (h : entry.2.Distinct) :
    (statementsOf (deletedType entry)).Pairwise InOrder := by
  rw [deletedType]
  split
  · split
    · exact .nil
    · rename_i placement hplacement
      have hcolumns : ∀ statement ∈ statementsOf (placement.flatMap (dropTypeColumns entry.1)),
          LeavesObjects statement := by
        intro statement hstatement
        obtain ⟨home, -, hcolumn⟩ := List.mem_flatMap.mp (mem_statementsOf_iff.mp hstatement)
        exact dropTypeColumns_leavesObjects hcolumn
      rw [statementsOf, List.filterMap_append, List.pairwise_append]
      refine ⟨pairwise_of_leavesObjects hcolumns, ?_, ?_⟩
      · show (statementsOf _).Pairwise InOrder
        rw [statementsOf_map, List.pairwise_map]
        exact (h.placement hplacement).imp fun hne => dropType_inOrder_of_ne hne entry.1
      · intro earlier hearlier later hlater
        obtain ⟨keyspace, -, heq⟩ := List.mem_map.mp (mem_statementsOf_iff.mp hlater)
        obtain rfl := Event.statement.inj heq
        exact inOrder_of_creates_drops rfl (hcolumns earlier hearlier).2
  · exact .nil

/-- What the entry of a type leads to is in order. -/
theorem typeEvents_inOrder
    {stop : TypeEntry}
    (h : stop.entry.2.Distinct)
    (scope : Scope) :
    (statementsOf (stop.events scope)).Pairwise InOrder := by
  have hleaves (hcreated : stop.part = .added → isCreated stop.entry.2 = false)
      (hdeleted : stop.part ≠ .deleted) : (statementsOf (stop.events scope)).Pairwise InOrder :=
    pairwise_of_leavesObjects fun _ hstatement =>
      (saidOfType_of_mem (mem_statementsOf_iff.mp hstatement)).leavesObjects hcreated hdeleted
  obtain ⟨item, part⟩ := stop
  cases part with
  | deleted => exact deletedType_inOrder h
  | added =>
      cases hcreated : isCreated item.entry.2 with
      | false => exact hleaves (fun _ => hcreated) (by simp)
      | true =>
          simp only [TypeEntry.events, addedType, hcreated, if_true]
          exact createType_inOrder h scope _
  | modified => exact hleaves (by simp) (by simp)
  | containers => exact .nil
  | entities => exact .nil
  | definitions => exact .nil

/-- The entries of a section of types are distinct if everything there is. -/
theorem distinct_of_mem_typeTour
    {view : View}
    (h : view.Distinct)
    {stop : List Branch × TypeEntry}
    (hstop : stop ∈ typeTour.tour view) :
    stop.2.entry.2.Distinct := by
  obtain ⟨-, -, -, -, items, hfollow, hentry⟩ := mem_typeTour_iff.mp hstop
  exact (h.follow? hfollow).entries (List.mem_of_getElem? hentry)

/-- The statements of a block are in order. -/
theorem block_inOrder
    {document : Node}
    (hdistinct : document.Distinct)
    {scope : Scope}
    {block : Block}
    (h : block ∈ planBlocks scope document) :
    block.statements.Pairwise InOrder := by
  have htable (edit : ColumnEdit) (path : List Branch) (item : Item) :
      (tableBlock scope edit path item).statements.Pairwise InOrder :=
    pairwise_of_leavesObjects fun _ hstatement => (saidOfTable_of_mem hstatement).leavesObjects
  obtain ⟨⟨path, part, view⟩, hsection, hblock⟩ := List.mem_flatMap.mp h
  cases part with
  | containers =>
      obtain ⟨stop, -, rfl⟩ := List.mem_map.mp hblock
      rw [keyspaceBlock]
      cases keyspaceStatement? (fateAfter .altered stop.1) stop.2.entry with
      | none => exact .nil
      | some statement => exact List.pairwise_singleton _ _
  | entities => simp [Section.blocks] at hblock
  | definitions =>
      obtain ⟨stop, hstop, rfl⟩ := List.mem_map.mp hblock
      obtain ⟨-, -, -, -, hfollow⟩ := mem_sectionTour_iff.mp hsection
      have hdocument : (View.single document).Distinct := hdistinct
      have hview : view.Distinct := hdocument.follow? hfollow
      exact typeEvents_inOrder (distinct_of_mem_typeTour hview hstop) scope
  | modified =>
      obtain ⟨item, -, rfl⟩ := List.mem_map.mp hblock
      exact htable .replace path item
  | deleted =>
      obtain ⟨item, -, rfl⟩ := List.mem_map.mp hblock
      exact htable .drop path item
  | added =>
      obtain ⟨item, -, rfl⟩ := List.mem_map.mp hblock
      exact htable .add path item

/-! ## Where objects are created and dropped -/

theorem keyspaceStatement?_part
    {fate : Fate}
    {entry : String × Node}
    {statement : Statement}
    (h : keyspaceStatement? fate entry = some statement)
    {object : SchemaObject}
    (hobject : object ∈ creates? statement ∨ object ∈ drops? statement) :
    object.part = .containers := by
  obtain ⟨element, -, rfl⟩ := Option.map_eq_some_iff.mp h
  cases fate <;> simp [creates?, drops?] at hobject <;> rw [← hobject] <;> rfl

theorem typeEvents_part
    {scope : Scope}
    {stop : TypeEntry}
    {statement : Statement}
    (h : .statement statement ∈ stop.events scope)
    {object : SchemaObject}
    (hobject : object ∈ creates? statement ∨ object ∈ drops? statement) :
    object.part = .definitions := by
  obtain ⟨item, part⟩ := stop
  have hsaid := saidOfType_of_mem h
  cases hsaid <;> simp [creates?, drops?] at hobject <;> rw [← hobject] <;> rfl

/-- Keyspaces are created and dropped only in sections of keyspaces, types only in sections of
types. -/
theorem block_part
    {scope : Scope}
    {document : Node}
    {block : Block}
    (h : block ∈ planBlocks scope document)
    {statement : Statement}
    (hstatement : statement ∈ block.statements)
    {object : SchemaObject}
    (hobject : object ∈ creates? statement ∨ object ∈ drops? statement) :
    block.path.getLast? = some (.part object.part) := by
  have htable {edit : ColumnEdit} {path : List Branch} {item : Item}
      (h : statement ∈ (tableBlock scope edit path item).statements) : False := by
    obtain ⟨hcreates, hdrops⟩ := (saidOfTable_of_mem h).leavesObjects
    simp [hcreates, hdrops] at hobject
  obtain ⟨⟨path, part, view⟩, hsection, hblock⟩ := List.mem_flatMap.mp h
  obtain ⟨front, rfl, -⟩ := mem_sectionTour_iff.mp hsection
  rw [path_of_mem_blocks hblock, List.getLast?_concat]
  cases part with
  | containers =>
      obtain ⟨stop, -, rfl⟩ := List.mem_map.mp hblock
      rw [keyspaceStatement?_part (Option.mem_toList.mp hstatement) hobject]
  | entities => simp [Section.blocks] at hblock
  | definitions =>
      obtain ⟨stop, -, rfl⟩ := List.mem_map.mp hblock
      rw [typeEvents_part (mem_statementsOf_iff.mp hstatement) hobject]
  | modified =>
      obtain ⟨item, -, rfl⟩ := List.mem_map.mp hblock
      exact (htable hstatement).elim
  | deleted =>
      obtain ⟨item, -, rfl⟩ := List.mem_map.mp hblock
      exact (htable hstatement).elim
  | added =>
      obtain ⟨item, -, rfl⟩ := List.mem_map.mp hblock
      exact (htable hstatement).elim

/-! ## Whole plans -/

/-- A plan consists of blocks in the order of their places, and the statements of one block are in
order, if all names are distinct, as they are in whatever is read. Hence the plan is in order if and
only if no block refers to what a later one creates or an earlier one drops. -/
theorem plan_is_dependency_ordered_up_to_places
    (options : Options)
    (names : Listing String)
    (context : Context)
    (document : Node)
    (plan : List Statement)
    (hdistinct : document.Distinct)
    (h : (compile options names context document).result = .ok plan) :
    let blocks := planBlocks (scopeIn options names context) document
    plan = blocks.flatMap Block.statements ∧
      blocks.Pairwise (fun first second => first.place < second.place) ∧
      (∀ block ∈ blocks, DependencyOrdered block.statements) ∧
      (∀ block ∈ blocks, ∀ statement ∈ block.statements, ∀ object,
        object ∈ creates? statement ∨ object ∈ drops? statement →
          block.path.getLast? = some (.part object.part)) ∧
      (DependencyOrdered plan ↔ BlocksOrdered blocks) := by
  intro blocks
  rw [result_compile, Trail.result] at h
  split at h
  · simp at h
  · rename_i hfault
    have hplan : plan = blocks.flatMap Block.statements := by
      rw [← statements_planBlocks hfault]
      exact (Except.ok.inj h).symm
    refine ⟨hplan, planBlocks_sorted _ document, fun block => block_inOrder hdistinct, ?_, ?_⟩
    · exact fun block hblock statement hstatement object => block_part hblock hstatement
    · rw [hplan, DependencyOrdered, List.pairwise_flatMap]
      exact ⟨And.right, And.intro fun block => block_inOrder hdistinct⟩

theorem listed_distinct
    {entry : Node}
    (h : entry.Distinct)
    (name : String) :
    (listed name entry).Distinct := by
  have hmembers : Node.Distinct { properties := some [(name, entry)] } := by
    refine .intro (by simp [Listing.names]) (by simpa using h) (by simp) ?_ (by simp) (by simp)
    intro part inner hinner
    cases part <;> simp [Node.part?] at hinner
  refine .intro (by simp [listed]) (by simp [listed]) ?_ ?_ (by simp [listed]) (by simp [listed])
  · simpa [listed, Items.toList] using hmembers
  · intro part inner hinner
    cases part <;> simp [listed, Node.part?] at hinner

/-- A new keyspace and a new type in it. -/
def newType : Node :=
  let address : Change := { created := true, placement := some [("shop", [])] }
  { containers := some { added := some (listed "shop" { element := some {} }) }
    definitions := some { added := some (listed "address" { change := some address }) } }

theorem new_type_is_created_in_new_keyspace :
    newType.Distinct ∧
      (compile {} [] {} newType).result =
        .ok [.createKeyspace "shop" {}, .createType ⟨"shop", "address"⟩ []] ∧
      BlocksOrdered (planBlocks (scopeIn {} [] {}) newType) := by
  have hempty : Node.Distinct {} := Node.distinct_leaf (by simp) (by simp)
  have hkeyspace : Node.Distinct { element := some {} } :=
    Node.distinct_leaf (by simp [Element.Distinct]) (by simp)
  have htype : Node.Distinct
      { change := some { created := true, placement := some [("shop", [])] } } :=
    Node.distinct_leaf (by simp) (by simp [Change.Distinct, Listing.names])
  have hcontainers := hempty.setPart (listed_distinct hkeyspace "shop") .added
  have hdefinitions := hempty.setPart (listed_distinct htype "address") .added
  have hdistinct : newType.Distinct :=
    (hempty.setPart hcontainers .containers).setPart hdefinitions .definitions
  have hresult :
      (compile {} [] {} newType).result =
        .ok [.createKeyspace "shop" {}, .createType ⟨"shop", "address"⟩ []] := rfl
  obtain ⟨-, -, -, -, hordered⟩ :=
    plan_is_dependency_ordered_up_to_places {} [] {} newType _ hdistinct hresult
  exact ⟨hdistinct, hresult, hordered.mp (by decide)⟩

/-- A keyspace that is dropped together with its table. -/
def droppedKeyspace : Node :=
  let users : Change := { deleted := true, keyspace := some "shop" }
  { containers := some { deleted := some (listed "shop" { element := some {} }) }
    entities := some
      { deleted := some (listed "users" { element := some { change := some users } }) } }

/-- Keyspaces come before tables also when both are dropped. -/
theorem keyspace_is_dropped_before_its_table :
    droppedKeyspace.Distinct ∧
      ∃ plan, (compile {} [] {} droppedKeyspace).result = .ok plan ∧ ¬DependencyOrdered plan := by
  have hempty : Node.Distinct {} := Node.distinct_leaf (by simp) (by simp)
  have hkeyspace : Node.Distinct { element := some {} } :=
    Node.distinct_leaf (by simp [Element.Distinct]) (by simp)
  have htable : Node.Distinct
      { element := some { change := some { deleted := true, keyspace := some "shop" } } } :=
    Node.distinct_leaf (by simp [Element.Distinct, Change.Distinct]) (by simp)
  have hcontainers := hempty.setPart (listed_distinct hkeyspace "shop") .deleted
  have hentities := hempty.setPart (listed_distinct htable "users") .deleted
  refine ⟨(hempty.setPart hcontainers .containers).setPart hentities .entities, ?_⟩
  refine ⟨[.dropKeyspace "shop", .dropTable ⟨some "shop", "users"⟩], rfl, ?_⟩
  decide

end Plan
end CqlDelta
