import CqlDelta.Proofs.Plan.Dependencies
import CqlDelta.Proofs.Plan.Entries

/-!
# Types that are defined in several keyspaces

What is said of a type is said in every keyspace of its placement. The steps come in groups: one for
a type that is created or dropped, one for every field of a type that is kept. A group is said in
one keyspace after another, in the order of the placement, before the next group has its turn
(`statementsOf_typeEvents`). Hence the statements about a type in one keyspace are those in any
other of its keyspaces with the keyspace replaced (`type_statements_are_uniform_over_keyspaces`).
-/

namespace CqlDelta
namespace Plan

open Cql Delta

/-! ## Steps and groups -/

/-- What is said of a type, apart from its name and keyspace. -/
inductive TypeStep where
  | create (fields : List TypeField)
  | addField (field : TypeField)
  | retypeField (field : TypeField)
  | renameField (old new : String)
  | drop
deriving DecidableEq, Repr

/-- A step is said of a type in a keyspace. -/
def TypeStep.saidOf (type : TypeName) : TypeStep → Statement
  | .create fields => .createType type fields
  | .addField field => .addTypeField type field
  | .retypeField field => .retypeTypeField type field
  | .renameField old new => .renameTypeField type old new
  | .drop => .dropType type

/-- Each group is said in one keyspace after another before the next one has its turn. -/
def fanOut
    (type : String)
    (keyspaces : List String)
    (groups : List (List TypeStep)) :
    List Statement :=
  groups.flatMap fun group =>
    keyspaces.flatMap fun keyspace => group.map (TypeStep.saidOf ⟨keyspace, type⟩)

/-- The steps for a changed field: it is retyped, if that is possible in place, and then renamed. -/
def fieldSteps (scope : Scope) (field : String × Node) : List TypeStep :=
  match field.2.changes with
  | [] => []
  | change :: _ =>
      let rename := change.name.bind Revision.changed?
      let current := (rename.map Prod.fst).getD field.1
      let possible :=
        (fieldRetype? scope change).filter fun types => isConvertible types.old types.new
      (possible.map fun types => TypeStep.retypeField ⟨current, types.new⟩).toList
        ++ (rename.map fun names => TypeStep.renameField names.1 names.2).toList

/-- The groups of steps for a type entry in a part of a section of types. -/
def typeGroups (scope : Scope) (entry : String × Node) : Part → List (List TypeStep)
  | .added =>
      if isCreated entry.2 then [[.create (initialFields scope entry.2)]]
      else (fieldsOf entry.2).map fun field => [.addField (typeField scope field)]
  | .deleted => if isDeleted entry.2 then [[.drop]] else []
  | .modified => (fieldsOf entry.2).map (fieldSteps scope)
  | _ => []

/-- The columns of a type in the tables that use it: one in every table with a name, keyspace by
keyspace. -/
def usingColumns (type : String) (placement : Placement) : List Statement :=
  placement.flatMap fun home =>
    (home.2.filter fun use => !use.table.isEmpty).map fun use =>
      .dropColumn ⟨some home.1, use.table⟩ type

/-- The columns that go before a type does. -/
def columnsBefore
    (entry : String × Node)
    (placement : Placement)
    (part : Part) :
    List Statement :=
  if part = .deleted ∧ isDeleted entry.2 = true then usingColumns entry.1 placement else []

/-! ## What a type entry leads to -/

theorem statementsOf_append
    (first second : List Event) :
    statementsOf (first ++ second) = statementsOf first ++ statementsOf second :=
  List.filterMap_append

theorem statementsOf_flatMap
    {α : Type}
    (events : α → List Event)
    (elements : List α) :
    statementsOf (elements.flatMap events) =
      elements.flatMap fun element => statementsOf (events element) :=
  List.filterMap_flatMap

theorem fanOut_singleton
    (type : String)
    (keyspaces : List String)
    (step : TypeStep) :
    fanOut type keyspaces [[step]] =
      keyspaces.map fun keyspace => step.saidOf ⟨keyspace, type⟩ := by
  rw [fanOut, List.flatMap_singleton, List.map_eq_flatMap]
  rfl

theorem fanOut_map
    {α : Type}
    (type : String)
    (keyspaces : List String)
    (steps : α → List TypeStep)
    (elements : List α) :
    fanOut type keyspaces (elements.map steps) =
      elements.flatMap fun element => fanOut type keyspaces [steps element] := by
  rw [fanOut, List.flatMap_map]
  exact congrArg List.flatten
    (List.map_congr_left fun element _ => (List.flatMap_singleton _ _).symm)

/-- A changed field leads to its group, whatever is noted. -/
theorem statementsOf_modifiedField
    (scope : Scope)
    (type : String)
    (placement : Placement)
    (field : String × Node) :
    statementsOf (modifiedField scope type placement field) =
      fanOut type placement.names [fieldSteps scope field] := by
  rw [modifiedField, fanOut, List.flatMap_singleton, fieldSteps]
  cases field.2.changes with
  | nil => simp [statementsOf]
  | cons change _ =>
      simp only [statementsOf_append, statementsOf_flatMap, List.map_append]
      generalize (fieldRetype? scope change).filter _ = possible
      generalize change.name.bind Revision.changed? = rename
      have hsteps (keyspace : String) (field : String) :
          statementsOf (possible.map fun types => Event.statement
              (.retypeTypeField ⟨keyspace, type⟩ ⟨field, types.new⟩)).toList
            ++ statementsOf (rename.map fun names => Event.statement
              (.renameTypeField ⟨keyspace, type⟩ names.1 names.2)).toList =
          (possible.map fun types => TypeStep.retypeField ⟨field, types.new⟩).toList.map
              (TypeStep.saidOf ⟨keyspace, type⟩)
            ++ (rename.map fun names => TypeStep.renameField names.1 names.2).toList.map
              (TypeStep.saidOf ⟨keyspace, type⟩) := by
        cases possible <;> cases rename <;> rfl
      simp only [hsteps]
      cases fieldRetype? scope change <;> cases possible <;> rfl

/-- A type entry with a placement leads to the columns that go before the type, and then to its
groups, fanned out over the placement. -/
theorem statementsOf_typeEvents
    {entry : String × Node}
    {placement : Placement}
    (hplaced : entry.2.placement? = some placement)
    (scope : Scope)
    (index : Nat)
    (part : Part) :
    statementsOf (TypeEntry.events scope ⟨⟨index, entry⟩, part⟩) =
      columnsBefore entry placement part
        ++ fanOut entry.1 placement.names (typeGroups scope entry part) := by
  cases part with
  | added =>
      rw [columnsBefore, if_neg (by simp), List.nil_append, TypeEntry.events, addedType, typeGroups]
      cases isCreated entry.2 with
      | true =>
          simp only [if_true, createType, hplaced]
          rw [statementsOf_map, fanOut_singleton]
          rfl
      | false =>
          simp only [Bool.false_eq_true, if_false, addTypeFields, hplaced]
          rw [statementsOf_flatMap, fanOut_map]
          refine congrArg List.flatten (List.map_congr_left fun field _ => ?_)
          rw [statementsOf_map, fanOut_singleton]
          rfl
  | deleted =>
      rw [columnsBefore, TypeEntry.events, deletedType, typeGroups]
      cases isDeleted entry.2 with
      | true =>
          simp only [if_true, hplaced, and_self]
          rw [statementsOf_append, statementsOf_flatMap, statementsOf_map, fanOut_singleton]
          refine congrArg (· ++ _) (congrArg List.flatten (List.map_congr_left fun home _ => ?_))
          exact statementsOf_map _ _
      | false => simp [fanOut, statementsOf]
  | modified =>
      rw [columnsBefore, if_neg (by simp), List.nil_append, TypeEntry.events, modifiedType, hplaced,
        typeGroups, fanOut_map]
      simp only [statementsOf_flatMap, statementsOf_modifiedField]
  | containers => simp [columnsBefore, typeGroups, TypeEntry.events, fanOut, statementsOf]
  | entities => simp [columnsBefore, typeGroups, TypeEntry.events, fanOut, statementsOf]
  | definitions => simp [columnsBefore, typeGroups, TypeEntry.events, fanOut, statementsOf]

/-! ## One keyspace at a time -/

/-- Whether a statement is about a type. -/
def isAboutType (statement : Statement) : Bool :=
  (typeOf? statement).isSome

/-- Whether a statement is about a type in a keyspace. -/
def isAboutTypeIn (keyspace : String) (statement : Statement) : Bool :=
  (typeOf? statement).any fun type => type.keyspace = keyspace

/-- Says of a type in a keyspace what a statement says of it in another one. -/
def moveTo (keyspace : String) : Statement → Statement
  | .createType type fields => .createType { type with keyspace := keyspace } fields
  | .dropType type => .dropType { type with keyspace := keyspace }
  | .addTypeField type field => .addTypeField { type with keyspace := keyspace } field
  | .retypeTypeField type field => .retypeTypeField { type with keyspace := keyspace } field
  | .renameTypeField type old new => .renameTypeField { type with keyspace := keyspace } old new
  | statement => statement

@[simp]
theorem typeOf?_saidOf
    (type : TypeName)
    (step : TypeStep) :
    typeOf? (step.saidOf type) = some type := by
  cases step <;> rfl

@[simp]
theorem moveTo_saidOf
    (keyspace : String)
    (type : TypeName)
    (step : TypeStep) :
    moveTo keyspace (step.saidOf type) = step.saidOf { type with keyspace := keyspace } := by
  cases step <;> rfl

theorem filter_isAboutType_columnsBefore
    (entry : String × Node)
    (placement : Placement)
    (part : Part) :
    (columnsBefore entry placement part).filter isAboutType = [] := by
  rw [columnsBefore]
  split
  · rw [List.filter_eq_nil_iff]
    intro statement hstatement
    obtain ⟨home, -, hstatement⟩ := List.mem_flatMap.mp hstatement
    obtain ⟨use, -, rfl⟩ := List.mem_map.mp hstatement
    simp [isAboutType, typeOf?]
  · rfl

theorem filter_isAboutType_fanOut
    (type : String)
    (keyspaces : List String)
    (groups : List (List TypeStep)) :
    (fanOut type keyspaces groups).filter isAboutType = fanOut type keyspaces groups := by
  rw [List.filter_eq_self]
  intro statement hstatement
  obtain ⟨group, -, hstatement⟩ := List.mem_flatMap.mp hstatement
  obtain ⟨keyspace, -, hstatement⟩ := List.mem_flatMap.mp hstatement
  obtain ⟨step, -, rfl⟩ := List.mem_map.mp hstatement
  simp [isAboutType]

/-- What is about a type in a keyspace is about a type. -/
theorem filter_isAboutTypeIn_eq
    (keyspace : String)
    (statements : List Statement) :
    statements.filter (isAboutTypeIn keyspace) =
      (statements.filter isAboutType).filter (isAboutTypeIn keyspace) := by
  rw [List.filter_filter]
  refine List.filter_congr fun statement _ => ?_
  rw [isAboutTypeIn, isAboutType]
  cases typeOf? statement <;> simp

/-- Of what is said in distinct places only what is said in one of them is kept. -/
theorem flatMap_ite_eq
    {α β : Type}
    [DecidableEq α]
    {places : List α}
    (hplaces : places.Nodup)
    (place : α)
    (said : List β) :
    (places.flatMap fun other => if other = place then said else []) =
      if place ∈ places then said else [] := by
  induction places with
  | nil => rfl
  | cons first more ih =>
      rw [List.nodup_cons] at hplaces
      rw [List.flatMap_cons, ih hplaces.2]
      by_cases hfirst : first = place
      · subst hfirst
        simp [hplaces.1]
      · have hne : place ≠ first := fun heq => hfirst heq.symm
        simp [hfirst, hne]

/-- In each of its keyspaces a type is told all steps, group after group, and elsewhere none. -/
theorem filter_isAboutTypeIn_fanOut
    {keyspaces : List String}
    (hkeyspaces : keyspaces.Nodup)
    (type keyspace : String)
    (groups : List (List TypeStep)) :
    (fanOut type keyspaces groups).filter (isAboutTypeIn keyspace) =
      if keyspace ∈ keyspaces then groups.flatten.map (TypeStep.saidOf ⟨keyspace, type⟩)
      else [] := by
  have hgroup (group : List TypeStep) :
      (keyspaces.flatMap fun other =>
          group.map (TypeStep.saidOf ⟨other, type⟩)).filter (isAboutTypeIn keyspace) =
        if keyspace ∈ keyspaces then group.map (TypeStep.saidOf ⟨keyspace, type⟩) else [] := by
    rw [List.filter_flatMap, ← flatMap_ite_eq hkeyspaces]
    refine congrArg List.flatten (List.map_congr_left fun other _ => ?_)
    split
    · rename_i hother
      subst hother
      rw [List.filter_eq_self, List.forall_mem_map]
      simp [isAboutTypeIn]
    · rename_i hother
      rw [List.filter_eq_nil_iff, List.forall_mem_map]
      simp [isAboutTypeIn, hother]
  rw [fanOut, List.filter_flatMap]
  simp only [hgroup]
  split
  · rw [List.flatMap_def, List.map_flatten]
  · simp

/-! ## Whole plans -/

/-- What an entry of a plan leads to stands in one piece in the plan. -/
theorem exists_around_of_stands
    {scope : Scope}
    {document : Node}
    {spot : Spot}
    {entry : String × Node}
    (hfault : (trailOf scope (.single document)).fault = none)
    (hstands : StandsAt document spot entry) :
    (spot.trail scope entry).statements <:+: (trailOf scope (.single document)).statements := by
  obtain ⟨front, back, heq⟩ := List.append_of_mem (mem_entriesOf_iff.mpr hstands)
  rw [trailOf_eq_entries] at hfault ⊢
  rw [Trail.statements_concat hfault, heq, List.flatMap_map, List.flatMap_append,
    List.flatMap_cons]
  exact ⟨_, _, List.append_assoc ..⟩

theorem infix_of_stands
    {options : Options}
    {names : Listing String}
    {context : Context}
    {document : Node}
    {spot : Spot}
    {entry : String × Node}
    (hstands : StandsAt document spot entry)
    {plan : List Statement}
    (hplan : (compile options names context document).result = .ok plan) :
    (spot.trail (scopeIn options names context) entry).statements <:+: plan := by
  rw [result_compile] at hplan
  obtain ⟨hfault, rfl⟩ := Trail.result_eq_ok_iff.mp hplan
  exact exists_around_of_stands hfault hstands

/-- A type entry stands in a part of a section of types, and leads there to the statements of its
events. -/
theorem exists_part_of_types
    {document : Node}
    {spot : Spot}
    {entry : String × Node}
    (hstands : StandsAt document spot entry)
    (htypes : spot.part = .definitions) :
    ∃ part, spot.nested.getLast? = some (.part part) ∧
      ∀ scope, (spot.trail scope entry).statements =
        statementsOf (TypeEntry.events scope ⟨⟨spot.index, entry⟩, part⟩) := by
  obtain ⟨passages, section', nested, index⟩ := spot
  obtain rfl : section' = .definitions := htypes
  cases hstands.searched with
  | @types front part through stops =>
      have hlast : (front.append [Branch.part part]).getLast? = some (.part part) :=
        List.getLast?_concat
      refine ⟨part, hlast, fun scope => ?_⟩
      simp only [Spot.trail, hlast]
      rfl
  | tables holds => simp [isTablePart] at holds

/-- A type entry leads to the statements of its events in the part that it stands in. -/
theorem statements_of_typePart
    {document : Node}
    {spot : Spot}
    {entry : String × Node}
    (hstands : StandsAt document spot entry)
    (htypes : spot.part = .definitions)
    {part : Part}
    (hpart : spot.nested.getLast? = some (.part part))
    (scope : Scope) :
    (spot.trail scope entry).statements =
      statementsOf (TypeEntry.events scope ⟨⟨spot.index, entry⟩, part⟩) := by
  obtain ⟨other, hother, hsaid⟩ := exists_part_of_types hstands htypes
  obtain rfl : other = part := by simpa [hpart, eq_comm] using hother
  exact hsaid scope

/-- The keyspaces of an entry's placement are distinct. -/
theorem nodup_placement_of_stands
    {document : Node}
    (hdistinct : document.Distinct)
    {spot : Spot}
    {entry : String × Node}
    (hstands : StandsAt document spot entry)
    {placement : Placement}
    (hplaced : entry.2.placement? = some placement) :
    placement.names.Nodup := by
  obtain ⟨items, hfollow, hentry⟩ := hstands.found
  have hview : (View.single document).Distinct := hdistinct
  have hitems := hview.follow? hfollow
  exact (hitems.entries (List.mem_of_getElem? hentry)).placement hplaced

/-- What a plan says of a type with a placement stands in one piece. In any two keyspaces of the
placement the same is said of the type, in the same order, and nothing is said of it in any other
keyspace. The statements about the type are its groups, one after another, each in all keyspaces in
the order of the placement. A deleted type goes out of all columns, one in every named table of
every keyspace in order, before it is dropped anywhere. -/
theorem type_statements_are_uniform_over_keyspaces
    (options : Options)
    (names : Listing String)
    (context : Context)
    (document : Node)
    (hdistinct : document.Distinct)
    (spot : Spot)
    (entry : String × Node)
    (hstands : StandsAt document spot entry)
    (htypes : spot.part = .definitions)
    (placement : Placement)
    (hplaced : entry.2.placement? = some placement) :
    let scope := scopeIn options names context
    let said := (spot.trail scope entry).statements
    (∀ plan, (compile options names context document).result = .ok plan → said <:+: plan) ∧
    (∀ first ∈ placement.names, ∀ second ∈ placement.names,
      said.filter (isAboutTypeIn second) =
        (said.filter (isAboutTypeIn first)).map (moveTo second)) ∧
    (∀ keyspace ∉ placement.names, said.filter (isAboutTypeIn keyspace) = []) ∧
    (∃ part, spot.nested.getLast? = some (.part part) ∧
      said.filter isAboutType =
        fanOut entry.1 placement.names (typeGroups scope entry part) ∧
      (part = .deleted → isDeleted entry.2 = true →
        said = usingColumns entry.1 placement
          ++ placement.names.map fun keyspace => .dropType ⟨keyspace, entry.1⟩)) := by
  intro scope said
  obtain ⟨part, hpart, hsaid⟩ := exists_part_of_types hstands htypes
  have hnodup := nodup_placement_of_stands hdistinct hstands hplaced
  have hstatements : said = columnsBefore entry placement part
      ++ fanOut entry.1 placement.names (typeGroups scope entry part) := by
    rw [← statementsOf_typeEvents hplaced]
    exact hsaid scope
  have htype : said.filter isAboutType =
      fanOut entry.1 placement.names (typeGroups scope entry part) := by
    rw [hstatements, List.filter_append, filter_isAboutType_columnsBefore,
      filter_isAboutType_fanOut, List.nil_append]
  have hkeyspace (keyspace : String) :
      said.filter (isAboutTypeIn keyspace) =
        if keyspace ∈ placement.names then
          (typeGroups scope entry part).flatten.map (TypeStep.saidOf ⟨keyspace, entry.1⟩)
        else [] := by
    rw [filter_isAboutTypeIn_eq, htype, filter_isAboutTypeIn_fanOut hnodup]
  refine ⟨?piece, ?uniform, ?elsewhere, part, hpart, htype, ?deleted⟩
  case piece =>
    intro plan hplan
    rw [result_compile] at hplan
    obtain ⟨hfault, rfl⟩ := Trail.result_eq_ok_iff.mp hplan
    exact exists_around_of_stands hfault hstands
  case uniform =>
    intro first hfirst second hsecond
    rw [hkeyspace, hkeyspace, if_pos hfirst, if_pos hsecond, List.map_map]
    exact List.map_congr_left fun step _ => (moveTo_saidOf second ⟨first, entry.1⟩ step).symm
  case elsewhere =>
    intro keyspace hnot
    rw [hkeyspace, if_neg hnot]
  case deleted =>
    rintro rfl hdeleted
    rw [hstatements, columnsBefore, if_pos ⟨rfl, hdeleted⟩, typeGroups, if_pos hdeleted,
      fanOut_singleton]
    rfl

/-- A comparison whose only entry is a type in a part of its section. -/
def typeDocument (part : Part) (type : Node) : Node :=
  { definitions := some (({} : Node).setPart part (some (listed "address" type))) }

theorem typeDocument_distinct
    {type : Node}
    (h : type.Distinct)
    (part : Part) :
    (typeDocument part type).Distinct := by
  have hempty : Node.Distinct {} := Node.distinct_leaf (by simp) (by simp)
  exact hempty.setPart (hempty.setPart (listed_distinct h "address") part) .definitions

theorem typeDocument_stands
    {part : Part}
    (h : .part part ∈ typeBranches)
    (type : Node) :
    StandsAt (typeDocument part type) ⟨[], .definitions, [.part part], 0⟩ ("address", type) := by
  refine ⟨by simp, @Searched.types [] part (by simp) h, ?_⟩
  cases part <;> exact ⟨_, rfl, rfl⟩

/-- A type that is defined in two keyspaces, with a field that is retyped and renamed and one that
is only renamed. -/
def movedType : Node :=
  let declared (type : String) : Option Snapshot := some ⟨some { physical := some type }⟩
  let street : Change :=
    { before := declared "text", after := declared "varchar"
      name := some ⟨some "road", some "street"⟩ }
  let zip : Change := { name := some ⟨some "code", some "zip"⟩ }
  { change := some { placement := some [("shop", []), ("crm", [])] }
    properties := some [("street", { change := some street }), ("zip", { change := some zip })] }

theorem moved_type_is_retyped_and_renamed_in_both_keyspaces :
    let document : Node := { definitions := some { modified := some (listed "address" movedType) } }
    let spot : Spot := ⟨[], .definitions, [.part .modified], 0⟩
    let retype (keyspace : String) : Statement :=
      .retypeTypeField ⟨keyspace, "address"⟩ ⟨"street", "varchar"⟩
    let rename (keyspace old new : String) : Statement :=
      .renameTypeField ⟨keyspace, "address"⟩ old new
    let plan : List Statement :=
      [ retype "shop", rename "shop" "street" "road", retype "crm", rename "crm" "street" "road",
        rename "shop" "zip" "code", rename "crm" "zip" "code" ]
    let steps (keyspace : String) : List Statement :=
      [retype keyspace, rename keyspace "street" "road", rename keyspace "zip" "code"]
    document.Distinct ∧ StandsAt document spot ("address", movedType) ∧
      spot.part = .definitions ∧ movedType.placement? = some [("shop", []), ("crm", [])] ∧
      (compile {} [] {} document).result = .ok plan ∧
      ∃ said, said <:+: plan ∧
        said.filter (isAboutTypeIn "shop") = steps "shop" ∧
        said.filter (isAboutTypeIn "crm") = (steps "shop").map (moveTo "crm") ∧
        said.filter (isAboutTypeIn "sales") = [] := by
  intro document spot retype rename plan steps
  have hempty : Node.Distinct {} := Node.distinct_leaf (by simp) (by simp)
  have hfield (change : Change) (hplacement : change.placement = none) :
      Node.Distinct { change := some change } :=
    Node.distinct_leaf (by simp) (by simp [Change.Distinct, hplacement])
  have htype : movedType.Distinct := by
    refine .intro (by simp [movedType, Listing.names]) ?_ (by simp [movedType]) ?_
      (by simp [movedType]) (by simp [movedType, Change.Distinct, Listing.names])
    · simp only [movedType, Option.some.injEq, forall_eq', List.forall_mem_cons]
      exact ⟨hfield _ rfl, hfield _ rfl, by simp⟩
    · intro part inner hinner
      cases part <;> simp [movedType, Node.part?] at hinner
  have hsection := hempty.setPart (listed_distinct htype "address") .modified
  have hdistinct : document.Distinct := hempty.setPart hsection .definitions
  have hstands : StandsAt document spot ("address", movedType) :=
    ⟨by simp [spot], @Searched.types [] .modified (by simp) (by decide), _, rfl, rfl⟩
  obtain ⟨hpiece, huniform, helsewhere, -⟩ :=
    type_statements_are_uniform_over_keyspaces {} [] {} document hdistinct spot _ hstands rfl _ rfl
  have hresult : (compile {} [] {} document).result = .ok plan := by
    decide +kernel
  have hshop : (spot.trail (scopeIn {} [] {}) ("address", movedType)).statements.filter
      (isAboutTypeIn "shop") = steps "shop" := by
    decide +kernel
  refine ⟨hdistinct, hstands, rfl, rfl, hresult, _, hpiece _ hresult, hshop, ?_,
    helsewhere "sales" (by decide)⟩
  rw [huniform "shop" (by decide) "crm" (by decide), hshop]

end Plan
end CqlDelta
