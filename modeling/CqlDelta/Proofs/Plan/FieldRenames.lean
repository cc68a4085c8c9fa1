import CqlDelta.Proofs.Plan.FanOut
import Mathlib.Logic.Function.Basic

/-!
# Fields that are renamed one after another

The statements about a modified type are carried out one after another, and each of them needs the
names that the earlier ones left behind: a field is retyped or renamed under a name that is there,
and renamed to a name that is not. The fields have their turn in document order, whatever names they
take. A field that takes the old name of one behind it finds the name still in use, and that is the
only way to get stuck (`type_changes_replay_iff_names_are_free`).
-/

namespace CqlDelta
namespace Plan

open Cql Delta

/-! ## Carrying statements out -/

/-- The fields of a type: the CQL type of each, under its name. -/
abbrev HeldFields := String → Option String

/-- Carries out a change of a field of a type. Only a field that is there is retyped or renamed, and
it is only renamed to a name that is free. -/
def carryOut? (type : TypeName) (held : HeldFields) : Statement → Option HeldFields
  | .retypeTypeField target field =>
      if target = type ∧ (held field.name).isSome then
        some (Function.update held field.name (some field.type))
      else none
  | .renameTypeField target old new =>
      if target = type ∧ (held old).isSome ∧ held new = none then
        some (Function.update (Function.update held old none) new (held old))
      else none
  | _ => none

/-- The fields of a type after statements were carried out one after another, unless one of them
cannot be. -/
def replay? (type : TypeName) (held : HeldFields) (statements : List Statement) :
    Option HeldFields :=
  statements.foldlM (carryOut? type) held

/-! ## Changed fields -/

/-- The old and the new name of a renamed field. -/
def fieldRename? (field : String × Node) : Option (String × String) :=
  field.2.changes.head?.bind fun change => change.name.bind Revision.changed?

/-- The name of a field before the change. -/
def oldName (field : String × Node) : String :=
  ((fieldRename? field).map Prod.fst).getD field.1

/-- The name of a field after the change. -/
def newName (field : String × Node) : String :=
  ((fieldRename? field).map Prod.snd).getD field.1

/-- A field is retyped in place: its change declares different types on its two sides, and the old
one converts to the new one. -/
inductive RetypedTo (names : Listing String) (field : String × Node) : String → Prop
  | intro {change : Change} {before after : Snapshot} {old new : Declaration}
      (changed : field.2.changes.head? = some change)
      (earlier : change.before = some before)
      (later : change.after = some after)
      (declared : before.declaration = some old)
      (redeclared : after.declaration = some new)
      (typed : old.declaresType = true)
      (retyped : new.declaresType = true)
      (differ : cqlType names old ≠ cqlType names new)
      (convertible : isConvertible (cqlType names old) (cqlType names new) = true) :
      RetypedTo names field (cqlType names new)

/-- The type that a field is retyped to. -/
def retypeOf? (scope : Scope) (field : String × Node) : Option String :=
  field.2.changes.head?.bind fun change =>
    ((fieldRetype? scope change).filter fun types => isConvertible types.old types.new).map
      Retype.new

theorem retypedTo_iff
    (scope : Scope)
    {field : String × Node}
    {type : String} :
    RetypedTo scope.names field type ↔ retypeOf? scope field = some type := by
  constructor
  · rintro ⟨changed, earlier, later, declared, redeclared, typed, retyped, differ, convertible⟩
    simp [retypeOf?, fieldRetype?, declarations?, changed, earlier, later, declared, redeclared,
      typed, retyped, Scope.retype, differ, convertible]
  · intro h
    obtain ⟨change, changed, h⟩ := Option.bind_eq_some_iff.mp h
    obtain ⟨types, htypes, rfl⟩ := Option.map_eq_some_iff.mp h
    obtain ⟨hretype, convertible⟩ := Option.filter_eq_some_iff.mp htypes
    obtain ⟨sides, hsides, h⟩ := Option.bind_eq_some_iff.mp hretype
    obtain ⟨before, after, earlier, later, declared, redeclared⟩ :=
      declarations?_eq_some_iff.mp hsides
    obtain ⟨hguard, htypes⟩ := Option.ite_none_right_eq_some.mp h
    obtain rfl := Option.some.inj htypes
    simp only [Bool.and_eq_true, decide_eq_true_eq] at hguard
    obtain ⟨⟨typed, retyped⟩, differ⟩ := hguard
    exact .intro changed earlier later declared redeclared typed retyped differ convertible

/-- A changed field is first retyped under its old name and then renamed. -/
theorem fieldSteps_eq
    (scope : Scope)
    (field : String × Node) :
    fieldSteps scope field =
      ((retypeOf? scope field).map fun type => TypeStep.retypeField ⟨oldName field, type⟩).toList
        ++ ((fieldRename? field).map fun names =>
          TypeStep.renameField names.1 names.2).toList := by
  rw [fieldSteps, retypeOf?, oldName, fieldRename?]
  cases field.2.changes with
  | nil => rfl
  | cons change more => simp [Option.map_map, Function.comp_def]

/-- A renamed field has its new name instead of its old one, and they differ. -/
theorem names_of_fieldRename?
    {field : String × Node}
    {names : String × String}
    (h : fieldRename? field = some names) :
    oldName field = names.1 ∧ newName field = names.2 ∧ names.1 ≠ names.2 := by
  refine ⟨by simp [oldName, h], by simp [newName, h], ?_⟩
  obtain ⟨change, -, h⟩ := Option.bind_eq_some_iff.mp h
  obtain ⟨revision, -, h⟩ := Option.bind_eq_some_iff.mp h
  rw [Revision.changed?] at h
  split at h
  · split at h
    · simp at h
    · rename_i hne
      obtain rfl := Option.some.inj h
      exact hne
  · simp at h

theorem oldName_eq_newName
    {field : String × Node}
    (h : fieldRename? field = none) :
    oldName field = newName field := by
  simp [oldName, newName, h]

/-! ## One field -/

variable (scope : Scope) (type : TypeName) (held : HeldFields)

/-- The fields after a field moved from its old name to its new one, with its new type if it is
retyped. -/
def moveField (field : String × Node) : HeldFields :=
  Function.update (Function.update held (oldName field) none) (newName field)
    ((retypeOf? scope field).or (held (oldName field)))

/-- What is said of a changed field of a type. -/
def saidOfField (field : String × Node) : List Statement :=
  (fieldSteps scope field).map (TypeStep.saidOf type)

variable {scope type held}

theorem replay?_append
    (first second : List Statement) :
    replay? type held (first ++ second) =
      (replay? type held first).bind fun held => replay? type held second :=
  List.foldlM_append

theorem replay?_retype
    {name : String}
    (h : (held name).isSome)
    (retype : Option String) :
    replay? type held
        ((retype.map fun new => TypeStep.retypeField ⟨name, new⟩).toList.map
          (TypeStep.saidOf type)) =
      some (Function.update held name (retype.or (held name))) := by
  cases retype with
  | none => simp [replay?]
  | some new => simp [replay?, TypeStep.saidOf, carryOut?, h]

/-- A field that is there moves to its new name just if it keeps its name or the new one is free. -/
theorem replay?_saidOfField
    {field : String × Node}
    (h : (held (oldName field)).isSome) :
    replay? type held (saidOfField scope type field) =
      if newName field = oldName field ∨ held (newName field) = none then
        some (moveField scope held field)
      else none := by
  have htyped : ((retypeOf? scope field).or (held (oldName field))).isSome := by
    simp [h]
  rw [saidOfField, fieldSteps_eq, List.map_append, replay?_append, replay?_retype h,
    Option.bind_some, moveField]
  cases hrename : fieldRename? field with
  | none => simp [replay?, oldName_eq_newName hrename]
  | some names =>
      obtain ⟨hold, hnew, hne⟩ := names_of_fieldRename? hrename
      rw [hold] at htyped ⊢
      rw [hnew]
      simp [replay?, TypeStep.saidOf, carryOut?, htyped, hne.symm]

/-! ## Field after field -/

/-- Fields that are about to move: their old names are there, and a new name is only in use if one
of them is still to leave it. -/
structure AboutToMove (held : HeldFields) (fields : Members) : Prop where
  olds : (fields.map oldName).Nodup
  news : (fields.map newName).Nodup
  present : ∀ field ∈ fields, (held (oldName field)).isSome
  free : ∀ field ∈ fields, (held (newName field)).isSome → newName field ∈ fields.map oldName

/-- No field takes the old name of one behind it. -/
def NamesAreFree (fields : Members) : Prop :=
  fields.Pairwise fun earlier later => newName earlier ≠ oldName later

variable {field : String × Node} {more : Members}

/-- A field that takes the old name of one behind it gets stuck. -/
theorem AboutToMove.stuck
    (h : AboutToMove held (field :: more))
    (htaken : ∃ later ∈ more, newName field = oldName later) :
    replay? type held (saidOfField scope type field) = none := by
  obtain ⟨later, hlater, hname⟩ := htaken
  have hother : newName field ≠ oldName field := by
    intro heq
    have holds := h.olds
    rw [List.map_cons, List.nodup_cons] at holds
    exact holds.1 (List.mem_map.mpr ⟨later, hlater, hname.symm.trans heq⟩)
  have hheld : held (newName field) ≠ none := by
    rw [hname, Option.ne_none_iff_isSome]
    exact h.present later (List.mem_cons_of_mem _ hlater)
  rw [replay?_saidOfField (h.present field List.mem_cons_self), if_neg (by simp [hother, hheld])]

/-- Any other field moves. -/
theorem AboutToMove.moves
    (h : AboutToMove held (field :: more))
    (hfree : ∀ later ∈ more, newName field ≠ oldName later) :
    replay? type held (saidOfField scope type field) = some (moveField scope held field) := by
  rw [replay?_saidOfField (h.present field List.mem_cons_self), if_pos]
  by_contra hstuck
  rw [not_or] at hstuck
  have hname := h.free field List.mem_cons_self (Option.ne_none_iff_isSome.mp hstuck.2)
  rw [List.map_cons, List.mem_cons, List.mem_map] at hname
  rcases hname with hkept | ⟨later, hlater, hname⟩
  · exact hstuck.1 hkept
  · exact hfree later hlater hname.symm

theorem moveField_newName
    (field : String × Node) :
    moveField scope held field (newName field) =
      (retypeOf? scope field).or (held (oldName field)) :=
  Function.update_self ..

theorem moveField_of_ne
    {name : String}
    (h : name ≠ newName field) :
    moveField scope held field name = if name = oldName field then none else held name := by
  rw [moveField, Function.update_of_ne h, Function.update_apply]

/-- The old names behind a field that moved are still there. -/
theorem AboutToMove.moveField_oldName
    (h : AboutToMove held (field :: more))
    (hfree : ∀ later ∈ more, newName field ≠ oldName later)
    {later : String × Node}
    (hlater : later ∈ more) :
    moveField scope held field (oldName later) = held (oldName later) := by
  have holds := h.olds
  rw [List.map_cons, List.nodup_cons, List.mem_map] at holds
  rw [moveField_of_ne (hfree later hlater).symm, if_neg]
  exact fun heq => holds.1 ⟨later, hlater, heq⟩

/-- Behind a field that moved the others are about to move. -/
theorem AboutToMove.tail
    (h : AboutToMove held (field :: more))
    (hfree : ∀ later ∈ more, newName field ≠ oldName later) :
    AboutToMove (moveField scope held field) more := by
  have hnews := h.news
  rw [List.map_cons, List.nodup_cons, List.mem_map] at hnews
  refine ⟨(List.nodup_cons.mp h.olds).2, hnews.2, ?present, ?free⟩
  case present =>
    intro later hlater
    rw [h.moveField_oldName hfree hlater]
    exact h.present later (List.mem_cons_of_mem _ hlater)
  case free =>
    intro later hlater hused
    have hne : newName later ≠ newName field := fun heq => hnews.1 ⟨later, hlater, heq⟩
    rw [moveField_of_ne hne] at hused
    split at hused
    · simp at hused
    · rename_i hleft
      have hname := h.free later (List.mem_cons_of_mem _ hlater) hused
      rw [List.map_cons, List.mem_cons] at hname
      exact hname.resolve_left hleft

theorem replay?_fields_cons
    (field : String × Node)
    (more : Members) :
    replay? type held ((field :: more).flatMap (saidOfField scope type)) =
      (replay? type held (saidOfField scope type field)).bind fun held =>
        replay? type held (more.flatMap (saidOfField scope type)) := by
  rw [List.flatMap_cons, replay?_append]

/-- If no field takes the old name of one behind it, all of them move, and no other name is left
with a field. -/
theorem AboutToMove.replay
    {fields : Members}
    (h : AboutToMove held fields)
    (hfree : NamesAreFree fields)
    (scope : Scope)
    (type : TypeName) :
    ∃ final, replay? type held (fields.flatMap (saidOfField scope type)) = some final ∧
      (∀ field ∈ fields,
        final (newName field) = (retypeOf? scope field).or (held (oldName field))) ∧
      ∀ name ∉ fields.map newName,
        final name = if name ∈ fields.map oldName then none else held name := by
  -- What is held changes with every field that moves; the rest is about to move again.
  induction fields generalizing held with
  | nil => exact ⟨held, rfl, by simp, by simp⟩
  | cons field more ih =>
      obtain ⟨hfield, hmore⟩ := List.pairwise_cons.mp hfree
      have htail : AboutToMove (moveField scope held field) more := h.tail hfield
      obtain ⟨final, hfinal, hmoved, hleft⟩ := ih htail hmore
      refine ⟨final, ?run, ?moved, ?left⟩
      case run =>
        rw [replay?_fields_cons, h.moves hfield, Option.bind_some, hfinal]
      case moved =>
        intro other hother
        rcases List.mem_cons.mp hother with rfl | hother
        · -- No field behind it takes its new name or leaves it.
          have hnew : newName other ∉ more.map newName := (List.nodup_cons.mp h.news).1
          have hold : newName other ∉ more.map oldName := by
            rw [List.mem_map]
            rintro ⟨later, hlater, hname⟩
            exact hfield later hlater hname.symm
          rw [hleft _ hnew, if_neg hold, moveField_newName]
        · rw [hmoved other hother, h.moveField_oldName hfield hother]
      case left =>
        intro name hname
        rw [List.map_cons, List.mem_cons, not_or] at hname
        rw [hleft name hname.2, moveField_of_ne hname.1, List.map_cons]
        by_cases hold : name = oldName field
        · rw [if_pos hold, ite_self, if_pos (List.mem_cons.mpr (.inl hold))]
        · rw [if_neg hold]
          exact if_congr (by rw [List.mem_cons, or_iff_right hold]) rfl rfl

/-- If a field takes the old name of one behind it, the fields get stuck. -/
theorem AboutToMove.replay_eq_none
    {fields : Members}
    (h : AboutToMove held fields)
    (htaken : ¬NamesAreFree fields) :
    replay? type held (fields.flatMap (saidOfField scope type)) = none := by
  induction fields generalizing held with
  | nil => exact absurd .nil htaken
  | cons field more ih =>
      rw [replay?_fields_cons]
      by_cases hfield : ∀ later ∈ more, newName field ≠ oldName later
      · rw [h.moves hfield, Option.bind_some]
        exact ih (h.tail hfield) fun hmore => htaken (List.pairwise_cons.mpr ⟨hfield, hmore⟩)
      · simp only [not_forall, not_not] at hfield
        obtain ⟨later, hlater, hname⟩ := hfield
        rw [h.stuck ⟨later, hlater, hname⟩, Option.bind_none]

/-! ## Whole plans -/

/-- What became of the fields of a type: they have exactly their new names, a field that is retyped
its new type, and any other one its old type. -/
structure Moved (names : Listing String) (fields : Members) (held final : HeldFields) : Prop where
  named : ∀ name, (final name).isSome ↔ name ∈ fields.map newName
  retyped : ∀ field ∈ fields, ∀ type, RetypedTo names field type →
    final (newName field) = some type
  kept : ∀ field ∈ fields, (∀ type, ¬RetypedTo names field type) →
    final (newName field) = held (oldName field)

/-- Fields with exactly the old names are about to move. -/
theorem aboutToMove_of_exact
    {fields : Members}
    (holds : (fields.map oldName).Nodup)
    (hnews : (fields.map newName).Nodup)
    (hheld : ∀ name, (held name).isSome ↔ name ∈ fields.map oldName) :
    AboutToMove held fields where
  olds := holds
  news := hnews
  present _ hfield := (hheld _).mpr (List.mem_map_of_mem hfield)
  free _ _ := (hheld _).mp

/-- Fields with exactly the old names end with exactly the new ones, unless one of them takes the
old name of one behind it. -/
theorem exists_moved
    {fields : Members}
    (holds : (fields.map oldName).Nodup)
    (hnews : (fields.map newName).Nodup)
    (hheld : ∀ name, (held name).isSome ↔ name ∈ fields.map oldName)
    (hfree : NamesAreFree fields) :
    ∃ final, replay? type held (fields.flatMap (saidOfField scope type)) = some final ∧
      Moved scope.names fields held final := by
  obtain ⟨final, hfinal, hmoved, hleft⟩ :=
    (aboutToMove_of_exact holds hnews hheld).replay hfree scope type
  refine ⟨final, hfinal, ?named, ?retyped, ?kept⟩
  case named =>
    intro name
    by_cases hname : name ∈ fields.map newName
    · obtain ⟨field, hfield, rfl⟩ := List.mem_map.mp hname
      have hpresent := (hheld (oldName field)).mpr (List.mem_map_of_mem hfield)
      simp [hmoved field hfield, hpresent, hname]
    · rw [hleft name hname]
      split
      · simp [hname]
      · rename_i hold
        rw [hheld]
        exact iff_of_false hold hname
  case retyped =>
    intro field hfield new hretyped
    rw [hmoved field hfield, (retypedTo_iff scope).mp hretyped, Option.some_or]
  case kept =>
    intro field hfield hkept
    have hretype : retypeOf? scope field = none :=
      Option.eq_none_iff_forall_ne_some.mpr fun new hnew =>
        hkept new ((retypedTo_iff scope).mpr hnew)
    rw [hmoved field hfield, hretype, Option.none_or]

/-- In each of its keyspaces a modified type is told what is said of its fields, one after another,
and nothing else. -/
theorem filter_statements_of_modified
    {document : Node}
    (hdistinct : document.Distinct)
    {spot : Spot}
    {entry : String × Node}
    (hstands : StandsAt document spot entry)
    (htypes : spot.part = .definitions)
    (hmodified : spot.nested.getLast? = some (.part .modified))
    {fields : Members}
    (hfields : entry.2.properties = some fields)
    {placement : Placement}
    (hplaced : entry.2.placement? = some placement)
    {keyspace : String}
    (hkeyspace : keyspace ∈ placement.names) :
    (spot.trail scope entry).statements.filter (isAboutTypeIn keyspace) =
      fields.flatMap (saidOfField scope ⟨keyspace, entry.1⟩) := by
  have hnodup := nodup_placement_of_stands hdistinct hstands hplaced
  rw [statements_of_typePart hstands htypes hmodified, statementsOf_typeEvents hplaced,
    filter_isAboutTypeIn_eq, List.filter_append,
    filter_isAboutType_columnsBefore, List.nil_append, filter_isAboutType_fanOut,
    filter_isAboutTypeIn_fanOut hnodup, if_pos hkeyspace, typeGroups, fieldsOf, hfields,
    Option.getD_some, List.map_flatten, List.map_map]
  rfl

/-- What a plan says of a modified type stands in one piece. Let the old names of its fields be
distinct, and the new ones as well, and carry out what is said of the type in one of its keyspaces
on a type whose fields have exactly the old names. If no field takes the old name of one behind it,
all statements are carried out, and the fields end with exactly their new names, each retyped one
with its new type and any other one with its old type. If a field does, a statement cannot be
carried out. -/
theorem type_changes_replay_iff_names_are_free
    (options : Options)
    (names : Listing String)
    (context : Context)
    (document : Node)
    (hdistinct : document.Distinct)
    (spot : Spot)
    (entry : String × Node)
    (hstands : StandsAt document spot entry)
    (htypes : spot.part = .definitions)
    (hmodified : spot.nested.getLast? = some (.part .modified))
    (fields : Members)
    (hfields : entry.2.properties = some fields)
    (placement : Placement)
    (hplaced : entry.2.placement? = some placement)
    (holds : (fields.map oldName).Nodup)
    (hnews : (fields.map newName).Nodup)
    (keyspace : String)
    (hkeyspace : keyspace ∈ placement.names)
    (held : HeldFields)
    (hheld : ∀ name, (held name).isSome ↔ name ∈ fields.map oldName) :
    let said := (spot.trail (scopeIn options names context) entry).statements
    let replayed := replay? ⟨keyspace, entry.1⟩ held (said.filter (isAboutTypeIn keyspace))
    (∀ plan, (compile options names context document).result = .ok plan → said <:+: plan) ∧
    (NamesAreFree fields → ∃ final, replayed = some final ∧ Moved names fields held final) ∧
    (¬NamesAreFree fields → replayed = none) := by
  intro said replayed
  have hreplayed : replayed = replay? ⟨keyspace, entry.1⟩ held
      (fields.flatMap (saidOfField (scopeIn options names context) ⟨keyspace, entry.1⟩)) :=
    congrArg (replay? _ held)
      (filter_statements_of_modified hdistinct hstands htypes hmodified hfields hplaced hkeyspace)
  refine ⟨fun plan => infix_of_stands hstands, ?free, ?taken⟩
  case free =>
    intro hfree
    rw [hreplayed]
    exact exists_moved holds hnews hheld hfree
  case taken =>
    intro htaken
    rw [hreplayed]
    exact (aboutToMove_of_exact holds hnews hheld).replay_eq_none htaken

/-- A field of a text that is renamed, and that has a new type. -/
def renamedField (old new type : String) : String × Node :=
  let declared (type : String) : Option Snapshot := some ⟨some { physical := some type }⟩
  (new,
    { change := some
        { name := some ⟨some new, some old⟩, before := declared "text", after := declared type } })

/-- A type with changed fields. -/
def changedType (fields : Members) : Node :=
  { change := some { placement := some [("shop", [])] }, properties := some fields }

theorem changedType_distinct
    {fields : Members}
    (hnames : fields.names.Nodup)
    (hfields : ∀ field ∈ fields, ∃ old new type, field = renamedField old new type) :
    (changedType fields).Distinct := by
  refine Node.distinct_withMembers hnames ?_ (by simp [Change.Distinct, Listing.names])
  intro field hfield
  obtain ⟨old, new, type, rfl⟩ := hfields field hfield
  exact Node.distinct_leaf (by simp) (by simp [Change.Distinct])

/-- The fields of a type, all of them texts. -/
def textFields (names : List String) : HeldFields :=
  fun name => if name ∈ names then some "text" else none

theorem isSome_textFields
    (names : List String)
    (name : String) :
    (textFields names name).isSome ↔ name ∈ names := by
  rw [textFields]
  split <;> simp_all

theorem field_takes_name_that_was_left :
    let fields := [renamedField "street" "lane" "varchar", renamedField "road" "street" "text"]
    let document := typeDocument .modified (changedType fields)
    let spot : Spot := ⟨[], .definitions, [.part .modified], 0⟩
    let address : TypeName := ⟨"shop", "address"⟩
    let plan : List Statement :=
      [ .retypeTypeField address ⟨"street", "varchar"⟩, .renameTypeField address "street" "lane",
        .renameTypeField address "road" "street" ]
    let held := textFields ["street", "road"]
    document.Distinct ∧ StandsAt document spot ("address", changedType fields) ∧
      spot.part = .definitions ∧ spot.nested.getLast? = some (.part .modified) ∧
      (changedType fields).placement? = some [("shop", [])] ∧
      (fields.map oldName).Nodup ∧ (fields.map newName).Nodup ∧
      (∀ name, (held name).isSome ↔ name ∈ fields.map oldName) ∧ NamesAreFree fields ∧
      (compile {} [] {} document).result = .ok plan ∧
      ∃ final, replay? address held plan = some final ∧ Moved [] fields held final := by
  intro fields document spot address plan held
  have hdistinct : document.Distinct :=
    typeDocument_distinct (changedType_distinct (by decide) (by simp [fields])) .modified
  have hstands : StandsAt document spot ("address", changedType fields) :=
    typeDocument_stands (by decide) _
  have holds : (fields.map oldName).Nodup := by decide
  have hnews : (fields.map newName).Nodup := by decide
  have hheld : ∀ name, (held name).isSome ↔ name ∈ fields.map oldName :=
    isSome_textFields ["street", "road"]
  have hfree : NamesAreFree fields := by
    rw [NamesAreFree]
    decide
  obtain ⟨-, hreplayed, -⟩ :=
    type_changes_replay_iff_names_are_free {} [] {} document hdistinct spot _ hstands rfl rfl fields
      rfl _ rfl holds hnews "shop" (by decide) held hheld
  have hsaid : (spot.trail (scopeIn {} [] {}) ("address", changedType fields)).statements.filter
      (isAboutTypeIn "shop") = plan := by
    decide +kernel
  rw [hsaid] at hreplayed
  refine ⟨hdistinct, hstands, rfl, rfl, rfl, holds, hnews, hheld, hfree, ?_, hreplayed hfree⟩
  decide +kernel

/-- A field cannot take the name of another one before that one has left it. -/
theorem field_takes_name_too_early :
    let fields := [renamedField "road" "street" "text", renamedField "street" "lane" "text"]
    let document := typeDocument .modified (changedType fields)
    let spot : Spot := ⟨[], .definitions, [.part .modified], 0⟩
    let address : TypeName := ⟨"shop", "address"⟩
    let held := textFields ["road", "street"]
    document.Distinct ∧ StandsAt document spot ("address", changedType fields) ∧
      (changedType fields).placement? = some [("shop", [])] ∧
      (fields.map oldName).Nodup ∧ (fields.map newName).Nodup ∧
      (∀ name, (held name).isSome ↔ name ∈ fields.map oldName) ∧
      ∃ plan, (compile {} [] {} document).result = .ok plan ∧
        (spot.trail (scopeIn {} [] {}) ("address", changedType fields)).statements.filter
          (isAboutTypeIn "shop") = plan ∧
        replay? address held plan = none := by
  intro fields document spot address held
  refine ⟨typeDocument_distinct (changedType_distinct (by decide) (by simp [fields])) .modified,
    typeDocument_stands (by decide) _, rfl, by decide, by decide,
    isSome_textFields ["road", "street"],
    [.renameTypeField address "road" "street", .renameTypeField address "street" "lane"],
    ?_, ?_, rfl⟩
  · decide +kernel
  · decide +kernel

end Plan
end CqlDelta
