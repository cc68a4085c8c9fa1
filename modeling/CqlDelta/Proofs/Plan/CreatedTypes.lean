import CqlDelta.Proofs.Plan.FanOut

/-!
# Created types

A created type belongs into every keyspace that its placement names, and into the default keyspace
if there is none. The default keyspace is only taken for a type without a placement, so that a type
whose placement is there but empty is created nowhere. These are the only created types that are
lost (`created_type_is_lost_iff_placement_is_empty`).
-/

namespace CqlDelta
namespace Plan

open Cql Delta

/-- The keyspaces that a created type belongs into: those of its placement, and if it is not defined
in any keyspace, the default one. -/
def homesOf (options : Options) (type : Node) : List String :=
  match (type.placement?.getD []).names with
  | [] => [options.defaultKeyspace]
  | home :: homes => home :: homes

theorem homesOf_ne_nil
    (options : Options)
    (type : Node) :
    homesOf options type ≠ [] := by
  rw [homesOf]
  split <;> simp

theorem isCreated_iff
    {type : Node} :
    isCreated type = true ↔ ∃ change ∈ type.changes, change.created = true :=
  List.any_eq_true

/-- A created type is created once in each of its homes, unless its placement is empty. -/
theorem statementsOf_createType
    (scope : Scope)
    (name : String)
    (type : Node) :
    statementsOf (createType scope name type) =
      if type.placement? = some [] then []
      else (homesOf scope.options type).map fun keyspace =>
        .createType ⟨keyspace, name⟩ (initialFields scope type) := by
  rw [createType, homesOf]
  cases type.placement? with
  | none => rfl
  | some placement =>
      cases placement with
      | nil => rfl
      | cons home homes =>
          rw [if_neg (by simp)]
          exact statementsOf_map _ _

/-- The homes of a type that stands in a comparison are distinct. -/
theorem nodup_homesOf
    {document : Node}
    (hdistinct : document.Distinct)
    {spot : Spot}
    {entry : String × Node}
    (hstands : StandsAt document spot entry)
    (options : Options) :
    (homesOf options entry.2).Nodup := by
  rw [homesOf]
  split
  · simp
  · rename_i home homes hnames
    rw [← hnames]
    cases hplaced : entry.2.placement? with
    | none => exact List.nodup_nil
    | some placement => exact nodup_placement_of_stands hdistinct hstands hplaced

/-- What a plan says of a created type stands in one piece: the type is created exactly once in each
of its homes and nothing else is said, with all fields that do not refer to other types, in document
order and with their CQL types. Only a type whose placement is there but empty is lost. -/
theorem created_type_is_lost_iff_placement_is_empty
    (options : Options)
    (names : Listing String)
    (context : Context)
    (document : Node)
    (hdistinct : document.Distinct)
    (spot : Spot)
    (entry : String × Node)
    (hstands : StandsAt document spot entry)
    (htypes : spot.part = .definitions)
    (hadded : spot.nested.getLast? = some (.part .added))
    (hcreated : ∃ change ∈ entry.2.changes, change.created = true) :
    let said := (spot.trail (scopeIn options names context) entry).statements
    let fields := ((entry.2.properties.getD []).filter fun field =>
      field.2.declaration.reference.isNone).map fun field =>
        (⟨field.1, cqlType names field.2.declaration⟩ : TypeField)
    (∀ plan, (compile options names context document).result = .ok plan → said <:+: plan) ∧
    (homesOf options entry.2).Nodup ∧
    (entry.2.placement? ≠ some [] →
      said = (homesOf options entry.2).map fun keyspace =>
        .createType ⟨keyspace, entry.1⟩ fields) ∧
    (said = [] ↔ entry.2.placement? = some []) := by
  intro said fields
  have hsaid : said = if entry.2.placement? = some [] then []
      else (homesOf options entry.2).map fun keyspace =>
        .createType ⟨keyspace, entry.1⟩ fields := by
    refine (statements_of_typePart hstands htypes hadded _).trans ?_
    rw [TypeEntry.events, addedType, if_pos (isCreated_iff.mpr hcreated)]
    exact statementsOf_createType _ _ _
  refine ⟨fun plan => infix_of_stands hstands, nodup_homesOf hdistinct hstands options, ?homes,
    ?lost⟩
  case homes =>
    intro hplaced
    rw [hsaid, if_neg hplaced]
  case lost =>
    rw [hsaid]
    split
    · simpa
    · simpa [homesOf_ne_nil]

/-- A created type with a field of its own and a field that refers to another type. -/
def createdType (placement : Option Placement) : Node :=
  { change := some { created := true, placement := placement }
    properties := some
      [ ("street", { declaration := { physical := some "text" } }),
        ("country", { declaration := { reference := some "#/definitions/country" } }) ] }

theorem createdType_distinct
    {placement : Option Placement}
    (h : ∀ homes, placement = some homes → homes.names.Nodup) :
    (createdType placement).Distinct := by
  have hfield (declaration : Declaration) : Node.Distinct { declaration := declaration } :=
    Node.distinct_leaf (by simp) (by simp)
  refine Node.distinct_withMembers (by simp [Listing.names]) ?_ (by simpa [Change.Distinct] using h)
  simp only [List.forall_mem_cons]
  exact ⟨hfield _, hfield _, by simp⟩

theorem new_type_is_created_in_both_keyspaces :
    let type := createdType (some [("shop", []), ("crm", [])])
    let document := typeDocument .added type
    let spot : Spot := ⟨[], .definitions, [.part .added], 0⟩
    let plan : List Statement :=
      [ .createType ⟨"shop", "address"⟩ [⟨"street", "text"⟩],
        .createType ⟨"crm", "address"⟩ [⟨"street", "text"⟩] ]
    document.Distinct ∧ StandsAt document spot ("address", type) ∧ spot.part = .definitions ∧
      spot.nested.getLast? = some (.part .added) ∧
      (∃ change ∈ type.changes, change.created = true) ∧ type.placement? ≠ some [] ∧
      (compile {} [] {} document).result = .ok plan ∧
      (spot.trail (scopeIn {} [] {}) ("address", type)).statements = plan := by
  intro type document spot plan
  have hdistinct : document.Distinct :=
    typeDocument_distinct (createdType_distinct (by simp [Listing.names])) .added
  have hstands : StandsAt document spot ("address", type) := typeDocument_stands (by decide) type
  have hcreated : ∃ change ∈ type.changes, change.created = true := ⟨_, List.mem_cons_self, rfl⟩
  have hplaced : type.placement? ≠ some [] := by decide
  obtain ⟨-, -, hhomes, -⟩ :=
    created_type_is_lost_iff_placement_is_empty {} [] {} _ hdistinct spot _ hstands rfl rfl hcreated
  have hresult : (compile {} [] {} document).result = .ok plan := by
    decide +kernel
  refine ⟨hdistinct, hstands, rfl, rfl, hcreated, hplaced, hresult, ?_⟩
  rw [hhomes hplaced]
  decide +kernel

/-- The default keyspace is not taken for a type whose placement names no keyspace, although it is
for one without a placement. -/
theorem type_with_empty_placement_is_not_created :
    let type := createdType (some [])
    let document := typeDocument .added type
    let spot : Spot := ⟨[], .definitions, [.part .added], 0⟩
    document.Distinct ∧ StandsAt document spot ("address", type) ∧
      (∃ change ∈ type.changes, change.created = true) ∧
      homesOf {} type = ["Default_Keyspace"] ∧
      (compile {} [] {} document).result = .ok [] ∧
      (compile {} [] {} (typeDocument .added (createdType none))).result =
        .ok [.createType ⟨"Default_Keyspace", "address"⟩ [⟨"street", "text"⟩]] := by
  intro type document spot
  refine ⟨typeDocument_distinct (createdType_distinct (by simp [Listing.names])) .added,
    typeDocument_stands (by decide) type, ⟨_, List.mem_cons_self, rfl⟩, rfl, ?_, ?_⟩
  · decide +kernel
  · decide +kernel

end Plan
end CqlDelta
