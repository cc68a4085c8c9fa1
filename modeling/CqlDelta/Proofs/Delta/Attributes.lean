import CqlDelta.Delta.Reading
import CqlDelta.Delta.Writing
import CqlDelta.Proofs.Delta.Distinct
import CqlDelta.Proofs.Json.Records

/-!
# Attributes read back

What a comparison says about an element is recovered from its written form, and what is read nests
no deeper when it is written than the room it was read in. The only condition is on placements:
their keyspaces are distinct, as they are in every placement that was read.
-/

namespace CqlDelta
namespace Delta

open Json

variable {α : Type}

/-! ## Leaves -/

@[simp]
theorem nesting_valueOr_le_iff
    {write : α → Value}
    {value : Option α}
    {room : Nat} :
    (valueOr write value).nesting ≤ room ↔
      ∀ inner, value = some inner → (write inner).nesting ≤ room := by
  cases value with
  | none => simp [valueOr]
  | some inner => simp [valueOr]

@[simp]
theorem nesting_factor
    (factor : Factor) :
    factor.toValue.nesting = 0 := by
  cases factor <;> rfl

@[simp]
theorem fits_valueOr_iff
    {write : α → Value}
    {value : Option α} :
    (valueOr write value).fits ↔ ∀ inner, value = some inner → (write inner).fits := by
  cases value with
  | none => simp [valueOr]
  | some inner => simp [valueOr]

@[simp]
theorem fits_factor
    (factor : Factor) :
    factor.toValue.fits := by
  cases factor with
  | number n => exact n.toNat_lt
  | text content => trivial

theorem recovers_valueOr
    {reader : Reader α}
    {write : α → Value}
    (value : Option α)
    (h : ∀ inner, value = some inner → Recovers reader write inner)
    (hnull : ∀ inner, (write inner).toTree.isNull = false) :
    Recovers (readOption reader) (valueOr write) value := by
  intro route hany
  cases value with
  | none => rfl
  | some inner =>
      have hread := h inner rfl route hany
      simp [valueOr, readOption, hnull inner, hread, Except.map]

theorem recovers_string
    (content : String) :
    Recovers readString .text content :=
  fun _ _ => rfl

theorem recovers_ofText?
    (content : Option String) :
    Recovers readText? .ofText? content := by
  intro route _
  cases content <;> rfl

theorem recovers_flag
    (flag : Bool) :
    Recovers readFlag .bool flag :=
  fun _ _ => rfl

theorem recovers_optionalFlag
    (flag : Option Bool) :
    Recovers readOptionalFlag (valueOr .bool) flag := by
  intro route _
  cases flag <;> rfl

/-- A number below `2 ^ 64` is read as the factor that it was. -/
theorem recovers_factor
    (factor : Option Factor) :
    Recovers readFactor (valueOr Factor.toValue) factor := by
  intro route _
  match factor with
  | none => rfl
  | some (.text content) => rfl
  | some (.number n) =>
      simp [valueOr, Factor.toValue, Value.toTree, readFactor, readAhead, readAny, value?_toNat,
        factorOf?, factorOfNumber, bind, Except.bind, pure, Except.pure]

theorem nesting_le_trans
    {write : α → Value}
    {less more : Nat}
    {value : α}
    (hle : less ≤ more)
    (h : (write value).nesting ≤ less) :
    (write value).nesting ≤ more :=
  Nat.le_trans h hle

/-! ## Declarations -/

/-- The keys of a declaration, with what is written for them. -/
def Declaration.written (declaration : Declaration) : List (String × Option Value) :=
  [ ("type", declaration.logical.map .text),
    ("mode", declaration.physical.map .text),
    ("$ref", declaration.reference.map .text),
    ("subtype", declaration.element.map .text),
    ("keySubtype", declaration.mapKey.map .text),
    ("GUID", declaration.guid.map .text),
    ("compositePartitionKey", setFlag? declaration.inPartitionKey),
    ("compositeClusteringKey", setFlag? declaration.inClusteringKey) ]

theorem members_eq_present
    (declaration : Declaration) :
    declaration.members = Value.present declaration.written :=
  rfl

/-- Nothing nests inside a declaration. -/
theorem nesting_declarationMember
    {declaration : Declaration}
    {member : String × Value}
    (h : member ∈ declaration.members) :
    member.2.nesting = 0 := by
  obtain ⟨key, value⟩ := member
  have hwritten : ∀ entry ∈ declaration.written, ∀ value ∈ entry.2, value.nesting = 0 := by
    simp [Declaration.written, setFlag?]
  rw [members_eq_present, mem_present_iff] at h
  exact hwritten _ h value rfl

theorem nesting_declaration
    (declaration : Declaration) :
    declaration.toValue.nesting ≤ 1 := by
  rw [Declaration.toValue, nesting_object_le_iff]
  exact fun member hmember => Nat.le_of_eq (nesting_declarationMember hmember)

theorem replays_text?
    {σ : Type}
    {route : Route}
    {key : String}
    {set : Option String → σ → σ}
    {content : Option String}
    {fields : List (RecordField σ)}
    {written : List (String × Option Value)}
    {start goal : σ}
    (hstart : set none start = start)
    (h : Replays route fields written (set content start) goal) :
    Replays route (.of key .fine readText? set :: fields) ((key, content.map .text) :: written)
      start goal := by
  cases content with
  | none =>
      rw [hstart] at h
      exact .absent (by simp [RecordField.of]) h
  | some content => exact .given (fun _ => rfl) h

theorem replays_setFlag?
    {σ : Type}
    {route : Route}
    {key : String}
    {set : Bool → σ → σ}
    {flag : Bool}
    {fields : List (RecordField σ)}
    {written : List (String × Option Value)}
    {start goal : σ}
    (hstart : set false start = start)
    (h : Replays route fields written (set flag start) goal) :
    Replays route (.of key .fine readFlag set :: fields) ((key, setFlag? flag) :: written)
      start goal := by
  cases flag with
  | false =>
      rw [hstart] at h
      exact .absent (by simp [RecordField.of]) h
  | true => exact .given (fun _ => rfl) h

theorem replays_declaration
    (route : Route)
    (declaration : Declaration) :
    Replays route declarationFields declaration.written {} declaration := by
  refine replays_text? rfl ?_
  refine replays_text? rfl ?_
  refine replays_text? rfl ?_
  refine replays_text? rfl ?_
  refine replays_text? rfl ?_
  refine replays_text? rfl ?_
  refine replays_setFlag? rfl ?_
  refine replays_setFlag? rfl ?_
  exact .nil declaration

theorem declarationKeys_nodup :
    (fieldKeys declarationFields).Nodup := by
  simp [fieldKeys, declarationFields, RecordField.of]

theorem recovers_declaration
    (declaration : Declaration) :
    Recovers declarationRecord.read Declaration.toValue declaration :=
  Record.recovers (congrArg Value.object (members_eq_present declaration)) declarationKeys_nodup
    fun route => replays_declaration route declaration

theorem yields_declaration :
    Yields declarationRecord.read fun room declaration => declaration.toValue.nesting ≤ room := by
  refine Yields.mono (Record.yields (P := fun _ _ => True) (fun _ => trivial) ?_) ?_
  · exact fun _ _ _ _ _ _ _ _ _ _ => trivial
  · rintro room declaration ⟨inner, hinner, -⟩
    have := nesting_declaration declaration
    omega

theorem fits_declarationMember
    {declaration : Declaration}
    {member : String × Value}
    (h : member ∈ declaration.members) :
    member.2.fits := by
  obtain ⟨key, value⟩ := member
  have hwritten : ∀ entry ∈ declaration.written, ∀ value ∈ entry.2, value.fits := by
    simp [Declaration.written, setFlag?]
  rw [members_eq_present, mem_present_iff] at h
  exact hwritten _ h value rfl

@[simp]
theorem fits_declaration
    (declaration : Declaration) :
    declaration.toValue.fits :=
  fits_object_iff.mpr fun _ hmember => fits_declarationMember hmember

/-! ## Revisions and snapshots -/

theorem nesting_revision
    (revision : Revision) :
    revision.toValue.nesting ≤ 1 := by
  simp [Revision.toValue, nesting_object_le_iff]

theorem yields_revision :
    Yields revisionRecord.read fun room revision => revision.toValue.nesting ≤ room := by
  refine Yields.mono (Record.yields (P := fun _ _ => True) (fun _ => trivial) ?_) ?_
  · exact fun _ _ _ _ _ _ _ _ _ _ => trivial
  · rintro room revision ⟨inner, hinner, -⟩
    have := nesting_revision revision
    omega

theorem recovers_revision
    (revision : Revision) :
    Recovers revisionRecord.read Revision.toValue revision := by
  refine Record.recovers_all rfl (by simp [fieldKeys, revisionRecord, RecordField.of]) ?_
  intro route
  refine .field (recovers_ofText? revision.new) ?_
  refine .field (recovers_ofText? revision.old) ?_
  exact .nil revision

@[simp]
theorem fits_revision
    (revision : Revision) :
    revision.toValue.fits := by
  simp [Revision.toValue]

theorem nesting_snapshot_le_iff
    {snapshot : Snapshot}
    {room : Nat} :
    snapshot.toValue.nesting ≤ room + 1 ↔
      ∀ declaration, snapshot.declaration = some declaration →
        declaration.toValue.nesting ≤ room := by
  simp [Snapshot.toValue, nesting_object_le_iff]

theorem yields_snapshot :
    Yields snapshotRecord.read fun room snapshot => snapshot.toValue.nesting ≤ room := by
  refine Yields.mono
    (Record.yields (P := fun room snapshot => snapshot.toValue.nesting ≤ room + 1) ?_ ?_) ?_
  · intro room
    simp [nesting_snapshot_le_iff, snapshotRecord]
  · intro room route tree hroom
    refine keptBy_cons (fun read hread value hvalue => ?_) keptBy_nil
    refine nesting_snapshot_le_iff.mpr fun declaration hdeclaration => ?_
    exact yields_declaration.within nesting_le_trans hroom hread declaration hdeclaration
  · rintro room snapshot ⟨inner, hinner, h⟩
    omega

theorem recovers_snapshot
    (snapshot : Snapshot) :
    Recovers snapshotRecord.read Snapshot.toValue snapshot := by
  refine Record.recovers_all rfl (by simp [fieldKeys, snapshotRecord, RecordField.of]) ?_
  intro route
  have hdeclaration := recovers_valueOr snapshot.declaration
    (fun declaration _ => recovers_declaration declaration) (fun _ => rfl)
  refine .field hdeclaration ?_
  exact .nil snapshot

@[simp]
theorem fits_snapshot
    (snapshot : Snapshot) :
    snapshot.toValue.fits := by
  simp [Snapshot.toValue]

/-! ## Placements -/

theorem yields_tableUse :
    Yields tableUseRecord.read fun room use => use.toValue.nesting ≤ room := by
  refine Yields.mono (Record.yields (P := fun _ _ => True) (fun _ => trivial) ?_) ?_
  · exact fun _ _ _ _ _ _ _ _ _ _ => trivial
  · rintro room use ⟨inner, hinner, -⟩
    have huse : use.toValue.nesting ≤ 1 := by simp [TableUse.toValue, nesting_object_le_iff]
    omega

theorem recovers_tableUse
    (use : TableUse) :
    Recovers tableUseRecord.read TableUse.toValue use := by
  refine Record.recovers_all rfl (by simp [fieldKeys, tableUseRecord, RecordField.of]) ?_
  intro route
  exact .field (recovers_string use.table) (.nil use)

/-- A placement that was read names every keyspace once. -/
theorem yields_placement :
    Yields readPlacement fun room placement =>
      (placementValue placement).nesting ≤ room ∧ (Listing.names placement).Nodup := by
  refine Yields.mono (yields_listing (yields_list yields_tableUse)) ?_
  rintro room placement ⟨hpos, hnames, hentries⟩
  refine ⟨?_, hnames⟩
  obtain ⟨less, rfl⟩ : ∃ less, room = less + 1 := ⟨room - 1, by omega⟩
  rw [placementValue, nesting_object_le_iff, List.forall_mem_map]
  intro entry hentry
  obtain ⟨inner, hinner, hpos, huses⟩ := hentries entry hentry
  obtain ⟨depth, rfl⟩ : ∃ depth, inner = depth + 1 := ⟨inner - 1, by omega⟩
  have huses' : (Value.list (entry.2.map TableUse.toValue)).nesting ≤ depth + 1 := by
    rw [nesting_list_le_iff, List.forall_mem_map]
    intro use huse
    obtain ⟨deeper, hdeeper, hnesting⟩ := huses use huse
    omega
  exact Nat.le_trans huses' (by omega)

theorem recovers_placement
    {placement : Placement}
    (h : (Listing.names placement).Nodup) :
    Recovers readPlacement placementValue placement :=
  recovers_listing h fun _ _ => recovers_list fun use _ => recovers_tableUse use

@[simp]
theorem fits_placement
    (placement : Placement) :
    (placementValue placement).fits := by
  rw [placementValue, fits_object_iff, List.forall_mem_map]
  intro entry _
  simp [TableUse.toValue]

/-! ## Changes -/

/-- What a change holds nests no deeper than the room for it, and is distinct. -/
structure Change.KeepsTo (room : Nat) (change : Change) : Prop where
  options : ∀ revision, change.options = some revision → revision.toValue.nesting ≤ room
  comment : ∀ revision, change.comment = some revision → revision.toValue.nesting ≤ room
  before : ∀ snapshot, change.before = some snapshot → snapshot.toValue.nesting ≤ room
  after : ∀ snapshot, change.after = some snapshot → snapshot.toValue.nesting ≤ room
  name : ∀ revision, change.name = some revision → revision.toValue.nesting ≤ room
  placement : ∀ placement, change.placement = some placement →
    (placementValue placement).nesting ≤ room ∧ (Listing.names placement).Nodup

theorem Change.KeepsTo.nesting
    {room : Nat}
    {change : Change}
    (h : change.KeepsTo room) :
    change.toValue.nesting ≤ room + 1 := by
  have hplacement := fun placement hplacement => (h.placement placement hplacement).1
  simpa [Change.toValue, nesting_object_le_iff] using
    ⟨h.options, h.comment, h.before, h.after, h.name, hplacement⟩

theorem yields_change :
    Yields changeRecord.read fun room change =>
      change.toValue.nesting ≤ room ∧ change.Distinct := by
  refine Yields.mono (Record.yields (P := Change.KeepsTo) ?_ ?_) ?_
  · intro room
    constructor <;> simp [changeRecord]
  · intro room route tree hroom
    refine keptBy_cons (fun _ _ _ h => { h with }) ?_
    refine keptBy_cons (fun _ _ _ h => { h with }) ?_
    refine keptBy_cons (fun _ _ _ h => { h with }) ?_
    refine keptBy_cons (fun _ hread _ h =>
      { h with options := yields_revision.within nesting_le_trans hroom hread }) ?_
    refine keptBy_cons (fun _ hread _ h =>
      { h with comment := yields_revision.within nesting_le_trans hroom hread }) ?_
    refine keptBy_cons (fun _ hread _ h =>
      { h with before := yields_snapshot.within nesting_le_trans hroom hread }) ?_
    refine keptBy_cons (fun _ hread _ h =>
      { h with after := yields_snapshot.within nesting_le_trans hroom hread }) ?_
    refine keptBy_cons (fun _ hread _ h =>
      { h with name := yields_revision.within nesting_le_trans hroom hread }) ?_
    refine keptBy_cons (fun _ hread _ h =>
      { h with
        placement := yields_placement.within (And.imp_left ∘ nesting_le_trans) hroom hread }) ?_
    exact keptBy_nil
  · rintro room change ⟨inner, hinner, h⟩
    have := h.nesting
    exact ⟨by omega, fun placement hplacement => (h.placement placement hplacement).2⟩

theorem recovers_change
    {change : Change}
    (h : change.Distinct) :
    Recovers changeRecord.read Change.toValue change := by
  refine Record.recovers_all rfl (by simp [fieldKeys, changeRecord, RecordField.of]) ?_
  intro route
  have hrevision (revision : Option Revision) :=
    recovers_valueOr revision (fun revision _ => recovers_revision revision)
      (fun _ => rfl)
  have hsnapshot (snapshot : Option Snapshot) :=
    recovers_valueOr snapshot (fun snapshot _ => recovers_snapshot snapshot)
      (fun _ => rfl)
  have hplacement :=
    recovers_valueOr change.placement
      (fun placement hplacement => recovers_placement (h placement hplacement))
      (fun _ => rfl)
  refine .field (recovers_flag change.created) ?_
  refine .field (recovers_flag change.deleted) ?_
  refine .field (recovers_ofText? change.keyspace) ?_
  refine .field (hrevision change.options) ?_
  refine .field (hrevision change.comment) ?_
  refine .field (hsnapshot change.before) ?_
  refine .field (hsnapshot change.after) ?_
  refine .field (hrevision change.name) ?_
  refine .field hplacement ?_
  exact .nil change

@[simp]
theorem fits_change
    (change : Change) :
    change.toValue.fits := by
  simp [Change.toValue]

/-! ## Elements -/

theorem yields_dataCenter :
    Yields dataCenterRecord.read fun room center => center.toValue.nesting ≤ room := by
  refine Yields.mono (Record.yields (P := fun _ _ => True) (fun _ => trivial) ?_) ?_
  · exact fun _ _ _ _ _ _ _ _ _ _ => trivial
  · rintro room center ⟨inner, hinner, -⟩
    have hfactor : (valueOr Factor.toValue center.factor).nesting = 0 := by
      cases center.factor <;> simp [valueOr]
    have hcenter : center.toValue.nesting ≤ 1 := by
      simp [DataCenter.toValue, nesting_object_le_iff, hfactor]
    omega

theorem recovers_dataCenter
    (center : DataCenter) :
    Recovers dataCenterRecord.read DataCenter.toValue center := by
  refine Record.recovers_all rfl (by simp [fieldKeys, dataCenterRecord, RecordField.of]) ?_
  intro route
  refine .field (recovers_string center.name) ?_
  refine .field (recovers_factor center.factor) ?_
  exact .nil center

/-- The data centers of an element. -/
def dataCentersValue (centers : List DataCenter) : Value :=
  .list (centers.map DataCenter.toValue)

theorem yields_dataCenters :
    Yields (readList dataCenterRecord.read) fun room centers =>
      (dataCentersValue centers).nesting ≤ room := by
  refine Yields.mono (yields_list yields_dataCenter) ?_
  rintro room centers ⟨hpos, hcenters⟩
  obtain ⟨less, rfl⟩ : ∃ less, room = less + 1 := ⟨room - 1, by omega⟩
  rw [dataCentersValue, nesting_list_le_iff, List.forall_mem_map]
  intro center hcenter
  obtain ⟨inner, hinner, hnesting⟩ := hcenters center hcenter
  omega

/-- What an element holds nests no deeper than the room for it, and is distinct. -/
structure Element.KeepsTo (room : Nat) (element : Element) : Prop where
  change : ∀ change, element.change = some change →
    change.toValue.nesting ≤ room ∧ change.Distinct
  dataCenters : ∀ centers, element.dataCenters = some centers →
    (dataCentersValue centers).nesting ≤ room

theorem Element.KeepsTo.nesting
    {room : Nat}
    {element : Element}
    (h : element.KeepsTo room) :
    element.toValue.nesting ≤ room + 1 := by
  have hchange := fun change hchange => (h.change change hchange).1
  simpa [Element.toValue, nesting_object_le_iff] using ⟨hchange, h.dataCenters⟩

theorem yields_element :
    Yields elementRecord.read fun room element =>
      element.toValue.nesting ≤ room ∧ element.Distinct := by
  refine Yields.mono (Record.yields (P := Element.KeepsTo) ?_ ?_) ?_
  · intro room
    constructor <;> simp [elementRecord]
  · intro room route tree hroom
    refine keptBy_cons (fun _ _ _ h => { h with }) ?_
    refine keptBy_cons (fun _ hread _ h =>
      { h with change := yields_change.within (And.imp_left ∘ nesting_le_trans) hroom hread }) ?_
    refine keptBy_cons (fun _ _ _ h => { h with }) ?_
    refine keptBy_cons (fun _ _ _ h => { h with }) ?_
    refine keptBy_cons (fun _ hread _ h =>
      { h with dataCenters := yields_dataCenters.within nesting_le_trans hroom hread }) ?_
    refine keptBy_cons (fun _ _ _ h => { h with }) ?_
    refine keptBy_cons (fun _ _ _ h => { h with }) ?_
    refine keptBy_cons (fun _ _ _ h => { h with }) ?_
    exact keptBy_nil
  · rintro room element ⟨inner, hinner, h⟩
    have := h.nesting
    exact ⟨by omega, fun change hchange => (h.change change hchange).2⟩

theorem recovers_element
    {element : Element}
    (h : element.Distinct) :
    Recovers elementRecord.read Element.toValue element := by
  refine Record.recovers_all rfl (by simp [fieldKeys, elementRecord, RecordField.of]) ?_
  intro route
  have hchange :=
    recovers_valueOr element.change
      (fun change hchange => recovers_change (h change hchange)) (fun _ => rfl)
  have hcenters := recovers_valueOr element.dataCenters
    (fun _ _ => recovers_list fun center _ => recovers_dataCenter center) (fun _ => rfl)
  refine .field (recovers_ofText? element.name) ?_
  refine .field hchange ?_
  refine .field (recovers_ofText? element.strategy) ?_
  refine .field (recovers_factor element.factor) ?_
  refine .field hcenters ?_
  refine .field (recovers_optionalFlag element.durableWrites) ?_
  refine .field (recovers_ofText? element.options) ?_
  refine .field (recovers_ofText? element.comment) ?_
  exact .nil element

@[simp]
theorem fits_element
    (element : Element) :
    element.toValue.fits := by
  simp [Element.toValue, DataCenter.toValue]

end Delta
end CqlDelta
