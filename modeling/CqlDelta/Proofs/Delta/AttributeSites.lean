import CqlDelta.Proofs.Delta.Attributes
import CqlDelta.Proofs.Delta.SortedAttributes
import CqlDelta.Proofs.Json.Sites
import CqlDelta.Proofs.Json.Thorough

/-!
# What attributes leave open

The flags and the factors among the attributes of a node are read leniently, and every record may
hold keys that it does not declare. The tables below name the declared keys of each record in order,
say which of them are optional, and lead to the lenient values in them and to the records within
records. The readers of attributes are sound for these places, and thorough.
-/

namespace CqlDelta
namespace Delta

open Json

/-! ## Lenient values -/

/-- A flag; anything that is none counts as false. -/
def flagSites : Sites Bool :=
  LeafSites fun tree => (flagOf? tree).getD false

/-- A flag; anything that is none counts as nothing. -/
def optionalFlagSites : Sites (Option Bool) :=
  LeafSites flagOf?

/-- A factor; anything that is none counts as nothing. -/
def factorSites : Sites (Option Factor) :=
  LeafSites factorOf?

theorem readOptionalFlag_eq_ok_iff
    {route : Route}
    {tree : Tree}
    {value : Option Bool} :
    readOptionalFlag route tree = .ok value ↔ readAny route tree = .ok () ∧ flagOf? tree = value := by
  cases h : readAny route tree <;> simp [readOptionalFlag, readAhead, h, bind, Except.bind, pure,
    Except.pure]

theorem readFlag_eq_ok_iff
    {route : Route}
    {tree : Tree}
    {value : Bool} :
    readFlag route tree = .ok value ↔
      readAny route tree = .ok () ∧ (flagOf? tree).getD false = value := by
  simp [readFlag, map_eq_ok_iff, readOptionalFlag_eq_ok_iff, and_assoc]

theorem readFactor_eq_ok_iff
    {route : Route}
    {tree : Tree}
    {value : Option Factor} :
    readFactor route tree = .ok value ↔ readAny route tree = .ok () ∧ factorOf? tree = value := by
  cases h : readAny route tree <;> simp [readFactor, readAhead, h, bind, Except.bind, pure,
    Except.pure]

theorem sound_optionalFlag : Sound readOptionalFlag optionalFlagSites :=
  sound_lenient fun _ _ _ => readOptionalFlag_eq_ok_iff

theorem sound_flag : Sound readFlag flagSites :=
  sound_lenient fun _ _ _ => readFlag_eq_ok_iff

theorem sound_factor : Sound readFactor factorSites :=
  sound_lenient fun _ _ _ => readFactor_eq_ok_iff

theorem thorough_optionalFlag : Thorough readOptionalFlag :=
  thorough_lenient fun _ _ _ h => (readOptionalFlag_eq_ok_iff.mp h).1

theorem thorough_flag : Thorough readFlag :=
  thorough_lenient fun _ _ _ h => (readFlag_eq_ok_iff.mp h).1

theorem thorough_factor : Thorough readFactor :=
  thorough_lenient fun _ _ _ h => (readFactor_eq_ok_iff.mp h).1

/-! ## Declarations -/

/-- Whether a column belongs to the partition key. -/
def Declaration.partitionLens : Lens Declaration Bool where
  get := Declaration.inPartitionKey
  set := fun value d => { d with inPartitionKey := value }
  get_set := fun _ _ => rfl
  set_get := fun _ => rfl
  set_set := fun _ _ _ => rfl

/-- Whether a column belongs to the clustering key. -/
def Declaration.clusteringLens : Lens Declaration Bool where
  get := Declaration.inClusteringKey
  set := fun value d => { d with inClusteringKey := value }
  get_set := fun _ _ => rfl
  set_get := fun _ => rfl
  set_set := fun _ _ _ => rfl

/-- The keys of a declaration. -/
def declarationRows : List (Row Declaration) :=
  [ ⟨"type", true, .none⟩,
    ⟨"mode", true, .none⟩,
    ⟨"$ref", true, .none⟩,
    ⟨"subtype", true, .none⟩,
    ⟨"keySubtype", true, .none⟩,
    ⟨"GUID", true, .none⟩,
    ⟨"compositePartitionKey", true, PartSites Declaration.partitionLens flagSites⟩,
    ⟨"compositeClusteringKey", true, PartSites Declaration.clusteringLens flagSites⟩ ]

theorem fits_text?
    {σ : Type}
    {initial : σ}
    {set : Option String → σ → σ}
    (key : String)
    (hset : ∀ part other value, set part (set other value) = set part value)
    (hinitial : set none initial = initial) :
    (RecordField.of key .fine readText? set).Fits initial ⟨key, true, Sites.none⟩ :=
  RecordField.fits_plain hset fun _ _ => ⟨none, rfl, hinitial⟩

theorem declarationRows_fit :
    List.Forall₂ (RecordField.Fits {}) declarationFields declarationRows := by
  have hflag (key : String) (lens : Lens Declaration Bool) (hinitial : lens.set false {} = {}) :
      (RecordField.of key .fine readFlag lens.set).Fits {} ⟨key, true, PartSites lens flagSites⟩ :=
    RecordField.fits_of lens sound_flag fun _ _ => ⟨false, rfl, hinitial⟩
  refine .cons (fits_text? _ (fun _ _ _ => rfl) rfl) (.cons (fits_text? _ (fun _ _ _ => rfl) rfl)
    (.cons (fits_text? _ (fun _ _ _ => rfl) rfl) (.cons (fits_text? _ (fun _ _ _ => rfl) rfl)
    (.cons (fits_text? _ (fun _ _ _ => rfl) rfl) (.cons (fits_text? _ (fun _ _ _ => rfl) rfl)
    (.cons ?_ (.cons ?_ .nil)))))))
  · exact hflag _ Declaration.partitionLens rfl
  · exact hflag _ Declaration.clusteringLens rfl

/-- The places in a declaration. -/
def declarationSites : Sites Declaration :=
  RecordSites declarationRows

theorem sound_declaration : Sound declarationRecord.read declarationSites :=
  Record.sound declarationRows_fit declarationKeys_nodup commuting_declaration

theorem thorough_declarationFields : ∀ field ∈ declarationFields, field.Thorough := by
  simp only [declarationFields, List.forall_mem_cons]
  have htext := thorough_option thorough_string
  refine ⟨?_, ?_, ?_, ?_, ?_, ?_, ?_, ?_, by simp⟩
  all_goals first
    | exact RecordField.thorough_of htext
    | exact RecordField.thorough_of thorough_flag

theorem thorough_declaration : Thorough declarationRecord.read :=
  Record.thorough thorough_declarationFields

/-! ## Changes -/

/-- The keys of a value before and after. -/
def revisionRows : List (Row Revision) :=
  [⟨"new", true, .none⟩, ⟨"old", true, .none⟩]

/-- The places in a value before and after. -/
def revisionSites : Sites Revision :=
  RecordSites revisionRows

theorem sound_revision : Sound revisionRecord.read revisionSites := by
  refine Record.sound (.cons ?_ (.cons ?_ .nil)) (by decide) ?_
  · exact fits_text? _ (fun _ _ _ => rfl) rfl
  · exact fits_text? _ (fun _ _ _ => rfl) rfl
  · simp only [revisionRecord, List.pairwise_cons, List.forall_mem_cons]
    exact ⟨⟨RecordField.commutesWith_of fun _ _ _ => rfl, by simp⟩, by simp⟩

theorem thorough_revision : Thorough revisionRecord.read := by
  refine Record.thorough ?_
  simp only [revisionRecord, List.forall_mem_cons]
  have htext := thorough_option thorough_string
  exact ⟨RecordField.thorough_of htext, RecordField.thorough_of htext, by simp⟩

/-- The declaration on one side. -/
def Snapshot.declarationLens : Lens Snapshot (Option Declaration) where
  get := Snapshot.declaration
  set := fun value _ => ⟨value⟩
  get_set := fun _ _ => rfl
  set_get := fun _ => rfl
  set_set := fun _ _ _ => rfl

/-- The keys of a declaration on one side. -/
def snapshotRows : List (Row Snapshot) :=
  [ ⟨"properties", true,
      PartSites Snapshot.declarationLens (OptionSites declarationSites)⟩ ]

/-- The places in a declaration on one side. -/
def snapshotSites : Sites Snapshot :=
  RecordSites snapshotRows

theorem sound_snapshot : Sound snapshotRecord.read snapshotSites := by
  refine Record.sound (.cons ?_ .nil) (by decide) (List.pairwise_singleton _ _)
  exact RecordField.fits_of Snapshot.declarationLens
    (sound_option sound_declaration RecordSites.root) fun _ _ => ⟨none, rfl, rfl⟩

theorem thorough_snapshot : Thorough snapshotRecord.read := by
  refine Record.thorough ?_
  simp only [snapshotRecord, List.forall_mem_singleton]
  exact RecordField.thorough_of (thorough_option thorough_declaration)

/-- The key of a table that uses a type; its name is no optional value. -/
def tableUseRows : List (Row TableUse) :=
  [⟨"collectionName", false, .none⟩]

/-- The places in a table that uses a type. -/
def tableUseSites : Sites TableUse :=
  RecordSites tableUseRows

theorem sound_tableUse : Sound tableUseRecord.read tableUseSites := by
  refine Record.sound (.cons ?_ .nil) (by decide) (List.pairwise_singleton _ _)
  exact RecordField.fits_plain (fun _ _ _ => rfl) (by simp)

theorem thorough_tableUse : Thorough tableUseRecord.read := by
  refine Record.thorough ?_
  simp only [tableUseRecord, List.forall_mem_singleton]
  exact RecordField.thorough_of thorough_string

/-- The places in the keyspaces of a type. -/
def placementSites : Sites Placement :=
  EntrySites (ItemSites tableUseSites)

theorem sound_placement : Sound readPlacement placementSites :=
  sound_listing (sound_list sound_tableUse)

theorem thorough_placement : Thorough readPlacement :=
  thorough_listing (thorough_list thorough_tableUse)

namespace Change

/-- Whether the element is new. -/
def createdLens : Lens Change Bool where
  get := Change.created
  set := fun value c => { c with created := value }
  get_set := fun _ _ => rfl
  set_get := fun _ => rfl
  set_set := fun _ _ _ => rfl

/-- Whether the element is gone. -/
def deletedLens : Lens Change Bool where
  get := Change.deleted
  set := fun value c => { c with deleted := value }
  get_set := fun _ _ => rfl
  set_get := fun _ => rfl
  set_set := fun _ _ _ => rfl

/-- The table options on both sides. -/
def optionsLens : Lens Change (Option Revision) where
  get := Change.options
  set := fun value c => { c with options := value }
  get_set := fun _ _ => rfl
  set_get := fun _ => rfl
  set_set := fun _ _ _ => rfl

/-- The comment on both sides. -/
def commentLens : Lens Change (Option Revision) where
  get := Change.comment
  set := fun value c => { c with comment := value }
  get_set := fun _ _ => rfl
  set_get := fun _ => rfl
  set_set := fun _ _ _ => rfl

/-- The declaration before the change. -/
def beforeLens : Lens Change (Option Snapshot) where
  get := Change.before
  set := fun value c => { c with before := value }
  get_set := fun _ _ => rfl
  set_get := fun _ => rfl
  set_set := fun _ _ _ => rfl

/-- The declaration after the change. -/
def afterLens : Lens Change (Option Snapshot) where
  get := Change.after
  set := fun value c => { c with after := value }
  get_set := fun _ _ => rfl
  set_get := fun _ => rfl
  set_set := fun _ _ _ => rfl

/-- The name on both sides. -/
def nameLens : Lens Change (Option Revision) where
  get := Change.name
  set := fun value c => { c with name := value }
  get_set := fun _ _ => rfl
  set_get := fun _ => rfl
  set_set := fun _ _ _ => rfl

/-- The keyspaces of a type. -/
def placementLens : Lens Change (Option Placement) where
  get := Change.placement
  set := fun value c => { c with placement := value }
  get_set := fun _ _ => rfl
  set_get := fun _ => rfl
  set_set := fun _ _ _ => rfl

end Change

/-- The keys of a change. -/
def changeRows : List (Row Change) :=
  [ ⟨"created", true, PartSites Change.createdLens flagSites⟩,
    ⟨"deleted", true, PartSites Change.deletedLens flagSites⟩,
    ⟨"keyspaceName", true, .none⟩,
    ⟨"tableOptions", true, PartSites Change.optionsLens (OptionSites revisionSites)⟩,
    ⟨"comments", true, PartSites Change.commentLens (OptionSites revisionSites)⟩,
    ⟨"oldField", true, PartSites Change.beforeLens (OptionSites snapshotSites)⟩,
    ⟨"newField", true, PartSites Change.afterLens (OptionSites snapshotSites)⟩,
    ⟨"name", true, PartSites Change.nameLens (OptionSites revisionSites)⟩,
    ⟨"bucketsWithCurrentDefinition", true,
      PartSites Change.placementLens (OptionSites placementSites)⟩ ]

/-- The places in a change. -/
def changeSites : Sites Change :=
  RecordSites changeRows

theorem changeRows_fit :
    List.Forall₂ (RecordField.Fits changeRecord.initial) changeRecord.fields changeRows := by
  have hflag (key : String) (lens : Lens Change Bool) (hinitial : lens.set false {} = {}) :
      (RecordField.of key .fine readFlag lens.set).Fits {} ⟨key, true, PartSites lens flagSites⟩ :=
    RecordField.fits_of lens sound_flag fun _ _ => ⟨false, rfl, hinitial⟩
  have hrevision (key : String) (lens : Lens Change (Option Revision))
      (hinitial : lens.set none {} = {}) :
      (RecordField.of key .fine (readOption revisionRecord.read) lens.set).Fits {}
        ⟨key, true, PartSites lens (OptionSites revisionSites)⟩ :=
    RecordField.fits_of lens (sound_option sound_revision RecordSites.root)
      fun _ _ => ⟨none, rfl, hinitial⟩
  have hsnapshot (key : String) (lens : Lens Change (Option Snapshot))
      (hinitial : lens.set none {} = {}) :
      (RecordField.of key .fine (readOption snapshotRecord.read) lens.set).Fits {}
        ⟨key, true, PartSites lens (OptionSites snapshotSites)⟩ :=
    RecordField.fits_of lens (sound_option sound_snapshot RecordSites.root)
      fun _ _ => ⟨none, rfl, hinitial⟩
  refine .cons ?_ (.cons ?_ (.cons ?_ (.cons ?_ (.cons ?_ (.cons ?_ (.cons ?_ (.cons ?_
    (.cons ?placement .nil))))))))
  case placement =>
    refine RecordField.fits_of Change.placementLens (sound_option sound_placement ?_)
      fun _ _ => ⟨none, rfl, rfl⟩
    exact fun tree site h => nomatch h
  · exact hflag _ Change.createdLens rfl
  · exact hflag _ Change.deletedLens rfl
  · exact fits_text? _ (fun _ _ _ => rfl) rfl
  · exact hrevision _ Change.optionsLens rfl
  · exact hrevision _ Change.commentLens rfl
  · exact hsnapshot _ Change.beforeLens rfl
  · exact hsnapshot _ Change.afterLens rfl
  · exact hrevision _ Change.nameLens rfl

theorem sound_change : Sound changeRecord.read changeSites :=
  Record.sound changeRows_fit (by decide) commuting_change

theorem thorough_change : Thorough changeRecord.read := by
  refine Record.thorough ?_
  simp only [changeRecord, List.forall_mem_cons]
  refine ⟨?_, ?_, ?_, ?_, ?_, ?_, ?_, ?_, ?_, by simp⟩
  all_goals first
    | exact RecordField.thorough_of thorough_flag
    | exact RecordField.thorough_of (thorough_option thorough_string)
    | exact RecordField.thorough_of (thorough_option thorough_revision)
    | exact RecordField.thorough_of (thorough_option thorough_snapshot)
    | exact RecordField.thorough_of (thorough_option thorough_placement)

/-! ## Elements -/

/-- The replication factor of a data center. -/
def DataCenter.factorLens : Lens DataCenter (Option Factor) where
  get := DataCenter.factor
  set := fun value d => { d with factor := value }
  get_set := fun _ _ => rfl
  set_get := fun _ => rfl
  set_set := fun _ _ _ => rfl

/-- The keys of a data center; its name must be there. -/
def dataCenterRows : List (Row DataCenter) :=
  [ ⟨"dataCenterName", false, .none⟩,
    ⟨"replFactorValue", true, PartSites DataCenter.factorLens factorSites⟩ ]

/-- The places in a data center. -/
def dataCenterSites : Sites DataCenter :=
  RecordSites dataCenterRows

theorem sound_dataCenter : Sound dataCenterRecord.read dataCenterSites := by
  refine Record.sound (.cons ?_ (.cons ?_ .nil)) (by decide) ?_
  · exact RecordField.fits_plain (fun _ _ _ => rfl) (by simp)
  · exact RecordField.fits_of DataCenter.factorLens sound_factor fun _ _ => ⟨none, rfl, rfl⟩
  · simp only [dataCenterRecord, List.pairwise_cons, List.forall_mem_cons]
    exact ⟨⟨RecordField.commutesWith_of fun _ _ _ => rfl, by simp⟩, by simp⟩

theorem thorough_dataCenter : Thorough dataCenterRecord.read := by
  refine Record.thorough ?_
  simp only [dataCenterRecord, List.forall_mem_cons]
  exact ⟨RecordField.thorough_of thorough_string, RecordField.thorough_of thorough_factor, by simp⟩

namespace Element

/-- The change of an element. -/
def changeLens : Lens Element (Option Change) where
  get := Element.change
  set := fun value e => { e with change := value }
  get_set := fun _ _ => rfl
  set_get := fun _ => rfl
  set_set := fun _ _ _ => rfl

/-- The replication factor. -/
def factorLens : Lens Element (Option Factor) where
  get := Element.factor
  set := fun value e => { e with factor := value }
  get_set := fun _ _ => rfl
  set_get := fun _ => rfl
  set_set := fun _ _ _ => rfl

/-- The data centers. -/
def dataCentersLens : Lens Element (Option (List DataCenter)) where
  get := Element.dataCenters
  set := fun value e => { e with dataCenters := value }
  get_set := fun _ _ => rfl
  set_get := fun _ => rfl
  set_set := fun _ _ _ => rfl

/-- Whether writes are durable. -/
def durableWritesLens : Lens Element (Option Bool) where
  get := Element.durableWrites
  set := fun value e => { e with durableWrites := value }
  get_set := fun _ _ => rfl
  set_get := fun _ => rfl
  set_set := fun _ _ _ => rfl

end Element

/-- The keys of an element. -/
def elementRows : List (Row Element) :=
  [ ⟨"name", true, .none⟩,
    ⟨"compMod", true, PartSites Element.changeLens (OptionSites changeSites)⟩,
    ⟨"replStrategy", true, .none⟩,
    ⟨"replFactor", true, PartSites Element.factorLens factorSites⟩,
    ⟨"dataCenters", true,
      PartSites Element.dataCentersLens (OptionSites (ItemSites dataCenterSites))⟩,
    ⟨"durableWrites", true, PartSites Element.durableWritesLens optionalFlagSites⟩,
    ⟨"tableOptions", true, .none⟩,
    ⟨"comments", true, .none⟩ ]

/-- The places in an element. -/
def elementSites : Sites Element :=
  RecordSites elementRows

theorem elementRows_fit :
    List.Forall₂ (RecordField.Fits elementRecord.initial) elementRecord.fields elementRows := by
  refine .cons ?_ (.cons ?change (.cons ?_ (.cons ?factor (.cons ?centers (.cons ?durable
    (.cons ?_ (.cons ?_ .nil)))))))
  case change =>
    exact RecordField.fits_of Element.changeLens (sound_option sound_change RecordSites.root)
      fun _ _ => ⟨none, rfl, rfl⟩
  case factor =>
    exact RecordField.fits_of Element.factorLens sound_factor fun _ _ => ⟨none, rfl, rfl⟩
  case centers =>
    refine RecordField.fits_of Element.dataCentersLens
      (sound_option (sound_list sound_dataCenter) ?_) fun _ _ => ⟨none, rfl, rfl⟩
    exact fun tree site h => nomatch h
  case durable =>
    exact RecordField.fits_of Element.durableWritesLens sound_optionalFlag
      fun _ _ => ⟨none, rfl, rfl⟩
  all_goals exact fits_text? _ (fun _ _ _ => rfl) rfl

theorem sound_element : Sound elementRecord.read elementSites :=
  Record.sound elementRows_fit (by decide) commuting_element

theorem thorough_element : Thorough elementRecord.read := by
  refine Record.thorough ?_
  simp only [elementRecord, List.forall_mem_cons]
  refine ⟨?_, ?_, ?_, ?_, ?_, ?_, ?_, ?_, by simp⟩
  all_goals first
    | exact RecordField.thorough_of (thorough_option thorough_string)
    | exact RecordField.thorough_of (thorough_option thorough_change)
    | exact RecordField.thorough_of thorough_factor
    | exact RecordField.thorough_of (thorough_option (thorough_list thorough_dataCenter))
    | exact RecordField.thorough_of thorough_optionalFlag

end Delta
end CqlDelta
