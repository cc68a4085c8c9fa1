import CqlDelta.Cql.Table
import CqlDelta.Delta.Reading
import CqlDelta.Delta.Writing
import CqlDelta.Plan.Version

/-!
# The context of a plan

A context brings what is known about the model, and takes up the draft of the table that was created
last. A model is legacy if its declared major version is below a threshold; one without a version is
not.
-/

namespace CqlDelta
namespace Plan

open Cql Delta Json

/-- What is known when a plan is made. -/
structure Context where
  /-- The declared versions of the model. -/
  versions : List (Option String) := []
  /-- The draft of the table that was created last. -/
  draft : Draft := {}

namespace Context

/-- The context of a model with one declared version. -/
def ofVersion (version : String) : Context :=
  { versions := [some version] }

/-- The first declared version that is not empty. -/
def version? (context : Context) : Option String :=
  context.versions.findSome? fun version => version.filter fun text => !text.isEmpty

/-- Whether the model's major version is declared and below a threshold. -/
def isLegacy (context : Context) (threshold : UInt32) : Bool :=
  (context.version?.bind majorVersion?).any fun major => decide (major < threshold)

end Context

/-! ## The JSON form -/

/-- The version of a model. -/
def versionRecord : Record (Option String) :=
  ⟨"struct ModelData", [.of "dbVersion" .fine readText? fun value _ => value], none⟩

/-- The versions of a model. -/
def readVersions : Reader (List (Option String)) :=
  readList versionRecord.read

/-- The keyspace of a draft. -/
def draftKeyspaceRecord : Record (Option String) :=
  ⟨"struct ContainerData", [.of "name" .optional readText? fun value _ => value], none⟩

/-- A reference to a key column. -/
def keyReferenceRecord : Record String :=
  ⟨"struct KeyReference", [.of "keyId" .fatal readString fun value _ => value], ""⟩

/-- The table of a draft. -/
def tableDraftRecord : Record TableDraft :=
  ⟨"struct EntityData",
    [ .of "collectionName" .fatal readString fun value t => { t with name := value },
      .of "compositePartitionKey" .fatal (readList keyReferenceRecord.read) fun value t =>
        { t with partitionKey := value },
      .of "compositeClusteringKey" .fatal (readList keyReferenceRecord.read) fun value t =>
        { t with clusteringKey := value },
      .of "tableOptions" .fatal readString fun value t => { t with options := value },
      .of "comments" .fatal readString fun value t => { t with comment := value } ],
    {}⟩

/-- A context. -/
def contextRecord : Record Context :=
  ⟨"struct ScriptContext",
    [ .of "modelData" .fine readVersions fun value c => { c with versions := value },
      .of "jsonSchema" .fine (readOption readNode) fun value c =>
        { c with draft := { c.draft with columns := value } },
      .of "containerData" .fine (readList draftKeyspaceRecord.read) fun value c =>
        { c with draft := { c.draft with keyspaces := value } },
      .of "entityData" .fine (readList tableDraftRecord.read) fun value c =>
        { c with draft := { c.draft with tables := value } } ],
    {}⟩

/-- The versions of a model. -/
def versionsValue (versions : List (Option String)) : Value :=
  .list (versions.map fun version => .object [("dbVersion", .ofText? version)])

/-- The keyspaces of a draft. -/
def draftKeyspacesValue (keyspaces : List (Option String)) : Value :=
  .list (keyspaces.map fun keyspace => .object [("name", .ofText? keyspace)])

/-- A key as a list of references. -/
def keyValue (guids : List String) : Value :=
  .list (guids.map fun guid => .object [("keyId", .text guid)])

/-- The table of a draft. -/
def tableDraftValue (table : TableDraft) : Value :=
  .object
    [ ("collectionName", .text table.name),
      ("compositePartitionKey", keyValue table.partitionKey),
      ("compositeClusteringKey", keyValue table.clusteringKey),
      ("tableOptions", .text table.options),
      ("comments", .text table.comment) ]

/-- A context. -/
def Context.toValue (context : Context) : Value :=
  .object
    [ ("modelData", versionsValue context.versions),
      ("jsonSchema", valueOr Node.toValue context.draft.columns),
      ("containerData", draftKeyspacesValue context.draft.keyspaces),
      ("entityData", .list (context.draft.tables.map tableDraftValue)) ]

end Plan
end CqlDelta
