import CqlDelta.Delta.Node
import CqlDelta.Json.Record

/-!
# Reading a comparison

The typed readers of a comparison document. Attributes are records; flags and replication factors
are read leniently, so that a value of the wrong shape counts as absent. A node is an object whose
type declaration stands among its own keys: these values are read ahead and looked at when the
object is complete. What is below `properties` and `items` is read ahead as well, and any mismatch
in it is reported as one of the whole.
-/

namespace CqlDelta
namespace Delta

open Json

/-! ## Lenient values -/

/-- Whether a text is a word, in letters of either case. -/
def isWord (word content : String) : Bool :=
  content.toList.map Char.toLower == word.toList

/-- The flag that a value stands for. -/
def flagOf? : Tree → Option Bool
  | .bool value => some value
  | .text (.ok content) =>
      if isWord "true" content then some true
      else if isWord "false" content then some false
      else none
  | _ => none

/-- The factor of a number: an integral value that is not negative is a number, any other is kept
as text. -/
def factorOfNumber : Number → Factor
  | .natural n => .number n
  | .negative magnitude => .text s!"-{magnitude}"
  | .float value =>
      if 0 ≤ value && value.floor == value then .number value.toUInt64
      else .text (Decimal.floatText value)

/-- The factor that a value stands for. -/
def factorOf? : Tree → Option Factor
  | .number numeral => numeral.value?.map factorOfNumber
  | .text (.ok content) => some (.text content)
  | _ => none

/-- A flag, or nothing if the value is none. -/
def readOptionalFlag : Reader (Option Bool) := fun route tree => do
  let tree ← readAhead route tree
  return flagOf? tree

/-- A flag that is false if the value is none. -/
def readFlag : Reader Bool := fun route tree =>
  (readOptionalFlag route tree).map (·.getD false)

/-- A factor, or nothing if the value is none. -/
def readFactor : Reader (Option Factor) := fun route tree => do
  let tree ← readAhead route tree
  return factorOf? tree

/-- A factor that must be a natural number or a text. -/
def readStrictFactor : Reader Factor := fun route tree => do
  let tree ← readAhead route tree
  match tree with
  | .text (.ok content) => return .text content
  | .number numeral =>
      match numeral.value? with
      | some (.natural n) => return .number n
      | _ => .error (.noAlternative "Factor")
  | _ => .error (.noAlternative "Factor")

/-! ## Attributes -/

/-- An optional text. -/
def readText? : Reader (Option String) :=
  readOption readString

/-- The keys of a declaration. -/
def declarationFields : List (RecordField Declaration) :=
  [ .of "type" .fine readText? fun value d => { d with logical := value },
    .of "mode" .fine readText? fun value d => { d with physical := value },
    .of "$ref" .fine readText? fun value d => { d with reference := value },
    .of "subtype" .fine readText? fun value d => { d with element := value },
    .of "keySubtype" .fine readText? fun value d => { d with mapKey := value },
    .of "GUID" .fine readText? fun value d => { d with guid := value },
    .of "compositePartitionKey" .fine readFlag fun value d => { d with inPartitionKey := value },
    .of "compositeClusteringKey" .fine readFlag fun value d =>
      { d with inClusteringKey := value } ]

/-- A declaration. -/
def declarationRecord : Record Declaration :=
  ⟨"struct ColumnDescriptor", declarationFields, {}⟩

/-- A value before and after. -/
def revisionRecord : Record Revision :=
  ⟨"struct ValueChange",
    [ .of "new" .fine readText? fun value r => { r with new := value },
      .of "old" .fine readText? fun value r => { r with old := value } ],
    {}⟩

/-- A declaration on one side. -/
def snapshotRecord : Record Snapshot :=
  ⟨"struct FieldSnapshot",
    [ .of "properties" .fine (readOption declarationRecord.read) fun value _ => ⟨value⟩ ],
    {}⟩

/-- A table that uses a type. -/
def tableUseRecord : Record TableUse :=
  ⟨"struct BucketTable", [ .of "collectionName" .fine readString fun value _ => ⟨value⟩ ], {}⟩

/-- The keyspaces of a type. -/
def readPlacement : Reader Placement :=
  readListing (readList tableUseRecord.read)

/-- A change. -/
def changeRecord : Record Change :=
  ⟨"struct CompMod",
    [ .of "created" .fine readFlag fun value c => { c with created := value },
      .of "deleted" .fine readFlag fun value c => { c with deleted := value },
      .of "keyspaceName" .fine readText? fun value c => { c with keyspace := value },
      .of "tableOptions" .fine (readOption revisionRecord.read) fun value c =>
        { c with options := value },
      .of "comments" .fine (readOption revisionRecord.read) fun value c =>
        { c with comment := value },
      .of "oldField" .fine (readOption snapshotRecord.read) fun value c =>
        { c with before := value },
      .of "newField" .fine (readOption snapshotRecord.read) fun value c =>
        { c with after := value },
      .of "name" .fine (readOption revisionRecord.read) fun value c => { c with name := value },
      .of "bucketsWithCurrentDefinition" .fine (readOption readPlacement) fun value c =>
        { c with placement := value } ],
    {}⟩

/-- A data center. -/
def dataCenterRecord : Record DataCenter :=
  ⟨"struct DataCenter",
    [ .of "dataCenterName" .fatal readString fun value d => { d with name := value },
      .of "replFactorValue" .fine readFactor fun value d => { d with factor := value } ],
    {}⟩

/-- An element. -/
def elementRecord : Record Element :=
  ⟨"struct Role",
    [ .of "name" .fine readText? fun value e => { e with name := value },
      .of "compMod" .fine (readOption changeRecord.read) fun value e => { e with change := value },
      .of "replStrategy" .fine readText? fun value e => { e with strategy := value },
      .of "replFactor" .fine readFactor fun value e => { e with factor := value },
      .of "dataCenters" .fine (readOption (readList dataCenterRecord.read)) fun value e =>
        { e with dataCenters := value },
      .of "durableWrites" .fine readOptionalFlag fun value e => { e with durableWrites := value },
      .of "tableOptions" .fine readText? fun value e => { e with options := value },
      .of "comments" .fine readText? fun value e => { e with comment := value } ],
    {}⟩

/-! ## Nodes -/

/-- The keys of a node, other than those of its declaration. -/
inductive NodeKey where
  | branch (branch : Branch)
  | element
  | change
deriving DecidableEq, Repr

/-- The keys of a node by their spelling. -/
def NodeKey.bySpelling : Listing NodeKey :=
  Branch.byKey.map (fun entry => (entry.1, .branch entry.2))
    ++ [("role", .element), ("compMod", .change)]

/-- A node of which some members are read. -/
structure NodeDraft where
  node : Node := {}
  /-- The keys that are read. -/
  seen : List String := []
  /-- The members that are read ahead, the last one first. -/
  aside : List (Content × Tree) := []

/-- Completes a node whose object is read: the declaration comes out of what was read ahead. -/
def NodeDraft.finish (draft : NodeDraft) : Except ReadError Node := do
  let declaration ←
    Record.readMembers declarationFields .ahead .closed draft.aside.reverse [] {}
  return { draft.node with declaration := declaration }

/-- Members given as a list: each is named by its element or by its position. -/
def nameByPosition (nodes : List Node) : Members :=
  Listing.ofEntries <|
    nodes.zipIdx.map fun entry => (entry.1.elementName?.getD (toString entry.2), entry.1)

/-- Reports any mismatch as one of the whole. -/
def asAlternative {α : Type} (type : String) : Except ReadError α → Except ReadError α
  | .ok value => .ok value
  | .error _ => .error (.noAlternative type)

/-- The words for a node. -/
def nodeTitle : String := "struct DiffNode"

mutual

/-- Reads a node. -/
def readNode (route : Route) : Tree → Except ReadError Node
  | .object members stop => do
      let inner ← route.enter
      readNodeMembers inner stop members {}
  | tree => .error (tree.mismatch nodeTitle)

/-- Reads the members of a node's object. -/
def readNodeMembers
    (route : Route)
    (stop : ObjectStop) :
    List (Content × Tree) → NodeDraft → Except ReadError Node
  | [], draft => do
      ending stop.readFault?
      draft.finish
  | (content, tree) :: more, draft => do
      let key ← contentOf content
      match Listing.get? key NodeKey.bySpelling with
      | none => do
          readAny route tree
          readNodeMembers route stop more { draft with aside := (content, tree) :: draft.aside }
      | some known =>
          if draft.seen.contains key then
            .error (.repeatedKey key)
          else do
            let node ←
              match known with
              | .element => do
                  let element ← readOption elementRecord.read route tree
                  pure { draft.node with element := element }
              | .change => do
                  let change ← readOption changeRecord.read route tree
                  pure { draft.node with change := change }
              | .branch .properties =>
                  if tree.isNull then pure draft.node
                  else do
                    readAny route tree
                    let members ← asAlternative "Repr" (readNamed tree)
                    pure { draft.node with properties := some members }
              | .branch .items =>
                  if tree.isNull then pure draft.node
                  else do
                    readAny route tree
                    let items ← asAlternative "Items" (readListed tree)
                    pure { draft.node with items := some items }
              | .branch (.part part) =>
                  if tree.isNull then pure draft.node
                  else do
                    let inner ← readNode route tree
                    pure (draft.node.setPart part (some inner))
            readNodeMembers route stop more
              { draft with node := node, seen := key :: draft.seen }

/-- Reads members that were read ahead, given as an object or as a list. -/
def readNamed : Tree → Except ReadError Members
  | .object members _ => (readNamedNodes members).map Listing.ofEntries
  | .list items _ => (readNodes items).map nameByPosition
  | tree => .error (tree.mismatch nodeTitle)

/-- Reads items that were read ahead, given as a list or as a single node. -/
def readListed : Tree → Except ReadError (Items Node)
  | .list items _ => (readNodes items).map .many
  | .object members stop => (readNodeMembers .ahead stop members {}).map .one
  | tree => .error (tree.mismatch nodeTitle)

/-- Reads nodes that were read ahead. -/
def readNodes : List Tree → Except ReadError (List Node)
  | [] => .ok []
  | tree :: more => do
      let node ← readNode .ahead tree
      let nodes ← readNodes more
      return node :: nodes

/-- Reads named nodes that were read ahead. -/
def readNamedNodes : List (Content × Tree) → Except ReadError (List (String × Node))
  | [] => .ok []
  | (content, tree) :: more => do
      let name ← contentOf content
      let node ← readNode .ahead tree
      let nodes ← readNamedNodes more
      return (name, node) :: nodes

end

/-! ## Branches -/

/-- The name of a branch. It may also be the only key of an object, with `null` under it. Any other
place is not looked into, so that its own fault counts only inside a quoted text. -/
def readBranch : Reader Branch := fun route tree =>
  match tree with
  | .text _ => readName Branch.byKey route tree
  | .object members stop => do
      let _ ← route.enter
      match members with
      | [] => do
          ending stop.readFault?
          .error (.fault .valueExpected)
      | (key, value) :: more => do
          let branch ← readName Branch.byKey route (.text key)
          if value.isNull then
            match more, stop with
            | [], .closed => return branch
            | [], .unfinished => .error (.fault .endInObject)
            | _, _ => .error (.fault .valueExpected)
          else
            .error (value.mismatch "unit")
  | .broken flaw => .error (.fault (if flaw.read.isInText then flaw.read else .valueExpected))
  | _ => .error (.fault .valueExpected)

/-- A path of branches. -/
def readPath : Reader (List Branch) :=
  readList readBranch

/-! ## Type names -/

/-- The names of user-defined types by their references. -/
abbrev TypeNames := Listing String

/-- The names of user-defined types. -/
def readTypeNames : Reader TypeNames :=
  readListing readString

end Delta
end CqlDelta
