import CqlDelta.Proofs.Delta.AttributeSites
import CqlDelta.Proofs.Delta.SortedNodes

/-!
# A node as two records

The object of a node is read as two records at once: one that declares the node's own keys, and the
declaration, which declares the others and only sees what was set aside
(`readNodeMembers_eq_ok_iff`). All keys of both may be absent. Like its parts a node is read
thoroughly.
-/

namespace CqlDelta
namespace Delta

open Json

/-! ## The keys of a node as declared keys -/

/-- A key of a node as a declared key. -/
def NodeKey.field (entry : String × NodeKey) : RecordField Node :=
  ⟨entry.1, .fine, fun route tree => readSetter route tree entry.2⟩

/-- The keys of a node, other than those of its declaration. -/
def nodeFields : List (RecordField Node) :=
  NodeKey.bySpelling.map NodeKey.field

theorem fieldKeys_nodeFields :
    fieldKeys nodeFields = Listing.names NodeKey.bySpelling := by
  simp [fieldKeys, nodeFields, NodeKey.field, Listing.names, Function.comp_def]

theorem nodeKeys_nodup :
    (fieldKeys nodeFields).Nodup :=
  fieldKeys_nodeFields ▸ nodup_bySpelling

theorem find_nodeFields
    (name : String) :
    nodeFields.find? (fun field => field.key == name) =
      (Listing.get? name NodeKey.bySpelling).map fun key => NodeKey.field (name, key) := by
  rw [nodeFields]
  induction NodeKey.bySpelling with
  | nil => rfl
  | cons entry more ih =>
      obtain ⟨other, key⟩ := entry
      rw [List.map_cons, List.find?_cons, Listing.get?]
      by_cases hname : other = name
      · simp [NodeKey.field, hname]
      · have hname' : (other == name) = false := by simpa using hname
        simp only [NodeKey.field, hname', hname, if_false] at ih ⊢
        exact ih

theorem commuting_node :
    nodeFields.Pairwise RecordField.CommutesWith := by
  have hkeys : (NodeKey.bySpelling.map Prod.snd).Nodup := by decide
  rw [nodeFields, List.pairwise_map]
  rw [List.Nodup, List.pairwise_map] at hkeys
  refine hkeys.imp fun hne route tree step route' tree' step' hstep hstep' => ?_
  exact (sets_of_readSetter hstep).commute (sets_of_readSetter hstep') hne

/-- The keys of a declaration are none of a node's own. -/
theorem get?_bySpelling_of_declared
    {name : String}
    (h : name ∈ rowKeys declarationRows) :
    Listing.get? name NodeKey.bySpelling = none := by
  revert name
  decide

/-- What is set under a key replaces what was set there before. -/
theorem Sets.again
    {key : NodeKey}
    {set : Node → Node}
    (h : Sets key set)
    (node : Node) :
    set (set node) = set node := by
  cases h with
  | part part inner => cases part <;> rfl
  | _ => rfl

/-- Nothing is set by `null`. -/
theorem readSetter_null
    (route : Route)
    (key : NodeKey) :
    ∃ set, readSetter route .null key = .ok set ∧ set {} = {} := by
  match key with
  | .element | .change | .branch .properties | .branch .items | .branch (.part _) =>
      exact ⟨_, rfl, rfl⟩

/-- The keys of a node, with the places in their values in which edits are sound. -/
def nodeRows : List (Row Node) :=
  nodeFields.map fun field => ⟨field.key, true, field.SoundAt⟩

theorem nodeRows_fit :
    List.Forall₂ (RecordField.Fits {}) nodeFields nodeRows := by
  rw [nodeRows, List.forall₂_map_right_iff, List.forall₂_same]
  intro field hfield
  obtain ⟨entry, -, rfl⟩ := List.mem_map.mp hfield
  exact
    { key := rfl
      absent := fun _ route => readSetter_null route entry.2
      again := fun route tree step hstep => (sets_of_readSetter hstep).again
      sound := fun _ _ _ hsite => hsite }

/-! ## Two records at once -/

section Steps

variable {route : Route} {stop : ObjectStop} {name : String} {tree : Tree}
  {more : List (Content × Tree)} {seen : List String} {start base : Node}

/-- The record passes over a member that is set aside. -/
theorem readMembers_unknown
    (hname : Listing.get? name NodeKey.bySpelling = none) :
    Record.readMembers nodeFields route stop ((.ok name, tree) :: more) seen start = (do
      passOver tree
      Record.readMembers nodeFields route stop more seen start) := by
  rw [Record.readMembers, contentOf, ok_bind, find_nodeFields, hname]
  rfl

/-- The record reads a member under a node's own key, once. -/
theorem readMembers_known
    {key : NodeKey}
    (hname : Listing.get? name NodeKey.bySpelling = some key) :
    Record.readMembers nodeFields route stop ((.ok name, tree) :: more) seen start =
      if seen.contains name then
        .error (.repeatedKey name)
      else (do
        let set ← readSetter route tree key
        Record.readMembers nodeFields route stop more (name :: seen) (set start)) := by
  rw [Record.readMembers, contentOf, ok_bind, find_nodeFields, hname]
  rfl

end Steps

theorem finish_eq_ok_iff
    {draft : NodeDraft}
    {node : Node} :
    draft.finish = .ok node ↔
      ∃ declaration,
        Record.readMembers declarationFields .ahead .closed draft.aside.reverse [] {} =
          .ok declaration ∧
        node = { draft.node with declaration := declaration } := by
  rw [NodeDraft.finish, bind_eq_ok_iff]
  exact exists_congr fun declaration => and_congr_right fun _ =>
    ⟨fun h => (Except.ok.inj h).symm, fun h => congrArg Except.ok h.symm⟩

/-- The members of a node are read as a record with the node's own keys, and those that are set
aside as a declaration. -/
theorem readNodeMembers_eq_ok_iff
    {route : Route}
    {stop : ObjectStop}
    {members : List (Content × Tree)}
    {draft : NodeDraft}
    {node : Node} :
    readNodeMembers route stop members draft = .ok node ↔
      (∀ member ∈ members, isAside member → readAny route member.2 = .ok ()) ∧
      ∃ base declaration,
        Record.readMembers nodeFields route stop members draft.seen draft.node = .ok base ∧
        Record.readMembers declarationFields .ahead .closed
          (draft.aside.reverse ++ members.filter isAside) [] {} = .ok declaration ∧
        node = { base with declaration := declaration } := by
  induction members generalizing draft with
  | nil =>
      have hmissing : Record.missing? nodeFields draft.seen = none := by
        simp [Record.missing?, nodeFields, NodeKey.field]
      rw [readNodeMembers, bind_eq_ok_iff, exists_unit, ending_eq_ok_iff, finish_eq_ok_iff,
        Record.readMembers]
      simp [finishObject_eq_ok_iff, hmissing]
  | cons member more ih =>
      obtain ⟨content, tree⟩ := member
      cases content with
      | error fault =>
          rw [Record.readMembers]
          simp [readNodeMembers, contentOf, bind, Except.bind]
      | ok name =>
          have htext : keyText (.ok name) = name := rfl
          rw [List.forall_mem_cons, List.filter_cons, isAside, htext]
          cases hname : Listing.get? name NodeKey.bySpelling with
          | none =>
              have hpass (h : readAny route tree = .ok ()) : passOver tree = .ok () :=
                passOver_of_readAny h
              rw [readNodeMembers_unknown hname, bind_eq_ok_iff, exists_unit, ih]
              simp only [readMembers_unknown hname, bind_eq_ok_iff, exists_unit, Option.isNone_none,
                if_true, forall_const, List.reverse_cons, List.append_assoc, List.singleton_append,
                and_assoc]
              refine and_congr_right fun hany => and_congr_right fun _ => ?_
              simp only [hpass hany, true_and]
          | some key =>
              rw [readNodeMembers_known hname, readMembers_known hname, readAtKey_eq_readSetter]
              cases hseen : draft.seen.contains name with
              | true => simp
              | false =>
                  cases hset : readSetter route tree key with
                  | error fault => simp [Except.map, bind, Except.bind]
                  | ok set =>
                      simp only [Bool.false_eq_true, if_false, Except.map, ok_bind,
                        Option.isNone_some, false_imp_iff, true_and]
                      exact ih

/-! ## Nodes are read thoroughly -/

/-- What is set under a key straight from a text has no flaw, if that holds for nodes there. -/
theorem passOver_of_readSetter
    {levels : Nat}
    {tree : Tree}
    {key : NodeKey}
    {set : Node → Node}
    (hnode : ∀ node, readNode (.text levels) tree = .ok node → passOver tree = .ok ())
    (h : readSetter (.text levels) tree key = .ok set) :
    passOver tree = .ok () := by
  match key with
  | .element =>
      obtain ⟨element, helement, -⟩ := map_eq_ok_iff.mp h
      exact thorough_option thorough_element levels tree element helement
  | .change =>
      obtain ⟨change, hchange, -⟩ := map_eq_ok_iff.mp h
      exact thorough_option thorough_change levels tree change hchange
  | .branch .properties | .branch .items =>
      rw [readSetter] at h
      split at h
      next hnull => exact passOver_of_isNull hnull
      next =>
        obtain ⟨⟨⟩, hany, -⟩ := bind_eq_ok_iff.mp h
        exact passOver_of_readAny hany
  | .branch (.part part) =>
      rw [readSetter] at h
      split at h
      next hnull => exact passOver_of_isNull hnull
      next =>
        obtain ⟨node, hread, -⟩ := map_eq_ok_iff.mp h
        exact hnode node hread

theorem thorough_node : Thorough readNode := by
  intro levels tree node h
  induction tree using Tree.nested_induction generalizing levels node with
  | leaf tree hleaf =>
      cases tree with
      | object members stop => simp [Tree.nesting] at hleaf
      | _ => simp [readNode] at h
  | list items stop => simp [readNode] at h
  | object members stop ih =>
      obtain ⟨inner, henter, h⟩ := bind_eq_ok_iff.mp h
      obtain ⟨less, -, rfl⟩ := enter_text henter
      obtain ⟨-, base, -, hbase, -⟩ := readNodeMembers_eq_ok_iff.mp h
      refine passOver_of_readMembers (fun member hmember field hfield step hstep => ?_) hbase
      obtain ⟨entry, -, rfl⟩ := List.mem_map.mp hfield
      exact passOver_of_readSetter (fun node hread => ih member hmember less node hread) hstep

end Delta
end CqlDelta
