import CqlDelta.Proofs.Delta.SortedNodes

/-!
# Members that are given as a list

The members of a node can be given as a list of nodes. Each node of the list is named by its element
or by its position (`keyed`), and of several nodes under one name only the last is kept, in the
place of the first. What is read under the key of the members is what the node has as its members
(`properties_of_readNode`).
-/

namespace CqlDelta
namespace Delta

open Json

/-! ## Names by position -/

/-- The nodes of a list, each under the name of its element or, without one, under its position. -/
def keyed (nodes : List Node) : List (String × Node) :=
  nodes.zipIdx.map fun entry => (entry.1.elementName?.getD (toString entry.2), entry.1)

theorem getElem?_keyed
    (nodes : List Node)
    (index : Nat) :
    (keyed nodes)[index]? =
      nodes[index]?.map fun node => (node.elementName?.getD (toString index), node) := by
  simp [keyed, List.getElem?_zipIdx, Function.comp_def]

/-! ## Lists of nodes -/

theorem readNodes_of_forall₂
    {items : List Tree}
    {nodes : List Node}
    (h : List.Forall₂ (fun item node => readNode .ahead item = .ok node) items nodes) :
    readNodes items = .ok nodes := by
  induction h with
  | nil => rfl
  | cons hnode _ ih =>
      rw [readNodes, hnode, ok_bind, ih]
      rfl

/-- A list of nodes is read as members, whatever their names are. -/
theorem readNamed_list
    {items : List Tree}
    {nodes : List Node}
    (h : List.Forall₂ (fun item node => readNode .ahead item = .ok node) items nodes)
    (stop : ListStop) :
    readNamed (.list items stop) = .ok (Listing.ofEntries (keyed nodes)) := by
  rw [readNamed, readNodes_of_forall₂ h]
  rfl

/-! ## The members of a node that was read -/

/-- Only what is set under the key of the members touches them. -/
theorem Sets.properties_eq
    {key : NodeKey}
    {set : Node → Node}
    (h : Sets key set)
    (hkey : key ≠ .branch .properties)
    (node : Node) :
    (set node).properties = node.properties := by
  cases h with
  | properties members => exact absurd rfl hkey
  | part part inner => exact Node.properties_setPart part _ node
  | _ => rfl

theorem properties_of_readAtKey
    {route : Route}
    {tree : Tree}
    {node next : Node}
    {key : NodeKey}
    (hkey : key ≠ .branch .properties)
    (h : readAtKey route tree node key = .ok next) :
    next.properties = node.properties := by
  rw [readAtKey_eq_readSetter] at h
  obtain ⟨set, hset, rfl⟩ := map_eq_ok_iff.mp h
  exact (sets_of_readSetter hset).properties_eq hkey node

/-- Once the members are read, they stay. -/
theorem properties_of_seen
    {route : Route}
    {stop : ObjectStop}
    {members : List (Content × Tree)}
    {draft : NodeDraft}
    {node : Node}
    (hseen : "properties" ∈ draft.seen)
    (h : readNodeMembers route stop members draft = .ok node) :
    node.properties = draft.node.properties := by
  induction members generalizing draft with
  | nil =>
      obtain ⟨-, -, h⟩ := bind_eq_ok_iff.mp h
      obtain ⟨declaration, -, h⟩ := bind_eq_ok_iff.mp h
      obtain rfl := Except.ok.inj h
      rfl
  | cons member more ih =>
      obtain ⟨content, tree⟩ := member
      obtain ⟨name, rfl, ⟨-, h⟩ | ⟨key, next, hname, hnew, hnext, h⟩⟩ :=
        readNodeMembers_cons_eq_ok h
      · exact @ih { draft with aside := (.ok name, tree) :: draft.aside } hseen h
      · -- A second member under the key of the members is refused.
        have hkey : key ≠ .branch .properties := by
          rintro rfl
          exact hnew (text_of_branch hname ▸ hseen)
        exact (ih (List.mem_cons_of_mem _ hseen) h).trans (properties_of_readAtKey hkey hnext)

/-- Whatever was read before, the list under the key of the members is read as them. -/
theorem properties_of_readNodeMembers
    {route : Route}
    {members : List (Content × Tree)}
    {stop : ObjectStop}
    {draft : NodeDraft}
    {node : Node}
    (h : readNodeMembers route stop members draft = .ok node)
    {items : List Tree}
    {listStop : ListStop}
    (hmember : (.ok "properties", .list items listStop) ∈ members) :
    ∃ kept, readNamed (.list items listStop) = .ok kept ∧ node.properties = some kept := by
  induction members generalizing draft with
  | nil => simp at hmember
  | cons member more ih =>
      obtain ⟨content, tree⟩ := member
      obtain ⟨name, rfl, ⟨hname, h⟩ | ⟨key, next, hname, hnew, hnext, h⟩⟩ :=
        readNodeMembers_cons_eq_ok h
      · rcases List.mem_cons.mp hmember with heq | hmore
        · obtain ⟨hcontent, rfl⟩ := Prod.mk.inj heq
          obtain rfl := Except.ok.inj hcontent
          exact absurd hname (by decide)
        · exact ih h hmore
      · rcases List.mem_cons.mp hmember with heq | hmore
        · obtain ⟨hcontent, rfl⟩ := Prod.mk.inj heq
          obtain rfl := Except.ok.inj hcontent
          obtain rfl : NodeKey.branch .properties = key := Option.some.inj hname
          obtain ⟨-, -, hnext⟩ := bind_eq_ok_iff.mp hnext
          obtain ⟨kept, hkept, hnext⟩ := bind_eq_ok_iff.mp hnext
          obtain rfl := Except.ok.inj hnext
          refine ⟨kept, asAlternative_eq_ok_iff.mp hkept, ?_⟩
          exact properties_of_seen (by simp) h
        · exact ih h hmore

/-- A node that was read has the members that stand under their key. -/
theorem properties_of_readNode
    {route : Route}
    {members : List (Content × Tree)}
    {stop : ObjectStop}
    {node : Node}
    (h : readNode route (.object members stop) = .ok node)
    {items : List Tree}
    {listStop : ListStop}
    (hmember : (.ok "properties", .list items listStop) ∈ members) :
    ∃ kept, readNamed (.list items listStop) = .ok kept ∧ node.properties = some kept := by
  obtain ⟨inner, -, h⟩ := bind_eq_ok_iff.mp h
  exact properties_of_readNodeMembers h hmember

end Delta
end CqlDelta
