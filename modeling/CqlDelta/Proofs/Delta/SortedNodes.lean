import CqlDelta.Program.Failure
import CqlDelta.Proofs.Delta.Nodes
import CqlDelta.Proofs.Delta.SortedAttributes
import Mathlib.Data.List.Permutation

/-!
# Nodes of sorted trees

A comparison can be read straight from its text, or out of a document that was read as a whole, with
the members of its objects sorted. If no object repeats a key, both succeed or both fail, and they
give the same node up to the order of what was given as an object: members and placements. What was
given as a list keeps its order, and its names.
-/

namespace CqlDelta
namespace Delta

open Json

/-! ## The same up to the order of objects -/

/-- The value of the member under a key; `null` if there is none. -/
def valueUnder (key : String) : List (Content × Tree) → Tree
  | [] => .null
  | (content, tree) :: more => if keyText content = key then tree else valueUnder key more

mutual

/-- The nodes that are read of a tree and of the sorted tree. -/
inductive NodeReordered : Tree → Node → Node → Prop
  | intro {members : List (Content × Tree)} {stop : ObjectStop} {node node' : Node}
      (properties : PropertiesReordered (valueUnder "properties" members) node.properties
        node'.properties)
      (items : ItemsReordered (valueUnder "items" members) node.items node'.items)
      (parts : ∀ part : Part,
        PartReordered (valueUnder (Branch.part part).key members) (node.part? part)
          (node'.part? part))
      (element : Option.Rel Element.Reordered node.element node'.element)
      (change : Option.Rel Change.Reordered node.change node'.change)
      (declaration : node.declaration = node'.declaration) :
      NodeReordered (.object members stop) node node'

/-- The nodes in a part. -/
inductive PartReordered : Tree → Option Node → Option Node → Prop
  | absent (tree : Tree) : PartReordered tree none none
  | present {tree : Tree} {node node' : Node} (h : NodeReordered tree node node') :
      PartReordered tree (some node) (some node')

/-- Members: given as an object they may come in another order, given as a list they come in the
same order, under the same names. -/
inductive PropertiesReordered : Tree → Option Members → Option Members → Prop
  | absent (tree : Tree) : PropertiesReordered tree none none
  | object {trees : List (Content × Tree)} {stop : ObjectStop} {members arranged members' : Members}
      (h : NamedReordered trees members arranged)
      (order : arranged.Perm members') :
      PropertiesReordered (.object trees stop) (some members) (some members')
  | list {trees : List Tree} {stop : ListStop} {nodes nodes' : List Node}
      (h : NodesReordered trees nodes nodes')
      (names : (nameByPosition nodes).names = (nameByPosition nodes').names) :
      PropertiesReordered (.list trees stop) (some (nameByPosition nodes))
        (some (nameByPosition nodes'))

/-- Items: a list keeps its order. -/
inductive ItemsReordered : Tree → Option (Items Node) → Option (Items Node) → Prop
  | absent (tree : Tree) : ItemsReordered tree none none
  | one {tree : Tree} {node node' : Node} (h : NodeReordered tree node node') :
      ItemsReordered tree (some (.one node)) (some (.one node'))
  | many {trees : List Tree} {stop : ListStop} {nodes nodes' : List Node}
      (h : NodesReordered trees nodes nodes') :
      ItemsReordered (.list trees stop) (some (.many nodes)) (some (.many nodes'))

/-- Nodes one by one. -/
inductive NodesReordered : List Tree → List Node → List Node → Prop
  | nil : NodesReordered [] [] []
  | cons {tree : Tree} {trees : List Tree} {node node' : Node} {nodes nodes' : List Node}
      (h : NodeReordered tree node node')
      (more : NodesReordered trees nodes nodes') :
      NodesReordered (tree :: trees) (node :: nodes) (node' :: nodes')

/-- Nodes under names one by one. -/
inductive NamedReordered : List (Content × Tree) → Members → Members → Prop
  | nil : NamedReordered [] [] []
  | cons {name : String} {tree : Tree} {trees : List (Content × Tree)} {node node' : Node}
      {members members' : Members}
      (h : NodeReordered tree node node')
      (more : NamedReordered trees members members') :
      NamedReordered ((.ok name, tree) :: trees) ((name, node) :: members)
        ((name, node') :: members')

end

/-! ## A node's members as updates -/

/-- What is set in a node by what stands under one of its keys. -/
def readSetter (route : Route) (tree : Tree) : NodeKey → Except ReadError (Node → Node)
  | .element =>
      (readOption elementRecord.read route tree).map fun element node =>
        { node with element := element }
  | .change =>
      (readOption changeRecord.read route tree).map fun change node =>
        { node with change := change }
  | .branch .properties =>
      if tree.isNull then .ok id
      else do
        readAny route tree
        let members ← asAlternative "Repr" (readNamed tree)
        return fun node => { node with properties := some members }
  | .branch .items =>
      if tree.isNull then .ok id
      else do
        readAny route tree
        let items ← asAlternative "Items" (readListed tree)
        return fun node => { node with items := some items }
  | .branch (.part part) =>
      if tree.isNull then .ok id
      else (readNode route tree).map fun inner node => node.setPart part (some inner)

theorem readAtKey_eq_readSetter
    (route : Route)
    (tree : Tree)
    (node : Node)
    (key : NodeKey) :
    readAtKey route tree node key = (readSetter route tree key).map fun set => set node := by
  match key with
  | .element | .change =>
      rw [readAtKey, readSetter]
      cases readOption _ route tree <;> rfl
  | .branch .properties =>
      rw [readAtKey, readSetter]
      split
      · rfl
      · cases readAny route tree with
        | error fault => rfl
        | ok value => cases asAlternative "Repr" (readNamed tree) <;> rfl
  | .branch .items =>
      rw [readAtKey, readSetter]
      split
      · rfl
      · cases readAny route tree with
        | error fault => rfl
        | ok value => cases asAlternative "Items" (readListed tree) <;> rfl
  | .branch (.part part) =>
      rw [readAtKey, readSetter]
      split
      · rfl
      · cases readNode route tree <;> rfl

/-- What a member does to a node. Members under other keys than the node's own do nothing. -/
def nodeUpdate (route : Route) (member : Content × Tree) : Except ReadError (Node → Node) :=
  match Listing.get? (keyText member.1) NodeKey.bySpelling with
  | none => .ok id
  | some key => readSetter route member.2 key

/-- Whether a member is set aside, as its key is not one of the node's own. -/
def isAside (member : Content × Tree) : Bool :=
  (Listing.get? (keyText member.1) NodeKey.bySpelling).isNone

/-- Reading a node's members under different keys is applying what they do, and completing the node
with the declaration out of those that are set aside. -/
theorem readNodeMembers_eq_applyAll
    {route : Route}
    {members : List (Content × Tree)}
    (h : ReadableMembers route members)
    (draft : NodeDraft)
    (hseen : ∀ key ∈ memberKeys members, key ∉ draft.seen) :
    readNodeMembers route .closed members draft =
      applyAll (members.map (nodeUpdate route)) draft.node >>= fun node =>
        NodeDraft.finish
          { node := node
            aside := (members.filter isAside).reverse ++ draft.aside } := by
  induction members generalizing draft with
  | nil => rfl
  | cons member more ih =>
      obtain ⟨content, tree⟩ := member
      obtain ⟨⟨⟨key, rfl⟩, hany⟩, hkey, hmore⟩ := readableMembers_cons.mp h
      obtain ⟨hnew, hseen⟩ := List.forall_mem_cons.mp hseen
      have htext : keyText (.ok key) = key := rfl
      rw [List.map_cons, applyAll, nodeUpdate, List.filter_cons, isAside, htext]
      cases hname : Listing.get? key NodeKey.bySpelling with
      | none =>
          rw [readNodeMembers_unknown hname, hany, ok_bind,
            ih hmore { draft with aside := (.ok key, tree) :: draft.aside } hseen]
          simp only [ok_bind, id_eq, Option.isNone_none, if_true, List.reverse_cons,
            List.append_assoc, List.singleton_append]
      | some known =>
          have hnew : key ∉ draft.seen := hnew
          have hnew' : draft.seen.contains key = false := by simpa using hnew
          have hseen' : ∀ other ∈ memberKeys more, other ∉ key :: draft.seen := by
            intro other hother
            rw [List.mem_cons, not_or]
            exact ⟨fun heq => hkey (heq ▸ hother), hseen other hother⟩
          rw [readNodeMembers_known hname, hnew', readAtKey_eq_readSetter]
          simp only [Bool.false_eq_true, if_false, Option.isNone_some]
          cases readSetter route tree known with
          | error fault => rfl
          | ok set =>
              exact ih hmore { draft with node := set draft.node, seen := key :: draft.seen }
                hseen'

/-! ## Updates of a node -/

/-- What is set under a key of a node, if anything is. -/
inductive Sets : NodeKey → (Node → Node) → Prop
  | nothing (key : NodeKey) : Sets key id
  | element (element : Option Element) :
      Sets .element fun node => { node with element := element }
  | change (change : Option Change) :
      Sets .change fun node => { node with change := change }
  | properties (members : Members) :
      Sets (.branch .properties) fun node => { node with properties := some members }
  | items (items : Items Node) :
      Sets (.branch .items) fun node => { node with items := some items }
  | part (part : Part) (inner : Node) :
      Sets (.branch (.part part)) fun node => node.setPart part (some inner)

theorem sets_of_readSetter
    {route : Route}
    {tree : Tree}
    {key : NodeKey}
    {set : Node → Node}
    (h : readSetter route tree key = .ok set) :
    Sets key set := by
  match key with
  | .element =>
      obtain ⟨element, -, rfl⟩ := map_eq_ok_iff.mp h
      exact .element element
  | .change =>
      obtain ⟨change, -, rfl⟩ := map_eq_ok_iff.mp h
      exact .change change
  | .branch .properties =>
      rw [readSetter] at h
      split at h
      · obtain rfl := Except.ok.inj h
        exact .nothing _
      · obtain ⟨-, -, h⟩ := bind_eq_ok_iff.mp h
        obtain ⟨members, -, h⟩ := bind_eq_ok_iff.mp h
        obtain rfl := Except.ok.inj h
        exact .properties members
  | .branch .items =>
      rw [readSetter] at h
      split at h
      · obtain rfl := Except.ok.inj h
        exact .nothing _
      · obtain ⟨-, -, h⟩ := bind_eq_ok_iff.mp h
        obtain ⟨items, -, h⟩ := bind_eq_ok_iff.mp h
        obtain rfl := Except.ok.inj h
        exact .items items
  | .branch (.part part) =>
      rw [readSetter] at h
      split at h
      · obtain rfl := Except.ok.inj h
        exact .nothing _
      · obtain ⟨inner, -, rfl⟩ := map_eq_ok_iff.mp h
        exact .part part inner

/-- What is set under one key does not touch what is set under another. -/
theorem Sets.commute
    {key key' : NodeKey}
    {set set' : Node → Node}
    (h : Sets key set)
    (h' : Sets key' set')
    (hne : key ≠ key')
    (node : Node) :
    set (set' node) = set' (set node) := by
  cases h with
  | nothing => rfl
  | part part inner =>
      cases h' with
      | part part' inner' => cases part <;> cases part' <;> first | rfl | exact absurd rfl hne
      | _ => cases part <;> rfl
  | _ =>
      cases h' with
      | part part' inner' => cases part' <;> rfl
      | _ => first | rfl | exact absurd rfl hne

/-- A key of a node has one spelling. -/
theorem spelling_unique
    {name name' : String}
    {key : NodeKey}
    (h : Listing.get? name NodeKey.bySpelling = some key)
    (h' : Listing.get? name' NodeKey.bySpelling = some key) :
    name = name' := by
  have hkeys : (NodeKey.bySpelling.map Prod.snd).Nodup := by decide
  have hentry := List.inj_on_of_nodup_map hkeys (Listing.mem_of_get? h) (Listing.mem_of_get? h') rfl
  exact congrArg Prod.fst hentry

theorem nodeUpdate_commute
    (route : Route)
    (member other : Content × Tree)
    (step step' : Node → Node)
    (htext : keyText member.1 ≠ keyText other.1)
    (hstep : nodeUpdate route member = .ok step)
    (hstep' : nodeUpdate route other = .ok step')
    (node : Node) :
    step (step' node) = step' (step node) := by
  rw [nodeUpdate] at hstep hstep'
  split at hstep
  · obtain rfl := Except.ok.inj hstep
    rfl
  · rename_i key hkey
    split at hstep'
    · obtain rfl := Except.ok.inj hstep'
      rfl
    · rename_i key' hkey'
      have hne : key ≠ key' := by
        rintro rfl
        exact htext (spelling_unique hkey hkey')
      exact (sets_of_readSetter hstep).commute (sets_of_readSetter hstep') hne node

theorem valueUnder_of_mem
    {members : List (Content × Tree)}
    (hdistinct : (memberKeys members).Nodup)
    {member : Content × Tree}
    (hmember : member ∈ members) :
    valueUnder (keyText member.1) members = member.2 := by
  induction members with
  | nil => simp at hmember
  | cons first more ih =>
      obtain ⟨content, tree⟩ := first
      obtain ⟨hkey, hdistinct⟩ := List.nodup_cons.mp hdistinct
      rw [valueUnder]
      rcases List.mem_cons.mp hmember with rfl | hmore
      · exact if_pos rfl
      · have hne : keyText content ≠ keyText member.1 := by
          intro heq
          exact hkey (List.mem_map.mpr ⟨member, hmore, heq.symm⟩)
        rw [if_neg hne, ih hdistinct hmore]

theorem text_of_branch
    {text : String}
    {branch : Branch}
    (h : Listing.get? text NodeKey.bySpelling = some (.branch branch)) :
    text = branch.key := by
  have hmem := Listing.mem_of_get? h
  simp only [NodeKey.bySpelling, Branch.byKey, List.map_map, List.mem_append, List.mem_map,
    Function.comp_apply, Prod.mk.injEq, NodeKey.branch.injEq] at hmem
  rcases hmem with ⟨other, -, rfl, rfl⟩ | hother
  · rfl
  · simp at hother

/-! ## What is set in nodes that are the same up to the order of objects -/

namespace NodeReordered

variable {members : List (Content × Tree)} {stop : ObjectStop} {node node' : Node}

theorem setElement
    (h : NodeReordered (.object members stop) node node')
    {element element' : Option Element}
    (helement : Option.Rel Element.Reordered element element') :
    NodeReordered (.object members stop) { node with element := element }
      { node' with element := element' } := by
  cases h with
  | intro properties items parts _ change declaration =>
      exact .intro properties items parts helement change declaration

theorem setChange
    (h : NodeReordered (.object members stop) node node')
    {change change' : Option Change}
    (hchange : Option.Rel Change.Reordered change change') :
    NodeReordered (.object members stop) { node with change := change }
      { node' with change := change' } := by
  cases h with
  | intro properties items parts element _ declaration =>
      exact .intro properties items parts element hchange declaration

theorem setDeclaration
    (h : NodeReordered (.object members stop) node node')
    (declaration : Declaration) :
    NodeReordered (.object members stop) { node with declaration := declaration }
      { node' with declaration := declaration } := by
  cases h with
  | intro properties items parts element change _ =>
      exact .intro properties items parts element change rfl

theorem setProperties
    (h : NodeReordered (.object members stop) node node')
    {found found' : Option Members}
    (hfound : PropertiesReordered (valueUnder "properties" members) found found') :
    NodeReordered (.object members stop) { node with properties := found }
      { node' with properties := found' } := by
  cases h with
  | intro _ items parts element change declaration =>
      exact .intro hfound items parts element change declaration

theorem setItems
    (h : NodeReordered (.object members stop) node node')
    {items items' : Option (Items Node)}
    (hitems : ItemsReordered (valueUnder "items" members) items items') :
    NodeReordered (.object members stop) { node with items := items }
      { node' with items := items' } := by
  cases h with
  | intro properties _ parts element change declaration =>
      exact .intro properties hitems parts element change declaration

theorem setPart
    (h : NodeReordered (.object members stop) node node')
    (part : Part)
    {inner inner' : Option Node}
    (hinner : PartReordered (valueUnder (Branch.part part).key members) inner inner') :
    NodeReordered (.object members stop) (node.setPart part inner)
      (node'.setPart part inner') := by
  cases h with
  | intro properties items parts element change declaration =>
      refine .intro ?_ ?_ (fun other => ?_) ?_ ?_ ?_
      · simpa using properties
      · simpa using items
      · rw [Node.part?_setPart, Node.part?_setPart]
        split
        · rename_i hpart
          subst hpart
          exact hinner
        · exact parts other
      · simpa using element
      · simpa using change
      · cases part <;> exact declaration

end NodeReordered

/-! ## Names by position -/

theorem NodeReordered.elementName?
    {tree : Tree}
    {node node' : Node}
    (h : NodeReordered tree node node') :
    node.elementName? = node'.elementName? := by
  cases h with
  | intro _ _ _ element _ _ =>
      rw [Node.elementName?, Node.elementName?]
      generalize node.element = found, node'.element = found' at element
      cases element with
      | none => rfl
      | @some element element' hrel =>
          have hname := congrArg Element.name hrel.rest
          exact hname

theorem names_nameByPosition
    {trees : List Tree}
    {nodes nodes' : List Node}
    (h : NodesReordered trees nodes nodes') :
    (nameByPosition nodes).names = (nameByPosition nodes').names := by
  rw [nameByPosition, nameByPosition, Listing.names_ofEntries, Listing.names_ofEntries]
  refine congrArg List.eraseDups ?_
  rw [Listing.names, Listing.names, List.map_map, List.map_map]
  have general (trees : List Tree) (nodes nodes' : List Node)
      (h : NodesReordered trees nodes nodes') (start : Nat) :
      (nodes.zipIdx start).map (fun entry => entry.1.elementName?.getD (toString entry.2)) =
        (nodes'.zipIdx start).map fun entry => entry.1.elementName?.getD (toString entry.2) := by
    induction trees generalizing nodes nodes' start with
    | nil =>
        cases h
        rfl
    | cons tree trees ih =>
        cases h with
        | cons hnode hmore =>
            rw [List.zipIdx_cons, List.zipIdx_cons, List.map_cons, List.map_cons,
              hnode.elementName?, ih _ _ hmore]
  exact general trees nodes nodes' h 0

/-! ## Reading -/

/-- A tree and the sorted tree are read in agreement: as a node, as the members, or as the items of
one. -/
structure ReadReordered (tree : Tree) : Prop where
  node : ∀ route route', Sortable route route' tree →
    Agree (NodeReordered tree) (readNode route tree) (readNode route' tree.sorted)
  named : Sortable .ahead .ahead tree →
    Agree (fun members members' => PropertiesReordered tree (some members) (some members'))
      (readNamed tree) (readNamed tree.sorted)
  listed : Sortable .ahead .ahead tree →
    Agree (fun items items' => ItemsReordered tree (some items) (some items'))
      (readListed tree) (readListed tree.sorted)

theorem asAlternative_agree
    {α : Type}
    {R : α → α → Prop}
    {first second : Except ReadError α}
    (h : Agree R first second)
    (type : String) :
    Agree R (asAlternative type first) (asAlternative type second) := by
  cases h with
  | failed fault fault' => exact .failed _ _
  | done hrel => exact .done hrel

theorem readNodes_agree
    {trees : List Tree}
    (h : ∀ tree ∈ trees, ReadReordered tree)
    (hsortable : ∀ tree ∈ trees, Sortable .ahead .ahead tree) :
    Agree (NodesReordered trees) (readNodes trees) (readNodes (trees.map Tree.sorted)) := by
  induction trees with
  | nil => exact .done .nil
  | cons tree more ih =>
      rw [List.forall_mem_cons] at h hsortable
      rw [List.map_cons, readNodes, readNodes]
      refine (h.1.node .ahead .ahead hsortable.1).bind fun node node' hnode => ?_
      exact (ih h.2 hsortable.2).bind fun nodes nodes' hnodes => .done (.cons hnode hnodes)

theorem readNamedNodes_agree
    {members : List (Content × Tree)}
    (h : ∀ member ∈ members, ReadReordered member.2)
    (hsortable : ∀ member ∈ members, Sortable .ahead .ahead member.2) :
    Agree (NamedReordered members) (readNamedNodes members)
      (readNamedNodes (members.map sortedMember)) := by
  induction members with
  | nil => exact .done .nil
  | cons member more ih =>
      obtain ⟨content, tree⟩ := member
      rw [List.forall_mem_cons] at h hsortable
      rw [List.map_cons, readNamedNodes, sortedMember, readNamedNodes]
      cases content with
      | error fault => exact .failed _ _
      | ok name =>
          refine (h.1.node .ahead .ahead hsortable.1).bind fun node node' hnode => ?_
          exact (ih h.2 hsortable.2).bind fun nodes nodes' hnodes => .done (.cons hnode hnodes)

/-- Named nodes are entries of a listing. -/
theorem readNamedNodes_eq_readEntries
    (members : List (Content × Tree)) :
    readNamedNodes members = readEntries readNode .ahead members := by
  induction members with
  | nil => rfl
  | cons member more ih => rw [readNamedNodes, readEntries, ih]

theorem readNamed_agree
    {members : List (Content × Tree)}
    {stop : ObjectStop}
    (h : ∀ member ∈ members, ReadReordered member.2)
    (hsortable : Sortable .ahead .ahead (.object members stop)) :
    Agree
      (fun found found' => PropertiesReordered (.object members stop) (some found) (some found'))
      (readNamed (.object members stop)) (readNamed (Tree.object members stop).sorted) := by
  obtain ⟨_, _, ⟨⟩, ⟨⟩, hmembers, -⟩ := hsortable.members
  have hperm : Agree List.Perm (readNamedNodes (members.map sortedMember))
      (readNamedNodes (sortedMembers members)) := by
    rw [readNamedNodes_eq_readEntries, readNamedNodes_eq_readEntries]
    exact readEntries_perm readNode .ahead (sortedMembers_perm hmembers.distinct).symm
  have hread := (readNamedNodes_agree h hmembers.values).trans hperm
  rw [Tree.sorted, readNamed, readNamed]
  refine hread.found.map fun entries entries' hentries => ?_
  obtain ⟨hfirst, hsecond, arranged, harranged, horder⟩ := hentries
  rw [readNamedNodes_eq_readEntries] at hfirst hsecond
  have hnames : (Listing.names entries).Nodup := by
    rw [names_readEntries hfirst]
    exact hmembers.distinct
  have hnames' : (Listing.names entries').Nodup := by
    rw [names_readEntries hsecond]
    exact (hmembers.sorted (sortedMembers_perm hmembers.distinct)).distinct
  rw [Listing.ofEntries_of_nodup hnames, Listing.ofEntries_of_nodup hnames']
  exact .object harranged horder

section Members

variable {members : List (Content × Tree)} {stop : ObjectStop} {route route' : Route}

/-- What stands under a key of a node is set in agreement. -/
theorem readSetter_agree
    (hdistinct : (memberKeys members).Nodup)
    {member : Content × Tree}
    (hmember : member ∈ members)
    (hread : ReadReordered member.2)
    (hsortable : Sortable route route' member.2)
    {key : NodeKey}
    (hkey : Listing.get? (keyText member.1) NodeKey.bySpelling = some key) :
    Agree (Respects (NodeReordered (.object members stop))) (readSetter route member.2 key)
      (readSetter route' member.2.sorted key) := by
  have hunder {branch : Branch} (hbranch : key = .branch branch) :
      valueUnder branch.key members = member.2 := by
    rw [← text_of_branch (hbranch ▸ hkey)]
    exact valueUnder_of_mem hdistinct hmember
  match key with
  | .element =>
      refine (steady_option steady_element route route' member.2 hsortable).map ?_
      exact fun _ _ helement _ _ hnode => hnode.setElement helement
  | .change =>
      refine (steady_option steady_change route route' member.2 hsortable).map ?_
      exact fun _ _ hchange _ _ hnode => hnode.setChange hchange
  | .branch .properties =>
      rw [readSetter, readSetter, isNull_sorted]
      split
      · exact .done fun _ _ hnode => hnode
      · rw [hsortable.plain, hsortable.sorted, ok_bind, ok_bind]
        refine (asAlternative_agree (hread.named hsortable.ahead) "Repr").bind ?_
        refine fun found found' hfound => .done fun _ _ hnode => hnode.setProperties ?_
        exact (hunder rfl : valueUnder "properties" members = member.2) ▸ hfound
  | .branch .items =>
      rw [readSetter, readSetter, isNull_sorted]
      split
      · exact .done fun _ _ hnode => hnode
      · rw [hsortable.plain, hsortable.sorted, ok_bind, ok_bind]
        refine (asAlternative_agree (hread.listed hsortable.ahead) "Items").bind ?_
        refine fun items items' hitems => .done fun _ _ hnode => hnode.setItems ?_
        exact (hunder rfl : valueUnder "items" members = member.2) ▸ hitems
  | .branch (.part part) =>
      rw [readSetter, readSetter, isNull_sorted]
      split
      · exact .done fun _ _ hnode => hnode
      · refine (hread.node route route' hsortable).map fun inner inner' hinner => ?_
        exact fun _ _ hnode => hnode.setPart part (hunder rfl ▸ .present hinner)

theorem nodeUpdate_agree
    (hmembers : SortableMembers route route' members)
    {member : Content × Tree}
    (hmember : member ∈ members)
    (hread : ReadReordered member.2) :
    Agree (Respects (NodeReordered (.object members stop))) (nodeUpdate route member)
      (nodeUpdate route' (sortedMember member)) := by
  rw [nodeUpdate, nodeUpdate, sortedMember]
  cases hkey : Listing.get? (keyText member.1) NodeKey.bySpelling with
  | none => exact .done fun _ _ hnode => hnode
  | some key =>
      exact readSetter_agree hmembers.distinct hmember hread (hmembers.values member hmember) hkey

/-- The declaration out of the members that are set aside is the same. -/
theorem declaration_agree
    (hmembers : SortableMembers route route' members) :
    Agree Eq
      (Record.readMembers declarationFields .ahead .closed (members.filter isAside) [] {})
      (Record.readMembers declarationFields .ahead .closed ((sortedMembers members).filter isAside)
        [] {}) := by
  have hsub : (members.filter isAside).Sublist members := List.filter_sublist
  have haside : SortableMembers .ahead .ahead (members.filter isAside) :=
    { keys := fun member hmember => hmembers.keys member (hsub.subset hmember)
      values := fun member hmember => (hmembers.values member (hsub.subset hmember)).ahead
      distinct := hmembers.distinct.sublist (hsub.map _) }
  refine readMembers_agree steadyIn_declaration commuting_declaration haside ?_ rfl
  have hperm := (sortedMembers_perm hmembers.distinct).filter isAside
  rwa [List.filter_map] at hperm

/-- The members of a node, and the sorted members, are read in agreement. -/
theorem readNodeMembers_agree
    (h : ∀ member ∈ members, ReadReordered member.2)
    (hmembers : SortableMembers route route' members) :
    Agree (NodeReordered (.object members stop)) (readNodeMembers route .closed members {})
      (readNodeMembers route' .closed (sortedMembers members) {}) := by
  have hperm := sortedMembers_perm hmembers.distinct
  have hstart : NodeReordered (.object members stop) {} {} :=
    .intro (.absent _) (.absent _) (fun part => by cases part <;> exact .absent _) .none .none rfl
  have hupdates := applyAll_sorted hmembers hperm
    (fun member hmember => nodeUpdate_agree hmembers hmember (h member hmember))
    (nodeUpdate_commute route') hstart
  rw [readNodeMembers_eq_applyAll hmembers.plain {} (by simp),
    readNodeMembers_eq_applyAll (hmembers.sorted hperm) {} (by simp)]
  refine hupdates.bind fun node node' hnode => ?_
  simp only [NodeDraft.finish, List.append_nil, List.reverse_reverse]
  refine (declaration_agree hmembers).bind fun declaration _ hdeclaration => ?_
  subst hdeclaration
  exact .done (hnode.setDeclaration declaration)

end Members

/-- Every tree is read as the sorted tree is. -/
theorem readReordered (tree : Tree) : ReadReordered tree := by
  induction tree using Tree.nested_induction with
  | leaf tree hleaf =>
      cases tree with
      | list items stop => simp [Tree.nesting] at hleaf
      | object members stop => simp [Tree.nesting] at hleaf
      | _ => exact ⟨fun _ _ _ => .failed _ _, fun _ => .failed _ _, fun _ => .failed _ _⟩
  | list items stop ih =>
      have hnodes (h : Sortable .ahead .ahead (.list items stop)) :
          Agree (NodesReordered items) (readNodes items) (readNodes (items.map Tree.sorted)) := by
        obtain ⟨_, _, ⟨⟩, ⟨⟩, hitems, -⟩ := h.items
        exact readNodes_agree ih hitems
      have hsorted : (Tree.list items stop).sorted = .list (items.map Tree.sorted) stop := by
        rw [Tree.sorted, sortedItems_eq_map]
      refine ⟨fun route route' h => ?_, fun h => ?_, fun h => ?_⟩
      · exact .failed _ _
      · rw [hsorted, readNamed, readNamed]
        exact (hnodes h).map fun _ _ hrel => .list hrel (names_nameByPosition hrel)
      · rw [hsorted, readListed, readListed]
        exact (hnodes h).map fun _ _ hrel => .many hrel
  | object members stop ih =>
      have hnode (route route' : Route) (h : Sortable route route' (.object members stop)) :
          Agree (NodeReordered (.object members stop)) (readNode route (.object members stop))
            (readNode route' (Tree.object members stop).sorted) := by
        obtain ⟨inner, inner', henter, henter', hmembers, rfl⟩ := h.members
        rw [Tree.sorted, readNode_object henter, readNode_object henter']
        exact readNodeMembers_agree ih hmembers
      refine ⟨hnode, readNamed_agree ih, fun h => ?_⟩
      have hlisted := hnode .ahead .ahead h
      rw [Tree.sorted, readNode_object rfl, readNode_object rfl] at hlisted
      rw [Tree.sorted, readListed, readListed]
      exact hlisted.map fun _ _ hrel => .one hrel

/-! ## Whole texts -/

/-- A text that is JSON is read by reading its JSON. -/
theorem readText_of_parsed
    {α : Type}
    (reader : Reader α)
    {text : String}
    {tree : Tree}
    (h : (Document.ofText text).read readAhead = .ok tree) :
    Program.readText reader text = (reader .root tree).mapError Program.Failure.rejected := by
  obtain ⟨hahead, htrailing⟩ := read_eq_ok_iff.mp h
  obtain ⟨⟨⟩, -, hroot⟩ := bind_eq_ok_iff.mp hahead
  obtain rfl := Except.ok.inj hroot
  rw [Program.readText, Document.read, htrailing]
  cases reader .root (Document.ofText text).root <;> rfl

theorem readSorted_of_parsed
    {α : Type}
    (reader : Reader α)
    {text : String}
    {tree : Tree}
    (h : (Document.ofText text).read readAhead = .ok tree) :
    (Document.ofText text).readSorted reader = reader .whole tree.sorted := by
  rw [Document.readSorted, h, ok_bind]

/-- If a text is JSON and no object in it repeats a key, then it is read as a comparison, straight
or out of the sorted document, or neither way. Both ways give the same comparison up to the order of
members and placements that are given as objects. Members that are given as a list, items and data
centers keep their order. -/
theorem text_and_sorted_document_are_read_alike
    (text : String)
    (tree : Tree)
    (hparsed : (Document.ofText text).read readAhead = .ok tree)
    (hkeys : tree.KeysDistinct) :
    Agree (NodeReordered tree) (Program.readText readNode text)
      ((Document.ofText text).readSorted readNode) := by
  obtain ⟨⟨⟩, hany, hroot⟩ := bind_eq_ok_iff.mp (read_eq_ok_iff.mp hparsed).1
  obtain rfl := Except.ok.inj hroot
  have hsortable : Sortable .root .whole (Document.ofText text).root :=
    ⟨hany, readAny_sorted hany hkeys, hkeys⟩
  have hread := (readReordered _).node .root .whole hsortable
  rw [readText_of_parsed readNode hparsed, readSorted_of_parsed readNode hparsed]
  exact hread.mapError Program.Failure.rejected

/-- Members and a placement that are not sorted, and members given as a list. -/
def shuffledText : String :=
  "\x7b\"properties\":\x7b\"b\":\x7b\"properties\":[\x7b\"GUID\":\"2\"\x7d,"
    ++ "\x7b\"role\":\x7b\"name\":\"x\"\x7d\x7d]\x7d,"
    ++ "\"a\":\x7b\x7d\x7d,\"compMod\":\x7b\"bucketsWithCurrentDefinition\":"
    ++ "\x7b\"shop\":[],\"crm\":[]\x7d\x7d\x7d"

/-- The JSON of the text. -/
def shuffledTree : Tree :=
  let named (name : String) : Tree := .object [(.ok "name", .text (.ok name))] .closed
  let columns : List Tree :=
    [ .object [(.ok "GUID", .text (.ok "2"))] .closed,
      .object [(.ok "role", named "x")] .closed ]
  let members : List (Content × Tree) :=
    [ (.ok "b", .object [(.ok "properties", .list columns .closed)] .closed),
      (.ok "a", .object [] .closed) ]
  let placement : List (Content × Tree) :=
    [(.ok "shop", .list [] .closed), (.ok "crm", .list [] .closed)]
  .object
    [ (.ok "properties", .object members .closed),
      (.ok "compMod",
        .object [(.ok "bucketsWithCurrentDefinition", .object placement .closed)] .closed) ]
    .closed

/-- The comparison in the text, with its members and its placement in an order. -/
def shuffledNode (members : Members → Members) (placement : Placement → Placement) : Node :=
  let columns : Members :=
    [ ("0", { declaration := { guid := some "2" } }),
      ("x", { element := some { name := some "x" } }) ]
  { properties := some (members [("b", { properties := some columns }), ("a", {})])
    change := some { placement := some (placement [("shop", []), ("crm", [])]) } }

theorem shuffled_comparison_is_read_alike :
    (Document.ofText shuffledText).read readAhead = .ok shuffledTree ∧
      shuffledTree.KeysDistinct ∧
      Program.readText readNode shuffledText = .ok (shuffledNode id id) ∧
      (Document.ofText shuffledText).readSorted readNode =
        .ok (shuffledNode List.reverse List.reverse) ∧
      NodeReordered shuffledTree (shuffledNode id id)
        (shuffledNode List.reverse List.reverse) := by
  have hparsed : (Document.ofText shuffledText).read readAhead = .ok shuffledTree := by cbv
  have hkeys : shuffledTree.KeysDistinct := by
    simp [shuffledTree, Tree.KeysDistinct, itemsKeysDistinct, membersKeysDistinct, memberKeys,
      keyText]
  have htext : Program.readText readNode shuffledText = .ok (shuffledNode id id) := by
    have hread : readNode .root shuffledTree = .ok (shuffledNode id id) := rfl
    rw [readText_of_parsed readNode hparsed, hread]
    rfl
  have hsorted : (Document.ofText shuffledText).readSorted readNode =
      .ok (shuffledNode List.reverse List.reverse) := by
    have hread : readNode .whole shuffledTree.sorted =
        .ok (shuffledNode List.reverse List.reverse) := rfl
    rw [readSorted_of_parsed readNode hparsed, hread]
  have hread := text_and_sorted_document_are_read_alike shuffledText shuffledTree hparsed hkeys
  rw [htext, hsorted] at hread
  cases hread with
  | done hnode => exact ⟨hparsed, hkeys, htext, hsorted, hnode⟩

end Delta
end CqlDelta
