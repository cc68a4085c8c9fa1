import CqlDelta.Proofs.Delta.Attributes

/-!
# Nodes read back

A node that was read names its members once, and so does everything in it (`Node.Distinct`). Such a
node is recovered from its written form (`recovers_node`): the members of the written object are
read key by key, those of the declaration are set aside and replayed at the end. Conversely, a node that
was read is written no deeper than the room it was read in (`yields_node`).
-/

namespace CqlDelta
namespace Delta

open Json

/-! ## The written form of a node -/

theorem memberValues_eq_map
    (members : Members) :
    memberValues members = members.map fun entry => (entry.1, entry.2.toValue) := by
  induction members with
  | nil => rfl
  | cons entry more ih => rw [memberValues, ih, List.map_cons]

theorem nodeValues_eq_map
    (nodes : List Node) :
    nodeValues nodes = nodes.map Node.toValue := by
  induction nodes with
  | nil => rfl
  | cons node more ih => rw [nodeValues, ih, List.map_cons]

/-- Members as an object. -/
def membersValue (members : Members) : Value :=
  .object (members.map fun entry => (entry.1, entry.2.toValue))

/-- Items as a list, or as a node. -/
def itemsValue : Items Node → Value
  | .one node => node.toValue
  | .many nodes => .list (nodes.map Node.toValue)

/-- What is written under a key of a node. -/
def Node.writtenAt? (node : Node) : NodeKey → Option Value
  | .branch .properties => node.properties.map membersValue
  | .branch .items => node.items.map itemsValue
  | .branch (.part part) => (node.part? part).map Node.toValue
  | .element => node.element.map Element.toValue
  | .change => node.change.map Change.toValue

/-- What is written under the keys of a node, other than those of its declaration. -/
def Node.written (node : Node) (keys : Listing NodeKey) : List (String × Option Value) :=
  keys.map fun entry => (entry.1, node.writtenAt? entry.2)

theorem toValue_node
    (node : Node) :
    node.toValue =
      .object (Value.present (node.written NodeKey.bySpelling) ++ node.declaration.members) := by
  obtain ⟨properties, items, containers, entities, definitions, modified, deleted, added, element,
    change, declaration⟩ := node
  have hinner (inner : Option Node) : innerValue? inner = inner.map Node.toValue := by
    cases inner <;> rfl
  have hmembers : membersValue? properties = properties.map membersValue := by
    cases properties with
    | none => rfl
    | some members => rw [membersValue?, memberValues_eq_map, Option.map_some, membersValue]
  have hitems : itemsValue? items = items.map itemsValue := by
    match items with
    | none => rfl
    | some (.one inner) => rfl
    | some (.many nodes) => rw [itemsValue?, nodeValues_eq_map, Option.map_some, itemsValue]
  simp only [Node.toValue, hmembers, hitems, hinner]
  rfl

theorem mem_written_iff
    {node : Node}
    {keys : Listing NodeKey}
    {member : String × Value} :
    member ∈ Value.present (node.written keys) ↔
      ∃ key, (member.1, key) ∈ keys ∧ node.writtenAt? key = some member.2 := by
  rw [mem_present_iff, Node.written, List.mem_map]
  constructor
  · rintro ⟨⟨name, key⟩, hmem, heq⟩
    obtain ⟨rfl, hvalue⟩ := Prod.mk.inj heq
    exact ⟨key, hmem, hvalue⟩
  · rintro ⟨key, hmem, hvalue⟩
    exact ⟨(member.1, key), hmem, by rw [hvalue]⟩

/-- The numbers of a written node fit 64 bits. -/
theorem fits_node
    {node : Node}
    (h : node.Distinct) :
    node.toValue.fits := by
  induction h with
  | @intro node names members items parts element change ihmembers ihitems ihparts =>
      rw [toValue_node, fits_object_iff]
      intro member hmember
      rcases List.mem_append.mp hmember with hwritten | hdeclared
      · obtain ⟨key, -, hvalue⟩ := mem_written_iff.mp hwritten
        cases key with
        | branch branch =>
            cases branch with
            | properties =>
                obtain ⟨found, hfound, hvalue⟩ := Option.map_eq_some_iff.mp hvalue
                rw [← hvalue, membersValue, fits_object_iff, List.forall_mem_map]
                exact ihmembers found hfound
            | items =>
                obtain ⟨found, hfound, hvalue⟩ := Option.map_eq_some_iff.mp hvalue
                rw [← hvalue]
                cases found with
                | one inner => exact ihitems _ hfound inner (by simp [Items.toList])
                | many nodes =>
                    rw [itemsValue, fits_list_iff, List.forall_mem_map]
                    exact ihitems _ hfound
            | part part =>
                obtain ⟨inner, hinner, hvalue⟩ := Option.map_eq_some_iff.mp hvalue
                rw [← hvalue]
                exact ihparts part inner hinner
        | element =>
            obtain ⟨found, -, hvalue⟩ := Option.map_eq_some_iff.mp hvalue
            rw [← hvalue]
            exact fits_element found
        | change =>
            obtain ⟨found, -, hvalue⟩ := Option.map_eq_some_iff.mp hvalue
            rw [← hvalue]
            exact fits_change found
      · exact fits_declarationMember hdeclared

/-! ## The steps of the reader -/

theorem readNode_object
    {route inner : Route}
    (henter : route.enter = .ok inner)
    (members : List (Content × Tree))
    (stop : ObjectStop) :
    readNode route (.object members stop) = readNodeMembers inner stop members {} := by
  rw [readNode, henter, ok_bind]

/-- Reads what stands under a key of a node. -/
def readAtKey (route : Route) (tree : Tree) (node : Node) : NodeKey → Except ReadError Node
  | .element => do
      let element ← readOption elementRecord.read route tree
      return { node with element := element }
  | .change => do
      let change ← readOption changeRecord.read route tree
      return { node with change := change }
  | .branch .properties =>
      if tree.isNull then return node
      else do
        readAny route tree
        let members ← asAlternative "Repr" (readNamed tree)
        return { node with properties := some members }
  | .branch .items =>
      if tree.isNull then return node
      else do
        readAny route tree
        let items ← asAlternative "Items" (readListed tree)
        return { node with items := some items }
  | .branch (.part part) =>
      if tree.isNull then return node
      else do
        let inner ← readNode route tree
        return node.setPart part (some inner)

/-- A member whose key is not a node's own is set aside. -/
theorem readNodeMembers_unknown
    {route : Route}
    {name : String}
    {tree : Tree}
    (hname : Listing.get? name NodeKey.bySpelling = none)
    (stop : ObjectStop)
    (more : List (Content × Tree))
    (draft : NodeDraft) :
    readNodeMembers route stop ((.ok name, tree) :: more) draft = (do
      readAny route tree
      readNodeMembers route stop more
        { draft with aside := (.ok name, tree) :: draft.aside }) := by
  rw [readNodeMembers, contentOf, ok_bind, hname]

/-- A member under a node's own key is read into the draft, once. -/
theorem readNodeMembers_known
    {route : Route}
    {name : String}
    {tree : Tree}
    {key : NodeKey}
    (hname : Listing.get? name NodeKey.bySpelling = some key)
    (stop : ObjectStop)
    (more : List (Content × Tree))
    (draft : NodeDraft) :
    readNodeMembers route stop ((.ok name, tree) :: more) draft =
      if draft.seen.contains name then
        .error (.repeatedKey name)
      else (do
        let node ← readAtKey route tree draft.node key
        readNodeMembers route stop more
          { draft with node := node, seen := name :: draft.seen }) := by
  rw [readNodeMembers, contentOf, ok_bind, hname]
  cases key with
  | element => simp only [readAtKey, bind_assoc, pure_bind]
  | change => simp only [readAtKey, bind_assoc, pure_bind]
  | branch branch =>
      cases branch <;> cases hnull : tree.isNull <;> simp [readAtKey, hnull]

/-- A member that is read: its key is a text, and it is set aside or read into the draft, the latter
for the first time. -/
theorem readNodeMembers_cons_eq_ok
    {route : Route}
    {stop : ObjectStop}
    {content : Content}
    {tree : Tree}
    {more : List (Content × Tree)}
    {draft : NodeDraft}
    {node : Node}
    (h : readNodeMembers route stop ((content, tree) :: more) draft = .ok node) :
    ∃ name, content = .ok name ∧
      ((Listing.get? name NodeKey.bySpelling = none ∧
          readNodeMembers route stop more
            { draft with aside := (.ok name, tree) :: draft.aside } = .ok node) ∨
        ∃ key next, Listing.get? name NodeKey.bySpelling = some key ∧ name ∉ draft.seen ∧
          readAtKey route tree draft.node key = .ok next ∧
          readNodeMembers route stop more
            { draft with node := next, seen := name :: draft.seen } = .ok node) := by
  cases content with
  | error fault => simp [readNodeMembers, contentOf, bind, Except.bind] at h
  | ok name =>
      refine ⟨name, rfl, ?_⟩
      cases hname : Listing.get? name NodeKey.bySpelling with
      | none =>
          rw [readNodeMembers_unknown hname] at h
          obtain ⟨-, -, h⟩ := bind_eq_ok_iff.mp h
          exact .inl ⟨rfl, h⟩
      | some key =>
          rw [readNodeMembers_known hname] at h
          split at h
          · simp at h
          · rename_i hnew
            obtain ⟨next, hnext, h⟩ := bind_eq_ok_iff.mp h
            exact .inr ⟨key, next, rfl, by simpa using hnew, hnext, h⟩

/-! ## Reading a written node -/

/-- Nodes that are recovered are read where they stand in a list. -/
theorem readNodes_written
    (nodes : List Node)
    (h : ∀ node ∈ nodes, Recovers readNode Node.toValue node)
    (hany : ∀ node ∈ nodes, readAny .ahead node.toValue.toTree = .ok ()) :
    readNodes (nodes.map fun node => node.toValue.toTree) = .ok nodes := by
  induction nodes with
  | nil => rfl
  | cons node more ih =>
      rw [List.forall_mem_cons] at h hany
      rw [List.map_cons, readNodes, h.1 .ahead hany.1, ok_bind, ih h.2 hany.2]
      rfl

/-- Nodes that are recovered are read where they stand under names. -/
theorem readNamedNodes_written
    {members : Members}
    (h : ∀ entry ∈ members, Recovers readNode Node.toValue entry.2)
    (hany : ∀ entry ∈ members, readAny .ahead entry.2.toValue.toTree = .ok ()) :
    readNamedNodes (members.map fun entry => (.ok entry.1, entry.2.toValue.toTree)) =
      .ok members := by
  induction members with
  | nil => rfl
  | cons entry more ih =>
      rw [List.forall_mem_cons] at h hany
      rw [List.map_cons, readNamedNodes, contentOf, ok_bind, h.1 .ahead hany.1, ok_bind,
        ih h.2 hany.2]
      rfl

theorem readNamed_written
    {members : Members}
    (hnames : (Listing.names members).Nodup)
    (h : ∀ entry ∈ members, Recovers readNode Node.toValue entry.2)
    (hany : readAny .ahead (membersValue members).toTree = .ok ()) :
    readNamed (membersValue members).toTree = .ok members := by
  obtain ⟨inner, henter, hentries⟩ := readAny_of_object hany
  obtain rfl := Except.ok.inj henter
  rw [List.forall_mem_map] at hentries
  have hread := readNamedNodes_written h hentries
  rw [membersValue, Value.toTree, treeMembersOf_eq_map, List.map_map, readNamed]
  rw [Function.comp_def, hread, Except.map, Listing.ofEntries_of_nodup hnames]

theorem readListed_written
    {items : Items Node}
    (h : ∀ node ∈ items.toList, Recovers readNode Node.toValue node)
    (hany : readAny .ahead (itemsValue items).toTree = .ok ()) :
    readListed (itemsValue items).toTree = .ok items := by
  cases items with
  | one node =>
      have hread := h node (by simp [Items.toList]) .ahead hany
      have henter : Route.ahead.enter = .ok .ahead := rfl
      rw [toValue_node, Value.toTree] at hread
      rw [itemsValue, toValue_node, Value.toTree, readListed, ← readNode_object henter, hread]
      rfl
  | many nodes =>
      obtain ⟨inner, henter, hnodes⟩ := readAny_of_list hany
      obtain rfl := Except.ok.inj henter
      rw [List.forall_mem_map] at hnodes
      have hread := readNodes_written nodes h hnodes
      rw [itemsValue, Value.toTree, treesOf_eq_map, List.map_map, readListed, Function.comp_def,
        hread]
      rfl

/-- The part of a node that is found under some of its keys. -/
def Node.restrict (node : Node) (keys : List NodeKey) : Node :=
  { properties := if .branch .properties ∈ keys then node.properties else none
    items := if .branch .items ∈ keys then node.items else none
    containers := if .branch (.part .containers) ∈ keys then node.containers else none
    entities := if .branch (.part .entities) ∈ keys then node.entities else none
    definitions := if .branch (.part .definitions) ∈ keys then node.definitions else none
    modified := if .branch (.part .modified) ∈ keys then node.modified else none
    deleted := if .branch (.part .deleted) ∈ keys then node.deleted else none
    added := if .branch (.part .added) ∈ keys then node.added else none
    element := if .element ∈ keys then node.element else none
    change := if .change ∈ keys then node.change else none }

/-- A key under which nothing is written makes no difference. -/
theorem restrict_absent
    {node : Node}
    {key : NodeKey}
    (h : node.writtenAt? key = none)
    (done : List NodeKey) :
    node.restrict (key :: done) = node.restrict done := by
  match key with
  | .branch .properties | .branch .items | .element | .change =>
      have hnone := Option.map_eq_none_iff.mp h
      simp [Node.restrict, hnone]
  | .branch (.part part) =>
      have hnone := Option.map_eq_none_iff.mp h
      cases part <;> simp [Node.part?] at hnone <;> simp [Node.restrict, hnone]

/-- Everything in a node is recovered from its written form. -/
structure Node.PartsRecovered (node : Node) : Prop where
  names : ∀ members, node.properties = some members → (Listing.names members).Nodup
  members : ∀ members, node.properties = some members →
    ∀ entry ∈ members, Recovers readNode Node.toValue entry.2
  items : ∀ items, node.items = some items →
    ∀ inner ∈ items.toList, Recovers readNode Node.toValue inner
  parts : ∀ part inner, node.part? part = some inner → Recovers readNode Node.toValue inner
  element : ∀ element, node.element = some element → element.Distinct
  change : ∀ change, node.change = some change → change.Distinct

theorem isNull_node
    (node : Node) :
    node.toValue.toTree.isNull = false := by
  rw [toValue_node]
  rfl

theorem isNull_items
    (items : Items Node) :
    (itemsValue items).toTree.isNull = false := by
  cases items with
  | one node => exact isNull_node node
  | many nodes => rfl

/-- What is written under a key is read back into the draft. -/
theorem readAtKey_written
    {route : Route}
    {node : Node}
    {key : NodeKey}
    {value : Value}
    (h : node.PartsRecovered)
    (hvalue : node.writtenAt? key = some value)
    (hany : readAny route value.toTree = .ok ())
    (done : List NodeKey) :
    readAtKey route value.toTree (node.restrict done) key = .ok (node.restrict (key :: done)) := by
  match key with
  | .branch .properties =>
      obtain ⟨members, hmembers, rfl⟩ := Option.map_eq_some_iff.mp hvalue
      have hread := readNamed_written (h.names members hmembers) (h.members members hmembers)
        (readAny_ahead hany)
      have hnull : (membersValue members).toTree.isNull = false := rfl
      simp [readAtKey, hnull, hany, hread, asAlternative, Node.restrict, hmembers, pure,
        Except.pure]
  | .branch .items =>
      obtain ⟨items, hitems, rfl⟩ := Option.map_eq_some_iff.mp hvalue
      have hread := readListed_written (h.items items hitems) (readAny_ahead hany)
      simp [readAtKey, isNull_items, hany, hread, asAlternative, Node.restrict, hitems, pure,
        Except.pure]
  | .branch (.part part) =>
      obtain ⟨inner, hinner, rfl⟩ := Option.map_eq_some_iff.mp hvalue
      have hread := h.parts part inner hinner route hany
      simp only [readAtKey, isNull_node, hread]
      cases part <;>
        simp only [Node.part?] at hinner <;>
        simp [Node.setPart, Node.restrict, hinner, pure, Except.pure]
  | .element =>
      obtain ⟨element, helement, rfl⟩ := Option.map_eq_some_iff.mp hvalue
      have hread := recovers_element (h.element element helement) route hany
      have hnull : element.toValue.toTree.isNull = false := rfl
      simp [readAtKey, readOption, hnull, hread, Except.map, Node.restrict, helement, pure,
        Except.pure]
  | .change =>
      obtain ⟨change, hchange, rfl⟩ := Option.map_eq_some_iff.mp hvalue
      have hread := recovers_change (h.change change hchange) route hany
      have hnull : change.toValue.toTree.isNull = false := rfl
      simp [readAtKey, readOption, hnull, hread, Except.map, Node.restrict, hchange, pure,
        Except.pure]

theorem nodup_bySpelling :
    (Listing.names NodeKey.bySpelling).Nodup := by
  simp [NodeKey.bySpelling, Branch.byKey, Branch.all, Branch.key, Listing.names]

theorem get?_bySpelling_declared
    {declaration : Declaration}
    {member : String × Value}
    (h : member ∈ declaration.members) :
    Listing.get? member.1 NodeKey.bySpelling = none := by
  have hkeys : ∀ key ∈ fieldKeys declarationFields, Listing.get? key NodeKey.bySpelling = none := by
    decide
  have hsame : declaration.written.map Prod.fst = fieldKeys declarationFields := rfl
  rw [members_eq_present, mem_present_iff] at h
  exact hkeys member.1 (hsame ▸ List.mem_map_of_mem h)

theorem present_written_of_none
    {node : Node}
    {key : NodeKey}
    (h : node.writtenAt? key = none)
    (name : String)
    (keys : Listing NodeKey) :
    Value.present (node.written ((name, key) :: keys)) = Value.present (node.written keys) := by
  simp [Node.written, Value.present, h]

theorem present_written_of_some
    {node : Node}
    {key : NodeKey}
    {value : Value}
    (h : node.writtenAt? key = some value)
    (name : String)
    (keys : Listing NodeKey) :
    Value.present (node.written ((name, key) :: keys)) =
      (name, value) :: Value.present (node.written keys) := by
  simp [Node.written, Value.present, h]

/-- A key is spelled differently from those in front of it. -/
theorem not_mem_front
    {front back : Listing NodeKey}
    {name : String}
    {key : NodeKey}
    (h : NodeKey.bySpelling = front ++ (name, key) :: back) :
    name ∉ Listing.names front := by
  intro hmem
  have hnodup := nodup_bySpelling
  rw [h, Listing.names, List.map_append, List.map_cons] at hnodup
  exact (List.nodup_append.mp hnodup).2.2 name hmem name (by simp) rfl

/-- The members under a node's own keys lead to the node without its declaration. -/
theorem readNodeMembers_written
    {route : Route}
    {node : Node}
    (h : node.PartsRecovered)
    (more : List (Content × Tree))
    (front : Listing NodeKey)
    {back : Listing NodeKey}
    (hkeys : NodeKey.bySpelling = front ++ back)
    (seen : List String)
    (hseen : ∀ name ∈ seen, name ∈ Listing.names front)
    (done : List NodeKey)
    (hany : ∀ member ∈ Value.present (node.written back), readAny route member.2.toTree = .ok ()) :
    ∃ seen',
      readNodeMembers route .closed
          (Value.treeMembersOf (Value.present (node.written back)) ++ more)
          { node := node.restrict done, seen := seen } =
        readNodeMembers route .closed more
          { node := node.restrict ((back.map Prod.snd).reverse ++ done), seen := seen' } := by
  induction back generalizing front seen done with
  | nil => exact ⟨seen, rfl⟩
  | cons entry back ih =>
      obtain ⟨name, key⟩ := entry
      have hkeys' : NodeKey.bySpelling = (front ++ [(name, key)]) ++ back := by
        rw [hkeys, List.append_cons]
      have hreverse :
          (((name, key) :: back).map Prod.snd).reverse ++ done =
            (back.map Prod.snd).reverse ++ (key :: done) := by
        simp
      rw [hreverse]
      have hfront : ∀ other ∈ seen, other ∈ Listing.names (front ++ [(name, key)]) := by
        intro other hother
        rw [Listing.names, List.map_append]
        exact List.mem_append_left _ (hseen other hother)
      cases hvalue : node.writtenAt? key with
      | none =>
          rw [present_written_of_none hvalue] at hany ⊢
          rw [← restrict_absent hvalue done]
          exact ih (front ++ [(name, key)]) hkeys' seen hfront (key :: done) hany
      | some value =>
          rw [present_written_of_some hvalue, List.forall_mem_cons] at hany
          have hname : Listing.get? name NodeKey.bySpelling = some key :=
            Listing.get?_of_mem nodup_bySpelling (by simp [hkeys])
          have hnew : name ∉ seen := fun hmem => not_mem_front hkeys (hseen name hmem)
          have hseen' : ∀ other ∈ name :: seen, other ∈ Listing.names (front ++ [(name, key)]) := by
            rw [List.forall_mem_cons]
            exact ⟨by simp [Listing.names], hfront⟩
          obtain ⟨seen', hmore⟩ :=
            ih (front ++ [(name, key)]) hkeys' (name :: seen) hseen' (key :: done) hany.2
          refine ⟨seen', ?_⟩
          have hread := readAtKey_written h hvalue hany.1 done
          rw [present_written_of_some hvalue, Value.treeMembersOf, List.cons_append,
            readNodeMembers_known hname]
          simp only [List.contains_eq_mem, hnew, decide_false, Bool.false_eq_true, if_false, hread,
            ok_bind]
          exact hmore

/-- The members of the declaration are set aside, in reverse. -/
theorem readNodeMembers_declared
    {route : Route}
    {members : List (String × Value)}
    (hnames : ∀ member ∈ members, Listing.get? member.1 NodeKey.bySpelling = none)
    (hany : ∀ member ∈ members, readAny route member.2.toTree = .ok ())
    (draft : NodeDraft) :
    readNodeMembers route .closed (Value.treeMembersOf members) draft =
      { draft with aside := (Value.treeMembersOf members).reverse ++ draft.aside }.finish := by
  induction members generalizing draft with
  | nil => rfl
  | cons member more ih =>
      rw [List.forall_mem_cons] at hnames hany
      rw [Value.treeMembersOf, readNodeMembers_unknown hnames.1, hany.1, ok_bind,
        ih hnames.2 hany.2]
      simp

theorem restrict_all
    (node : Node) :
    { node.restrict (NodeKey.bySpelling.map Prod.snd).reverse with
      declaration := node.declaration } = node := by
  obtain ⟨properties, items, containers, entities, definitions, modified, deleted, added, element,
    change, declaration⟩ := node
  simp [Node.restrict, NodeKey.bySpelling, Branch.byKey, Branch.all]

/-- A node in which everything is recovered is recovered. -/
theorem recovers_of_parts
    {node : Node}
    (h : node.PartsRecovered) :
    Recovers readNode Node.toValue node := by
  intro route hany
  rw [toValue_node] at hany ⊢
  obtain ⟨inner, henter, hmembers⟩ := readAny_of_object hany
  rw [List.forall_mem_append] at hmembers
  obtain ⟨hwritten, hdeclared⟩ := hmembers
  have htrees : Value.treeMembersOf (Value.present (node.written NodeKey.bySpelling)
        ++ node.declaration.members) =
      Value.treeMembersOf (Value.present (node.written NodeKey.bySpelling))
        ++ Value.treeMembersOf node.declaration.members := by
    simp [treeMembersOf_eq_map]
  obtain ⟨seen, hread⟩ := readNodeMembers_written h
    (Value.treeMembersOf node.declaration.members) []
    (List.nil_append NodeKey.bySpelling).symm [] (by simp) [] hwritten
  have hfinish := readNodeMembers_declared (fun _ => get?_bySpelling_declared) hdeclared
    { node := node.restrict ((NodeKey.bySpelling.map Prod.snd).reverse ++ []), seen := seen }
  have hdeclaration := readMembers_replays []
    (replays_declaration .ahead node.declaration)
    (fun member hmember => readAny_ahead (hdeclared member hmember)) declarationKeys_nodup
    [] (by simp) (by simp)
  rw [← members_eq_present, List.nil_append] at hdeclaration
  have hstart : ({} : NodeDraft) = { node := node.restrict [], seen := [] } := by
    simp [Node.restrict]
  rw [Value.toTree, htrees, readNode_object henter, hstart, hread, hfinish, NodeDraft.finish]
  simp only [List.append_nil, List.reverse_reverse, hdeclaration, ok_bind, pure, Except.pure]
  exact congrArg Except.ok (restrict_all node)

/-- A node whose names are distinct is read back from its written form. -/
theorem recovers_node
    {node : Node}
    (h : node.Distinct) :
    Recovers readNode Node.toValue node := by
  induction h with
  | intro names members items parts element change ihmembers ihitems ihparts =>
      exact recovers_of_parts ⟨names, ihmembers, ihitems, ihparts, element, change⟩

/-! ## What is read -/

/-- What a node holds nests no deeper than the room for it, and its names are distinct. -/
structure Node.KeepsTo (room : Nat) (node : Node) : Prop where
  names : ∀ members, node.properties = some members → (Listing.names members).Nodup
  members : ∀ members, node.properties = some members →
    (membersValue members).nesting ≤ room ∧ ∀ entry ∈ members, entry.2.Distinct
  items : ∀ items, node.items = some items →
    (itemsValue items).nesting ≤ room ∧ ∀ inner ∈ items.toList, inner.Distinct
  parts : ∀ part inner, node.part? part = some inner →
    inner.toValue.nesting ≤ room ∧ inner.Distinct
  element : ∀ element, node.element = some element →
    element.toValue.nesting ≤ room ∧ element.Distinct
  change : ∀ change, node.change = some change → change.toValue.nesting ≤ room ∧ change.Distinct

theorem Node.KeepsTo.distinct
    {room : Nat}
    {node : Node}
    (h : node.KeepsTo room) :
    node.Distinct :=
  .intro h.names (fun _ hmembers => (h.members _ hmembers).2) (fun _ hitems => (h.items _ hitems).2)
    (fun _ _ hinner => (h.parts _ _ hinner).2) (fun _ helement => (h.element _ helement).2)
    (fun _ hchange => (h.change _ hchange).2)

theorem Node.KeepsTo.nesting
    {room : Nat}
    {node : Node}
    (h : node.KeepsTo room) :
    node.toValue.nesting ≤ room + 1 := by
  rw [toValue_node, nesting_object_le_iff]
  intro member hmember
  rcases List.mem_append.mp hmember with hwritten | hdeclared
  · obtain ⟨key, -, hvalue⟩ := mem_written_iff.mp hwritten
    match key with
    | .branch .properties =>
        obtain ⟨members, hmembers, hvalue⟩ := Option.map_eq_some_iff.mp hvalue
        exact hvalue ▸ (h.members members hmembers).1
    | .branch .items =>
        obtain ⟨items, hitems, hvalue⟩ := Option.map_eq_some_iff.mp hvalue
        exact hvalue ▸ (h.items items hitems).1
    | .branch (.part part) =>
        obtain ⟨inner, hinner, hvalue⟩ := Option.map_eq_some_iff.mp hvalue
        exact hvalue ▸ (h.parts part inner hinner).1
    | .element =>
        obtain ⟨element, helement, hvalue⟩ := Option.map_eq_some_iff.mp hvalue
        exact hvalue ▸ (h.element element helement).1
    | .change =>
        obtain ⟨change, hchange, hvalue⟩ := Option.map_eq_some_iff.mp hvalue
        exact hvalue ▸ (h.change change hchange).1
  · rw [nesting_declarationMember hdeclared]
    exact Nat.zero_le room

/-- What is read from a tree keeps to the room for it, whichever reader looks at it. -/
structure Yielded (tree : Tree) : Prop where
  node : ∀ route node, readNode route tree = .ok node →
    node.toValue.nesting ≤ route.room tree ∧ node.Distinct
  members : ∀ members, readNamed tree = .ok members →
    (membersValue members).nesting ≤ tree.nesting ∧ (Listing.names members).Nodup ∧
      ∀ entry ∈ members, entry.2.Distinct
  items : ∀ items, readListed tree = .ok items →
    (itemsValue items).nesting ≤ tree.nesting ∧ ∀ inner ∈ items.toList, inner.Distinct

theorem asAlternative_eq_ok_iff
    {α : Type}
    {type : String}
    {reading : Except ReadError α}
    {value : α} :
    asAlternative type reading = .ok value ↔ reading = .ok value := by
  cases reading <;> simp [asAlternative]

/-- Reading a member under a node's own key keeps to the room. -/
theorem readAtKey_keeps
    {route : Route}
    {tree : Tree}
    {room : Nat}
    {node next : Node}
    {key : NodeKey}
    (htree : Yielded tree)
    (hroom : route.room tree ≤ room)
    (h : node.KeepsTo room)
    (hread : readAtKey route tree node key = .ok next) :
    next.KeepsTo room := by
  match key with
  | .branch .properties =>
      rw [readAtKey] at hread
      split at hread
      · exact Except.ok.inj hread ▸ h
      · obtain ⟨⟨⟩, hany, hread⟩ := bind_eq_ok_iff.mp hread
        obtain ⟨members, hmembers, hread⟩ := bind_eq_ok_iff.mp hread
        obtain rfl := Except.ok.inj hread
        obtain ⟨hnesting, hnames, hdistinct⟩ :=
          htree.members members (asAlternative_eq_ok_iff.mp hmembers)
        have hahead := nesting_le_room hany
        refine { h with names := ?_, members := ?_ }
        · rintro _ ⟨rfl⟩
          exact hnames
        · rintro _ ⟨rfl⟩
          exact ⟨by omega, hdistinct⟩
  | .branch .items =>
      rw [readAtKey] at hread
      split at hread
      · exact Except.ok.inj hread ▸ h
      · obtain ⟨⟨⟩, hany, hread⟩ := bind_eq_ok_iff.mp hread
        obtain ⟨items, hitems, hread⟩ := bind_eq_ok_iff.mp hread
        obtain rfl := Except.ok.inj hread
        obtain ⟨hnesting, hdistinct⟩ := htree.items items (asAlternative_eq_ok_iff.mp hitems)
        have hahead := nesting_le_room hany
        refine { h with items := ?_ }
        rintro _ ⟨rfl⟩
        exact ⟨by omega, hdistinct⟩
  | .branch (.part part) =>
      rw [readAtKey] at hread
      split at hread
      · exact Except.ok.inj hread ▸ h
      · obtain ⟨inner, hinner, hread⟩ := bind_eq_ok_iff.mp hread
        obtain rfl := Except.ok.inj hread
        obtain ⟨hnesting, hdistinct⟩ := htree.node route inner hinner
        refine ⟨by simpa using h.names, by simpa using h.members, by simpa using h.items, ?_,
          by simpa using h.element, by simpa using h.change⟩
        intro other found hfound
        rw [Node.part?_setPart] at hfound
        split at hfound
        · obtain rfl := Option.some.inj hfound
          exact ⟨by omega, hdistinct⟩
        · exact h.parts other found hfound
  | .element =>
      obtain ⟨element, helement, hread⟩ := bind_eq_ok_iff.mp hread
      obtain rfl := Except.ok.inj hread
      exact { h with
        element := yields_element.within (And.imp_left ∘ nesting_le_trans) hroom helement }
  | .change =>
      obtain ⟨change, hchange, hread⟩ := bind_eq_ok_iff.mp hread
      obtain rfl := Except.ok.inj hread
      exact { h with
        change := yields_change.within (And.imp_left ∘ nesting_le_trans) hroom hchange }

/-- Reading members keeps to the room. -/
theorem readNodeMembers_keeps
    {route : Route}
    {stop : ObjectStop}
    {members : List (Content × Tree)}
    (draft : NodeDraft)
    {room : Nat}
    {node : Node}
    (hmembers : ∀ member ∈ members, Yielded member.2 ∧ route.room member.2 ≤ room)
    (h : draft.node.KeepsTo room)
    (hread : readNodeMembers route stop members draft = .ok node) :
    node.KeepsTo room := by
  induction members generalizing draft with
  | nil =>
      obtain ⟨-, -, hread⟩ := bind_eq_ok_iff.mp hread
      obtain ⟨declaration, -, hread⟩ := bind_eq_ok_iff.mp hread
      obtain rfl := Except.ok.inj hread
      exact ⟨h.names, h.members, h.items, fun part inner hinner => h.parts part inner (by
        cases part <;> exact hinner), h.element, h.change⟩
  | cons member more ih =>
      rw [List.forall_mem_cons] at hmembers
      obtain ⟨content, tree⟩ := member
      obtain ⟨name, rfl, ⟨-, hread⟩ | ⟨key, next, -, -, hnext, hread⟩⟩ :=
        readNodeMembers_cons_eq_ok hread
      · exact ih { draft with aside := (.ok name, tree) :: draft.aside } hmembers.2 h hread
      · have hkeeps := readAtKey_keeps hmembers.1.1 hmembers.1.2 h hnext
        exact ih { draft with node := next, seen := _ } hmembers.2 hkeeps hread

theorem readNodes_mem
    {items : List Tree}
    {nodes : List Node}
    (h : readNodes items = .ok nodes) :
    ∀ node ∈ nodes, ∃ item ∈ items, readNode .ahead item = .ok node := by
  induction items generalizing nodes with
  | nil =>
      obtain rfl := Except.ok.inj h
      simp
  | cons item more ih =>
      obtain ⟨first, hfirst, h⟩ := bind_eq_ok_iff.mp h
      obtain ⟨others, hothers, h⟩ := bind_eq_ok_iff.mp h
      obtain rfl := Except.ok.inj h
      rw [List.forall_mem_cons]
      refine ⟨⟨item, by simp, hfirst⟩, fun node hnode => ?_⟩
      obtain ⟨other, hother, hread⟩ := ih hothers node hnode
      exact ⟨other, by simp [hother], hread⟩

theorem readNamedNodes_mem
    {members : List (Content × Tree)}
    {entries : List (String × Node)}
    (h : readNamedNodes members = .ok entries) :
    ∀ entry ∈ entries, ∃ member ∈ members, readNode .ahead member.2 = .ok entry.2 := by
  induction members generalizing entries with
  | nil =>
      obtain rfl := Except.ok.inj h
      simp
  | cons member more ih =>
      obtain ⟨name, -, h⟩ := bind_eq_ok_iff.mp h
      obtain ⟨first, hfirst, h⟩ := bind_eq_ok_iff.mp h
      obtain ⟨others, hothers, h⟩ := bind_eq_ok_iff.mp h
      obtain rfl := Except.ok.inj h
      rw [List.forall_mem_cons]
      refine ⟨⟨member, by simp, hfirst⟩, fun entry hentry => ?_⟩
      obtain ⟨other, hother, hread⟩ := ih hothers entry hentry
      exact ⟨other, by simp [hother], hread⟩

theorem nesting_ofEntries
    {entries : List (String × Node)}
    {room : Nat}
    (h : ∀ entry ∈ entries, entry.2.toValue.nesting < room ∧ entry.2.Distinct)
    (hroom : 0 < room) :
    (membersValue (Listing.ofEntries entries)).nesting ≤ room ∧
      (Listing.names (Listing.ofEntries entries)).Nodup ∧
        ∀ entry ∈ Listing.ofEntries entries, entry.2.Distinct := by
  have hentry := fun entry hentry => h entry (Listing.mem_of_mem_ofEntries hentry)
  refine ⟨?_, Listing.nodup_names_ofEntries entries, fun entry hmem => (hentry entry hmem).2⟩
  obtain ⟨less, rfl⟩ : ∃ less, room = less + 1 := ⟨room - 1, by omega⟩
  rw [membersValue, nesting_object_le_iff, List.forall_mem_map]
  exact fun entry hmem => Nat.le_of_lt_succ (hentry entry hmem).1

/-- The members of an object keep to the room for it. -/
theorem readNodeMembers_yields
    {route inner : Route}
    {members : List (Content × Tree)}
    {stop : ObjectStop}
    {node : Node}
    (henter : route.enter = .ok inner)
    (h : ∀ member ∈ members, Yielded member.2)
    (hread : readNodeMembers inner stop members {} = .ok node) :
    node.toValue.nesting ≤ route.room (.object members stop) ∧ node.Distinct := by
  have htree : 0 < (Tree.object members stop).nesting := Nat.succ_pos _
  have hpos := room_pos_of_enter henter htree
  have hkeeps : node.KeepsTo (route.room (.object members stop) - 1) := by
    refine readNodeMembers_keeps {} (fun member hmember => ⟨h member hmember, ?_⟩) ?_ hread
    · have := room_lt_of_enter henter (nesting_lt_of_mem_members hmember stop)
      omega
    · constructor <;> simp
      intro part inner hinner
      cases part <;> simp [Node.part?] at hinner
  have hnesting := hkeeps.nesting
  exact ⟨by omega, hkeeps.distinct⟩

/-- What is read from a tree keeps to the room for it. -/
theorem yielded
    (tree : Tree) :
    Yielded tree := by
  induction tree using Tree.nested_induction with
  | leaf tree hleaf =>
      cases tree with
      | list items stop => simp [Tree.nesting] at hleaf
      | object members stop => simp [Tree.nesting] at hleaf
      | _ => constructor <;> simp [readNode, readNamed, readListed]
  | list items stop ih =>
      have hnodes (nodes : List Node) (hread : readNodes items = .ok nodes) :
          ∀ node ∈ nodes,
            node.toValue.nesting < (Tree.list items stop).nesting ∧ node.Distinct := by
        intro node hnode
        obtain ⟨item, hitem, hread⟩ := readNodes_mem hread node hnode
        obtain ⟨hnesting, hdistinct⟩ := (ih item hitem).node .ahead node hread
        exact ⟨Nat.lt_of_le_of_lt hnesting (nesting_lt_of_mem_items hitem stop), hdistinct⟩
      constructor
      · simp [readNode]
      · intro members hread
        rw [readNamed] at hread
        obtain ⟨nodes, hfound, rfl⟩ := map_eq_ok_iff.mp hread
        refine nesting_ofEntries ?_ (by simp [Tree.nesting])
        rw [List.forall_mem_map]
        exact fun entry hentry => hnodes nodes hfound entry.1 (List.fst_mem_of_mem_zipIdx hentry)
      · intro found hread
        rw [readListed] at hread
        obtain ⟨nodes, hfound, rfl⟩ := map_eq_ok_iff.mp hread
        refine ⟨?_, fun node hnode => (hnodes nodes hfound node hnode).2⟩
        rw [itemsValue, Tree.nesting, nesting_list_le_iff, List.forall_mem_map]
        exact fun node hnode => Nat.le_of_lt_succ (hnodes nodes hfound node hnode).1
  | object members stop ih =>
      constructor
      · intro route node hread
        obtain ⟨inner, henter, hread⟩ := bind_eq_ok_iff.mp hread
        exact readNodeMembers_yields henter ih hread
      · intro named hread
        rw [readNamed] at hread
        obtain ⟨entries, hfound, rfl⟩ := map_eq_ok_iff.mp hread
        refine nesting_ofEntries (fun entry hentry => ?_) (by simp [Tree.nesting])
        obtain ⟨member, hmember, hread⟩ := readNamedNodes_mem hfound entry hentry
        obtain ⟨hnesting, hdistinct⟩ := (ih member hmember).node .ahead entry.2 hread
        exact ⟨Nat.lt_of_le_of_lt hnesting (nesting_lt_of_mem_members hmember stop), hdistinct⟩
      · intro found hread
        rw [readListed] at hread
        obtain ⟨node, hfound, rfl⟩ := map_eq_ok_iff.mp hread
        have henter : Route.ahead.enter = .ok .ahead := rfl
        obtain ⟨hnesting, hdistinct⟩ := readNodeMembers_yields henter ih hfound
        exact ⟨hnesting, by simpa [Items.toList] using hdistinct⟩

/-- A node that was read is written no deeper than the room it was read in, and its names are
distinct. -/
theorem yields_node :
    Yields readNode fun room node => node.toValue.nesting ≤ room ∧ node.Distinct :=
  fun route tree node hread => (yielded tree).node route node hread

end Delta
end CqlDelta
