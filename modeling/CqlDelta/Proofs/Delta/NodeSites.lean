import CqlDelta.Proofs.Delta.ListedMembers
import CqlDelta.Proofs.Delta.NodeRecords

/-!
# What nodes leave open

The places of a node are its own object and those in its declaration, in its element and in its
change; and the places of every node below it, wherever that stands: in a part, under a name or at a
position among the members, in a list of items or as the only one. Edits in all of them are sound
(`sound_node`).
-/

namespace CqlDelta
namespace Delta

open Json

/-! ## Parts of a node -/

namespace Node

/-- The declaration of a node. -/
def declarationLens : Lens Node Declaration where
  get := Node.declaration
  set := fun value node => { node with declaration := value }
  get_set := fun _ _ => rfl
  set_get := fun node => by cases node; rfl
  set_set := fun _ _ _ => rfl

/-- The element of a node. -/
def elementLens : Lens Node (Option Element) where
  get := Node.element
  set := fun value node => { node with element := value }
  get_set := fun _ _ => rfl
  set_get := fun node => by cases node; rfl
  set_set := fun _ _ _ => rfl

/-- The change of a node. -/
def changeLens : Lens Node (Option Change) where
  get := Node.change
  set := fun value node => { node with change := value }
  get_set := fun _ _ => rfl
  set_get := fun node => by cases node; rfl
  set_set := fun _ _ _ => rfl

/-- The members of a node. -/
def propertiesLens : Lens Node (Option Members) where
  get := Node.properties
  set := fun value node => { node with properties := value }
  get_set := fun _ _ => rfl
  set_get := fun node => by cases node; rfl
  set_set := fun _ _ _ => rfl

/-- The items of a node. -/
def itemsLens : Lens Node (Option (Items Node)) where
  get := Node.items
  set := fun value node => { node with items := value }
  get_set := fun _ _ => rfl
  set_get := fun node => by cases node; rfl
  set_set := fun _ _ _ => rfl

/-- A part of a node that holds a single node. -/
def partLens (part : Part) : Lens Node (Option Node) where
  get := fun node => node.part? part
  set := Node.setPart part
  get_set := fun inner node => by rw [part?_setPart, if_pos rfl]
  set_get := fun node => by cases node; cases part <;> rfl
  set_set := fun inner other node => by cases part <;> rfl

end Node

/-- Changes one of several items. -/
def Items.changeAt {α : Type} (position : Nat) (update : α → α) : Items α → Items α
  | .many items => .many (items.modify position update)
  | .one item => .one item

/-- Changes the only item. -/
def Items.changeOne {α : Type} (update : α → α) : Items α → Items α
  | .many items => .many items
  | .one item => .one (update item)

/-! ## Places -/

/-- The keys of a node and of its declaration, all of which may be absent. -/
def nodeKeys : List String :=
  Listing.names NodeKey.bySpelling ++ rowKeys declarationRows

/-- The places in a node. -/
inductive NodeSites : Tree → List Nat → Site Node → Prop
  /-- The object of the node itself. -/
  | here (members : List (Content × Tree)) (stop : ObjectStop) :
      NodeSites (.object members stop) [] (.object nodeKeys nodeKeys)
  /-- A place in the declaration. -/
  | declaration {members : List (Content × Tree)} {stop : ObjectStop} {index : Nat} {child : Tree}
      {path : List Nat} {site : Site Declaration} {row : Row Declaration}
      (declared : row ∈ declarationRows)
      (there : members[index]? = some (.ok row.key, child))
      (h : row.sites child path site) :
      NodeSites (.object members stop) (index :: path) (site.lift Node.declarationLens.modify)
  /-- A place in the element. -/
  | element {members : List (Content × Tree)} {stop : ObjectStop} {index : Nat} {child : Tree}
      {path : List Nat} {site : Site Element}
      (there : members[index]? = some (.ok "role", child))
      (h : elementSites child path site) :
      NodeSites (.object members stop) (index :: path) (site.under Node.elementLens)
  /-- A place in the change. -/
  | change {members : List (Content × Tree)} {stop : ObjectStop} {index : Nat} {child : Tree}
      {path : List Nat} {site : Site Change}
      (there : members[index]? = some (.ok "compMod", child))
      (h : changeSites child path site) :
      NodeSites (.object members stop) (index :: path) (site.under Node.changeLens)
  /-- A place in the node of a part. -/
  | part {members : List (Content × Tree)} {stop : ObjectStop} {index : Nat} {part : Part}
      {child : Tree} {path : List Nat} {site : Site Node}
      (there : members[index]? = some (.ok (Branch.part part).key, child))
      (h : NodeSites child path site) :
      NodeSites (.object members stop) (index :: path) (site.under (Node.partLens part))
  /-- A place in a member, where the members are given as an object. -/
  | named {members : List (Content × Tree)} {stop : ObjectStop} {index : Nat}
      {entries : List (Content × Tree)} {inside : ObjectStop} {position : Nat} {name : Content}
      {child : Tree} {path : List Nat} {site : Site Node}
      (there : members[index]? = some (.ok "properties", .object entries inside))
      (below : entries[position]? = some (name, child))
      (h : NodeSites child path site) :
      NodeSites (.object members stop) (index :: position :: path)
        ((site.lift (Listing.changeAt (memberKeys entries) position)).under Node.propertiesLens)
  /-- A place in a member, where the members are given as a list. -/
  | positioned {members : List (Content × Tree)} {stop : ObjectStop} {index : Nat}
      {items : List Tree} {inside : ListStop} {position : Nat} {nodes : List Node}
      {child : Tree} {path : List Nat} {site : Site Node}
      (there : members[index]? = some (.ok "properties", .list items inside))
      (below : items[position]? = some child)
      (read : readNodes items = .ok nodes)
      (h : NodeSites child path site) :
      NodeSites (.object members stop) (index :: position :: path)
        ((site.lift (Listing.changeAt (Listing.names (keyed nodes)) position)).under
          Node.propertiesLens)
  /-- A place in one of several items. -/
  | listed {members : List (Content × Tree)} {stop : ObjectStop} {index : Nat}
      {items : List Tree} {inside : ListStop} {position : Nat} {child : Tree} {path : List Nat}
      {site : Site Node}
      (there : members[index]? = some (.ok "items", .list items inside))
      (below : items[position]? = some child)
      (h : NodeSites child path site) :
      NodeSites (.object members stop) (index :: position :: path)
        ((site.lift (Items.changeAt position)).under Node.itemsLens)
  /-- A place in the only item. -/
  | single {members : List (Content × Tree)} {stop : ObjectStop} {index : Nat} {child : Tree}
      {path : List Nat} {site : Site Node}
      (there : members[index]? = some (.ok "items", child))
      (h : NodeSites child path site) :
      NodeSites (.object members stop) (index :: path)
        ((site.lift Items.changeOne).under Node.itemsLens)

/-- A whole node is no value that may be replaced. -/
theorem NodeSites.root
    {tree : Tree}
    {site : Site Node}
    (h : NodeSites tree [] site) :
    ∃ declared optional, site = .object declared optional := by
  cases h
  exact ⟨_, _, rfl⟩

/-! ## Edits of a node's object -/

section Objects

variable {route inner : Route} {stop : ObjectStop} {front back : List (Content × Tree)}
  {name : String} {tree : Tree} {node : Node}

theorem isAside_iff :
    isAside (.ok name, tree) = true ↔ Listing.get? name NodeKey.bySpelling = none := by
  simp [isAside, keyText]

theorem not_mem_bySpelling_iff :
    name ∉ Listing.names NodeKey.bySpelling ↔ Listing.get? name NodeKey.bySpelling = none := by
  rw [← fieldKeys_nodeFields, ← Option.map_eq_none_iff, ← find_nodeFields]
  simp [fieldKeys]

theorem rowKeys_nodeRows :
    rowKeys nodeRows = Listing.names NodeKey.bySpelling := by
  rw [rowKeys_of_fits nodeRows_fit, fieldKeys_nodeFields]

theorem optionalKeys_nodeRows :
    optionalKeys nodeRows = Listing.names NodeKey.bySpelling := by
  have hall : nodeRows.filter Row.optional = nodeRows := by
    rw [List.filter_eq_self]
    simp [nodeRows]
  rw [optionalKeys, hall, rowKeys_nodeRows]

theorem optionalKeys_declarationRows :
    optionalKeys declarationRows = rowKeys declarationRows :=
  rfl

/-- A new member that says nothing is read without effect. -/
theorem readNodeMembers_harmless
    (hread : readNodeMembers route stop (front ++ back) {} = .ok node)
    (hany : readAny route tree = .ok ())
    (hharmless : name ∉ nodeKeys ∨
      name ∈ nodeKeys ∧ name ∉ memberKeys (front ++ back) ∧ tree = .null) :
    readNodeMembers route stop (front ++ (.ok name, tree) :: back) {} = .ok node := by
  obtain ⟨haside, base, declaration, hbase, hdeclaration, rfl⟩ :=
    readNodeMembers_eq_ok_iff.mp hread
  rw [nodeKeys, List.mem_append, not_or] at hharmless
  have hpass := passOver_of_readAny hany
  have hbase' := readMembers_harmless nodeRows_fit nodeKeys_nodup commuting_node hbase hpass (by
    rw [rowKeys_nodeRows, optionalKeys_nodeRows]
    tauto)
  refine readNodeMembers_eq_ok_iff.mpr ⟨?_, base, declaration, hbase', ?_, rfl⟩
  · rw [List.forall_mem_append] at haside ⊢
    exact ⟨haside.1, List.forall_mem_cons.mpr ⟨fun _ => hany, haside.2⟩⟩
  · simp only [List.reverse_nil, List.nil_append, List.filter_append, List.filter_cons]
      at hdeclaration ⊢
    split
    next hother =>
      refine readMembers_harmless declarationRows_fit declarationKeys_nodup commuting_declaration
        hdeclaration hpass ?_
      have hkeys : memberKeys (front.filter isAside ++ back.filter isAside) ⊆
          memberKeys (front ++ back) := by
        rw [← List.filter_append]
        exact List.map_subset _ List.filter_sublist.subset
      have hown := not_mem_bySpelling_iff.mpr (isAside_iff.mp hother)
      rw [optionalKeys_declarationRows]
      rcases hharmless with hundeclared | ⟨hdeclared, hfresh, hnull⟩
      · exact .inl hundeclared.2
      · exact .inr ⟨hdeclared.resolve_left hown, fun hmem => hfresh (hkeys hmem), hnull⟩
    next => exact hdeclaration

/-- After an edit in the value of one of the node's own keys, the node is read as the site says. -/
theorem readNodeMembers_own
    {key : NodeKey}
    {child old new : Tree}
    {path : List Nat}
    {site : Site Node}
    (hname : Listing.get? name NodeKey.bySpelling = some key)
    (hsite : (NodeKey.field (name, key)).SoundAt child path site)
    (hput : ∀ node declaration,
      site.put new { node with declaration := declaration } =
        { site.put new node with declaration := declaration })
    (hread : readNodeMembers route stop (front ++ (.ok name, child) :: back) {} = .ok node)
    (hdown : route.down path.length = .ok inner)
    (hold : child.valueAt? path = some old)
    (hnew : site.Admits inner old new) :
    readNodeMembers route stop (front ++ (.ok name, child.replaceAt path new) :: back) {} =
      .ok (site.put new node) := by
  obtain ⟨haside, base, declaration, hbase, hdeclaration, rfl⟩ :=
    readNodeMembers_eq_ok_iff.mp hread
  have hown (tree : Tree) : isAside (.ok name, tree) = false := by simp [isAside, keyText, hname]
  have hrow : ⟨name, true, (NodeKey.field (name, key)).SoundAt⟩ ∈ nodeRows :=
    List.mem_map_of_mem (List.mem_map_of_mem (Listing.mem_of_get? hname))
  have hbase' := readMembers_sound nodeRows_fit nodeKeys_nodup commuting_node hrow hsite hbase
    hdown hold hnew
  refine readNodeMembers_eq_ok_iff.mpr ⟨?_, _, declaration, hbase', ?_, hput base declaration⟩
  · rw [List.forall_mem_append, List.forall_mem_cons] at haside ⊢
    exact ⟨haside.1, by simp [hown], haside.2.2⟩
  · simpa [hown] using hdeclaration

/-- After an edit in the value of a key of the declaration, the node is read as the site says. -/
theorem readNodeMembers_declaration
    {row : Row Declaration}
    {child old new : Tree}
    {path : List Nat}
    {site : Site Declaration}
    (hrow : row ∈ declarationRows)
    (hsite : row.sites child path site)
    (hread : readNodeMembers route stop (front ++ (.ok row.key, child) :: back) {} = .ok node)
    (hdown : route.down path.length = .ok inner)
    (hold : child.valueAt? path = some old)
    (hnew : site.Admits inner old new) :
    readNodeMembers route stop (front ++ (.ok row.key, child.replaceAt path new) :: back) {} =
      .ok { node with declaration := site.put new node.declaration } := by
  obtain ⟨haside, base, declaration, hbase, hdeclaration, rfl⟩ :=
    readNodeMembers_eq_ok_iff.mp hread
  have hname := get?_bySpelling_of_declared (List.mem_map_of_mem hrow)
  have hother (tree : Tree) : isAside (.ok row.key, tree) = true := isAside_iff.mpr hname
  have hundeclared : row.key ∉ fieldKeys nodeFields := by
    rwa [fieldKeys_nodeFields, not_mem_bySpelling_iff]
  rw [List.forall_mem_append, List.forall_mem_cons] at haside
  have hany := readAny_replaceAt (haside.2.1 (hother child)) hdown hold hnew
  have hbase' := (readMembers_undeclared_iff hundeclared).mpr
    ⟨passOver_of_readAny hany, ((readMembers_undeclared_iff hundeclared).mp hbase).2⟩
  simp only [List.reverse_nil, List.nil_append, List.filter_append, List.filter_cons, hother,
    if_true] at hdeclaration
  have hdeclaration' := readMembers_sound declarationRows_fit declarationKeys_nodup
    commuting_declaration hrow hsite hdeclaration (Route.down_ahead _) hold hnew.ahead
  refine readNodeMembers_eq_ok_iff.mpr ⟨?_, base, _, hbase', ?_, rfl⟩
  · rw [List.forall_mem_append, List.forall_mem_cons]
    exact ⟨haside.1, fun _ => hany, haside.2.2⟩
  · simpa [hother] using hdeclaration'

end Objects

/-! ## Edits below a node -/

section Below

variable {members : List (Content × Tree)} {stop : ObjectStop} {index : Nat} {child : Tree}
  {path : List Nat}

/-- An edit in the value of a member is sound if the members are read as the site says. -/
theorem soundAt_member
    {content : Content}
    {site : Site Node}
    (there : members[index]? = some (content, child))
    (h : ∀ front back route inner node old new,
      readNodeMembers route stop (front ++ (content, child) :: back) {} = .ok node →
        route.down path.length = .ok inner → child.valueAt? path = some old →
          site.Admits inner old new →
            readNodeMembers route stop (front ++ (content, child.replaceAt path new) :: back) {} =
              .ok (site.put new node)) :
    SoundAt readNode (.object members stop) (index :: path) site := by
  obtain ⟨front, back, rfl, rfl⟩ := exists_split there
  intro route inner node old new hread hdown hold hnew
  rw [Tree.valueAt?_object] at hold
  rw [Tree.replaceAt_object]
  obtain ⟨inside, henter, hread⟩ := bind_eq_ok_iff.mp hread
  have hdown := Route.down_of_enter hdown henter
  rw [readNode_object henter]
  exact h front back inside inner node old new hread hdown hold hnew

theorem soundAt_declaration
    {row : Row Declaration}
    {site : Site Declaration}
    (hrow : row ∈ declarationRows)
    (there : members[index]? = some (.ok row.key, child))
    (hsite : row.sites child path site) :
    SoundAt readNode (.object members stop) (index :: path)
      (site.lift Node.declarationLens.modify) := by
  refine soundAt_member there fun front back route inner node old new hread hdown hold hnew => ?_
  rw [Site.put_lift (Lens.modify_id _ node)]
  exact readNodeMembers_declaration hrow hsite hread hdown hold hnew.of_lift

/-- A part of a node that has nothing to do with the declaration. -/
def ApartFromDeclaration {α : Type} (lens : Lens Node α) : Prop :=
  ∀ update node declaration,
    lens.modify update { node with declaration := declaration } =
      { lens.modify update node with declaration := declaration }

/-- What stands under one of the node's own keys is read by a reader and set as a part that has
nothing to do with the declaration. -/
structure ReadsUnder {α : Type} (name : String) (reader : Reader α) (lens : Lens Node (Option α)) :
    Prop where
  known : ∃ key, Listing.get? name NodeKey.bySpelling = some key ∧
    ∀ route tree, tree.isNull = false →
      readSetter route tree key = (reader route tree).map fun value => lens.set (some value)
  apart : ApartFromDeclaration lens

/-- Edits in what stands under one of the node's own keys. -/
theorem ReadsUnder.soundAt
    {α : Type}
    {name : String}
    {reader : Reader α}
    {lens : Lens Node (Option α)}
    {site : Site α}
    (h : ReadsUnder name reader lens)
    (there : members[index]? = some (.ok name, child))
    (hroot : path = [] → ∃ declared optional, site = .object declared optional)
    (hsite : SoundAt reader child path site) :
    SoundAt readNode (.object members stop) (index :: path) (site.under lens) := by
  obtain ⟨key, hname, hset⟩ := h.known
  refine soundAt_member there fun front back route inner node old new hread hdown hold hnew => ?_
  refine readNodeMembers_own hname (RecordField.soundAt_under lens hset hroot hsite) ?_ hread hdown
    hold hnew
  intro node declaration
  rw [Site.under, Site.put_lift (lens.modify_id _), Site.put_lift (lens.modify_id _)]
  exact h.apart _ node declaration

/-- Reads ahead, and looks at what was read; any mismatch is one of the whole. -/
def readBehind {α : Type} (type : String) (look : Tree → Except ReadError α) : Reader α :=
  fun route tree => do
    readAny route tree
    asAlternative type (look tree)

section Keys

variable {α : Type} {name : String} {key : NodeKey} {lens : Lens Node (Option α)}

/-- A key whose value is optional. -/
theorem ReadsUnder.of_option
    {reader : Reader α}
    (hname : Listing.get? name NodeKey.bySpelling = some key)
    (hset : ∀ route tree, readSetter route tree key = (readOption reader route tree).map lens.set)
    (hapart : ApartFromDeclaration lens) :
    ReadsUnder name reader lens := by
  refine ⟨⟨key, hname, fun route tree hnull => ?_⟩, hapart⟩
  rw [hset, readOption, hnull]
  cases reader route tree <;> rfl

/-- A key whose value is read ahead, unless it is `null`. -/
theorem ReadsUnder.of_behind
    {type : String}
    {look : Tree → Except ReadError α}
    (hname : Listing.get? name NodeKey.bySpelling = some key)
    (hset : ∀ route tree, readSetter route tree key =
      if tree.isNull then .ok id
      else do
        readAny route tree
        let value ← asAlternative type (look tree)
        return lens.set (some value))
    (hapart : ApartFromDeclaration lens) :
    ReadsUnder name (readBehind type look) lens := by
  refine ⟨⟨key, hname, fun route tree hnull => ?_⟩, hapart⟩
  rw [hset, hnull, readBehind]
  cases readAny route tree with
  | error fault => rfl
  | ok value => cases asAlternative type (look tree) <;> rfl

end Keys

theorem readsUnder_element :
    ReadsUnder "role" elementRecord.read Node.elementLens :=
  .of_option rfl (fun _ _ => rfl) fun _ _ _ => rfl

theorem readsUnder_change :
    ReadsUnder "compMod" changeRecord.read Node.changeLens :=
  .of_option rfl (fun _ _ => rfl) fun _ _ _ => rfl

theorem readsUnder_properties :
    ReadsUnder "properties" (readBehind "Repr" readNamed) Node.propertiesLens :=
  .of_behind rfl (fun _ _ => rfl) fun _ _ _ => rfl

theorem readsUnder_items :
    ReadsUnder "items" (readBehind "Items" readListed) Node.itemsLens :=
  .of_behind rfl (fun _ _ => rfl) fun _ _ _ => rfl

theorem readsUnder_part
    (part : Part) :
    ReadsUnder (Branch.part part).key readNode (Node.partLens part) where
  known := by
    refine ⟨.branch (.part part), by cases part <;> rfl, fun route tree hnull => ?_⟩
    rw [readSetter, hnull]
    rfl
  apart := fun _ _ _ => by cases part <;> rfl

/-- Edits in what was read ahead. -/
theorem soundAt_behind
    {α : Type}
    {type : String}
    {look : Tree → Except ReadError α}
    {tree : Tree}
    {site : Site α}
    (h : ∀ value old new, look tree = .ok value → tree.valueAt? path = some old →
      site.Admits .ahead old new → look (tree.replaceAt path new) = .ok (site.put new value)) :
    SoundAt (readBehind type look) tree path site := by
  intro route inner value old new hread hdown hold hnew
  obtain ⟨⟨⟩, hany, hread⟩ := bind_eq_ok_iff.mp hread
  have hlook := h value old new (asAlternative_eq_ok_iff.mp hread) hold hnew.ahead
  have hany' := readAny_replaceAt hany hdown hold hnew
  exact bind_eq_ok_iff.mpr ⟨(), hany', asAlternative_eq_ok_iff.mpr hlook⟩

theorem readNodes_eq_readItems
    (items : List Tree) :
    readNodes items = readItems readNode .ahead items := by
  induction items with
  | nil => rfl
  | cons item more ih => rw [readNodes, readItems, ih]

/-- Edits in a member, where the members are given as an object. -/
theorem soundAt_named
    {entries : List (Content × Tree)}
    {inside : ObjectStop}
    {position : Nat}
    {name : Content}
    {site : Site Node}
    (below : entries[position]? = some (name, child))
    (hsite : SoundAt readNode child path site) :
    SoundAt (readBehind "Repr" readNamed) (.object entries inside) (position :: path)
      (site.lift (Listing.changeAt (memberKeys entries) position)) := by
  refine soundAt_behind fun members old new hread hold hnew => ?_
  rw [readNamed, readNamedNodes_eq_readEntries] at hread
  obtain ⟨named, hnamed, rfl⟩ := map_eq_ok_iff.mp hread
  rw [Tree.valueAt?_member below] at hold
  obtain ⟨named', hnamed', hmembers⟩ :=
    sound_entries below hsite hnamed (Route.down_ahead _) hold hnew.of_lift
  rw [Tree.replaceAt_member below, readNamed, readNamedNodes_eq_readEntries, hnamed', ← hmembers]
  rfl

/-- The nodes of a list of which one is edited. -/
theorem readNodes_replace
    {items : List Tree}
    {nodes : List Node}
    {position : Nat}
    {old new : Tree}
    {site : Site Node}
    (below : items[position]? = some child)
    (hsite : SoundAt readNode child path site)
    (hread : readNodes items = .ok nodes)
    (hold : child.valueAt? path = some old)
    (hnew : site.Admits .ahead old new) :
    ∃ before node after, nodes = before ++ node :: after ∧ before.length = position ∧
      readNodes (items.set position (child.replaceAt path new)) =
        .ok (before ++ site.put new node :: after) := by
  obtain ⟨front, back, rfl, rfl⟩ := exists_split below
  rw [readNodes_eq_readItems] at hread
  obtain ⟨before, node, after, rfl, hlength, hnode, hreplace⟩ := readItems_replace hread
  have hnode' := hsite .ahead .ahead node old new hnode (Route.down_ahead _) hold hnew
  rw [set_split, readNodes_eq_readItems]
  exact ⟨before, node, after, rfl, hlength, hreplace _ _ hnode'⟩

/-- Edits in one of several items. -/
theorem soundAt_listed
    {items : List Tree}
    {inside : ListStop}
    {position : Nat}
    {site : Site Node}
    (below : items[position]? = some child)
    (hsite : SoundAt readNode child path site) :
    SoundAt (readBehind "Items" readListed) (.list items inside) (position :: path)
      (site.lift (Items.changeAt position)) := by
  refine soundAt_behind fun found old new hread hold hnew => ?_
  rw [readListed] at hread
  obtain ⟨nodes, hnodes, rfl⟩ := map_eq_ok_iff.mp hread
  rw [Tree.valueAt?_item below] at hold
  obtain ⟨before, node, after, rfl, rfl, hnodes'⟩ :=
    readNodes_replace below hsite hnodes hold hnew.of_lift
  have hid : Items.changeAt before.length id (.many (before ++ node :: after)) =
      .many (before ++ node :: after) := by
    simp [Items.changeAt]
  rw [Tree.replaceAt_item below, readListed, hnodes', Site.put_lift hid, Items.changeAt,
    modify_split]
  rfl

theorem readListed_object
    (members : List (Content × Tree))
    (stop : ObjectStop) :
    readListed (.object members stop) = (readNode .ahead (.object members stop)).map .one := by
  have henter : Route.ahead.enter = .ok .ahead := rfl
  rw [readListed, readNode_object henter]

/-- Edits in the only item. -/
theorem soundAt_single
    {site : Site Node}
    (hchild : ∃ members stop, child = .object members stop)
    (hsite : SoundAt readNode child path site) :
    SoundAt (readBehind "Items" readListed) child path (site.lift Items.changeOne) := by
  refine soundAt_behind fun found old new hread hold hnew => ?_
  obtain ⟨members, stop, rfl⟩ := hchild
  rw [readListed_object] at hread
  obtain ⟨node, hnode, rfl⟩ := map_eq_ok_iff.mp hread
  have hnode' := hsite .ahead .ahead node old new hnode (Route.down_ahead _) hold hnew.of_lift
  have hid : Items.changeOne id (.one node) = .one node := rfl
  rw [Site.put_lift hid]
  -- What is read as a node is an object.
  cases hedited : (Tree.object members stop).replaceAt path new with
  | object members' stop' =>
      rw [readListed_object, ← hedited, hnode']
      rfl
  | _ => simp [hedited, readNode] at hnode'

/-- The names of the nodes in a list stay when one of them is edited and keeps its own. -/
theorem keyed_split
    (before after : List Node)
    (node : Node) :
    ∃ front name back, front.length = before.length ∧
      ∀ node', node'.elementName? = node.elementName? →
        keyed (before ++ node' :: after) = front ++ (name, node') :: back := by
  refine ⟨keyed before, node.elementName?.getD (toString before.length),
    (after.zipIdx (before.length + 1)).map fun entry =>
      (entry.1.elementName?.getD (toString entry.2), entry.1),
    by simp [keyed], fun node' hname => ?_⟩
  simp [keyed, List.zipIdx_append, List.zipIdx_cons, hname]

/-- Edits in a member, where the members are given as a list and the name stays. -/
theorem soundAt_positioned
    {items : List Tree}
    {inside : ListStop}
    {position : Nat}
    {nodes : List Node}
    {site : Site Node}
    (below : items[position]? = some child)
    (hnodes : readNodes items = .ok nodes)
    (hname : ∀ new node, (site.put new node).elementName? = node.elementName?)
    (hsite : SoundAt readNode child path site) :
    SoundAt (readBehind "Repr" readNamed) (.list items inside) (position :: path)
      (site.lift (Listing.changeAt (Listing.names (keyed nodes)) position)) := by
  refine soundAt_behind fun found old new hread hold hnew => ?_
  rw [readNamed, hnodes] at hread
  obtain rfl : Listing.ofEntries (keyed nodes) = found := Except.ok.inj hread
  rw [Tree.valueAt?_item below] at hold
  obtain ⟨before, node, after, rfl, rfl, hnodes'⟩ :=
    readNodes_replace below hsite hnodes hold hnew.of_lift
  obtain ⟨front, name, back, hlength, hkeyed⟩ := keyed_split before after node
  rw [Tree.replaceAt_item below, readNamed, hnodes', Site.put_lift (Listing.changeAt_id _ _ _),
    hkeyed node rfl, ← hlength, ← Listing.ofEntries_change, ← hkeyed _ (hname new node)]
  rfl

end Below

/-! ## All edits -/

/-- An edit in an element does not touch its name. -/
theorem name_put
    {tree : Tree}
    {path : List Nat}
    {site : Site Element}
    (h : elementSites tree path site)
    (new : Tree)
    (element : Element) :
    (site.put new element).name = element.name := by
  have hrow {row : Row Element} (hrow : row ∈ elementRows) {child : Tree} {path : List Nat}
      {site : Site Element} (hsite : row.sites child path site) :
      (site.put new element).name = element.name := by
    simp only [elementRows, List.mem_cons, List.not_mem_nil, or_false] at hrow
    rcases hrow with rfl | rfl | rfl | rfl | rfl | rfl | rfl | rfl
    all_goals first
      | exact hsite.elim
      | obtain ⟨hsite⟩ := hsite
        rw [Site.put_lift (Lens.modify_id _ element)]
        rfl
  cases h with
  | here => rfl
  | member declared there hsite => exact hrow declared hsite
  | element declared there hsite => exact hrow (List.mem_of_getElem? declared) hsite

/-- An edit in a node does not touch the name of its element. -/
theorem NodeSites.elementName?_put
    {tree : Tree}
    {path : List Nat}
    {site : Site Node}
    (h : NodeSites tree path site)
    (new : Tree)
    (node : Node) :
    (site.put new node).elementName? = node.elementName? := by
  cases h with
  | here => rfl
  | declaration =>
      rw [Site.put_lift (Lens.modify_id _ node)]
      rfl
  | element there hsite =>
      rw [Site.under, Site.put_lift (Lens.modify_id _ node), Node.elementName?, Node.elementName?,
        Lens.modify, Site.put_lift Option.map_id_apply]
      cases hnode : node.element with
      | none => simp [Node.elementLens, hnode]
      | some element => simp [Node.elementLens, hnode, name_put hsite]
  | @part _ _ _ part =>
      rw [Site.under, Site.put_lift (Lens.modify_id _ node)]
      exact congrArg (Option.bind · Element.name) (Node.element_setPart part _ node)
  | _ =>
      rw [Site.under, Site.put_lift (Lens.modify_id _ node)]
      rfl

theorem NodeSites.isObject
    {tree : Tree}
    {path : List Nat}
    {site : Site Node}
    (h : NodeSites tree path site) :
    ∃ members stop, tree = .object members stop := by
  cases h <;> exact ⟨_, _, rfl⟩

/-- Edits in all places of a node are sound. -/
theorem sound_node : Sound readNode NodeSites := by
  intro tree path site h
  induction h with
  | here members stop =>
      intro route inner node old new hread hdown hold hnew
      obtain rfl := Except.ok.inj hdown
      obtain rfl := Option.some.inj hold
      rw [Tree.replaceAt_nil]
      obtain ⟨inside, henter, hread⟩ := bind_eq_ok_iff.mp hread
      generalize htree : Tree.object members stop = tree at hnew
      cases hnew with
      | object enter readable harmless =>
          cases htree
          obtain rfl := Except.ok.inj (henter.symm.trans enter)
          rw [readNode_object henter]
          exact readNodeMembers_harmless hread readable (by tauto)
  | declaration declared there hsite => exact soundAt_declaration declared there hsite
  | element there hsite =>
      exact readsUnder_element.soundAt there (fun hpath => RecordSites.root _ _ (hpath ▸ hsite))
        (sound_element _ _ _ hsite)
  | change there hsite =>
      exact readsUnder_change.soundAt there (fun hpath => RecordSites.root _ _ (hpath ▸ hsite))
        (sound_change _ _ _ hsite)
  | @part _ _ _ part _ _ _ there hsite ih =>
      exact (readsUnder_part part).soundAt there (fun hpath => (hpath ▸ hsite).root) ih
  | named there below hsite ih =>
      exact readsUnder_properties.soundAt there nofun (soundAt_named below ih)
  | positioned there below read hsite ih =>
      exact readsUnder_properties.soundAt there nofun
        (soundAt_positioned below read hsite.elementName?_put ih)
  | listed there below hsite ih =>
      exact readsUnder_items.soundAt there nofun (soundAt_listed below ih)
  | single there hsite ih =>
      refine readsUnder_items.soundAt there (fun hpath => ?_) (soundAt_single hsite.isObject ih)
      obtain ⟨declared, optional, rfl⟩ := (hpath ▸ hsite).root
      exact ⟨declared, optional, rfl⟩

end Delta
end CqlDelta
