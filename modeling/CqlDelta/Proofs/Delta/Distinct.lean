import CqlDelta.Proofs.Delta.Tours

/-!
# Distinct names

The members of a node have distinct names, and so have the keyspaces of a placement. This holds of
everything in a comparison that was read, and it is kept along every path that is followed.
-/

namespace CqlDelta
namespace Delta

/-- The keyspaces of a change's placement are distinct. -/
def Change.Distinct (change : Change) : Prop :=
  ∀ placement, change.placement = some placement → (Listing.names placement).Nodup

/-- The keyspaces of an element's placement are distinct. -/
def Element.Distinct (element : Element) : Prop :=
  ∀ change, element.change = some change → change.Distinct

/-- The names of a node's members are distinct, and so are those of everything in the node. -/
inductive Node.Distinct : Node → Prop
  | intro {node : Node}
      (names : ∀ members, node.properties = some members → (Listing.names members).Nodup)
      (members : ∀ members, node.properties = some members → ∀ entry ∈ members, entry.2.Distinct)
      (items : ∀ items, node.items = some items → ∀ inner ∈ items.toList, inner.Distinct)
      (parts : ∀ part inner, node.part? part = some inner → inner.Distinct)
      (element : ∀ element, node.element = some element → element.Distinct)
      (change : ∀ change, node.change = some change → change.Distinct) :
      node.Distinct

/-- A node that only says something about an element is distinct if what it says is. -/
theorem Node.distinct_leaf
    {element : Option Element}
    {change : Option Change}
    {declaration : Declaration}
    (helement : ∀ inner, element = some inner → inner.Distinct)
    (hchange : ∀ inner, change = some inner → inner.Distinct) :
    Node.Distinct { element := element, change := change, declaration := declaration } := by
  refine .intro (by simp) (by simp) (by simp) ?_ helement hchange
  intro part inner hinner
  cases part <;> simp [Node.part?] at hinner

/-- A node whose change comes with members only is distinct if both are. -/
theorem Node.distinct_withMembers
    {members : Members}
    {change : Option Change}
    (hnames : (Listing.names members).Nodup)
    (hmembers : ∀ entry ∈ members, entry.2.Distinct)
    (hchange : ∀ inner, change = some inner → inner.Distinct) :
    Node.Distinct { properties := some members, change := change } := by
  refine .intro (by simpa using hnames) (by simpa using hmembers) (by simp) ?_ (by simp) hchange
  intro part inner hinner
  cases part <;> simp [Node.part?] at hinner

theorem Node.Distinct.setPart
    {node inner : Node}
    (h : node.Distinct)
    (hinner : inner.Distinct)
    (part : Part) :
    (node.setPart part (some inner)).Distinct := by
  obtain ⟨hnames, hmembers, hitems, hparts, helement, hchange⟩ := h
  refine .intro ?_ ?_ ?_ ?_ ?_ ?_
  · rwa [Node.properties_setPart]
  · rwa [Node.properties_setPart]
  · rwa [Node.items_setPart]
  · intro other found hfound
    rw [Node.part?_setPart] at hfound
    split at hfound
    · obtain rfl := Option.some.inj hfound
      exact hinner
    · exact hparts other found hfound
  · rwa [Node.element_setPart]
  · rwa [Node.change_setPart]

/-- A node is defined in distinct keyspaces. -/
theorem Node.Distinct.placement
    {node : Node}
    (h : node.Distinct)
    {placement : Placement}
    (hplacement : node.placement? = some placement) :
    placement.names.Nodup := by
  obtain ⟨-, -, -, -, helement, hchange⟩ := h
  obtain ⟨change, hmem, hplace⟩ := List.exists_of_findSome?_eq_some hplacement
  rw [List.mem_append, Option.mem_toList, Option.mem_toList] at hmem
  rcases hmem with hinner | hown
  · obtain ⟨element, hfound, hinner⟩ := Option.bind_eq_some_iff.mp hinner
    exact helement element hfound change hinner placement hplace
  · exact hchange change hown placement hplace

namespace View

/-- Everything that a view holds is distinct. -/
def Distinct : View → Prop
  | .single node => node.Distinct
  | .named members => ∀ entry ∈ members, entry.2.Distinct
  | .listed items => ∀ inner ∈ items.toList, inner.Distinct

theorem Distinct.ofNode?
    {node : Node}
    (h : node.Distinct)
    {branch : Branch}
    {inner : View}
    (hinner : View.ofNode? node branch = some inner) :
    inner.Distinct := by
  obtain ⟨-, hmembers, hitems, hparts, -, -⟩ := h
  cases branch with
  | properties =>
      obtain ⟨members, hfound, rfl⟩ := Option.map_eq_some_iff.mp hinner
      exact hmembers members hfound
  | items =>
      obtain ⟨items, hfound, rfl⟩ := Option.map_eq_some_iff.mp hinner
      exact hitems items hfound
  | part part =>
      obtain ⟨node, hfound, rfl⟩ := Option.map_eq_some_iff.mp hinner
      exact hparts part node hfound

theorem Distinct.branch?
    {view inner : View}
    (h : view.Distinct)
    {branch : Branch}
    (hinner : view.branch? branch = some inner) :
    inner.Distinct := by
  cases view with
  | single node => exact Distinct.ofNode? h hinner
  | named members =>
      obtain ⟨node, hfound, rfl⟩ := Option.map_eq_some_iff.mp hinner
      exact h (branch.key, node) (Listing.mem_of_get? hfound)
  | listed items =>
      cases items with
      | many nodes => simp [View.branch?] at hinner
      | one node => exact Distinct.ofNode? (h node (by simp [Items.toList])) hinner

/-- Whatever is found along a path in a distinct view is distinct. -/
theorem Distinct.follow?
    {view inner : View}
    (h : view.Distinct)
    {path : List Branch}
    (hinner : view.follow? path = some inner) :
    inner.Distinct := by
  induction path generalizing view with
  | nil =>
      obtain rfl := Option.some.inj hinner
      exact h
  | cons branch path ih =>
      obtain ⟨next, hnext, hinner⟩ := Option.bind_eq_some_iff.mp hinner
      exact ih (h.branch? hnext) hinner

theorem Distinct.entries
    {view : View}
    (h : view.Distinct)
    {entry : String × Node}
    (hentry : entry ∈ view.entries) :
    entry.2.Distinct := by
  obtain ⟨members, hmembers, hentry⟩ := List.mem_flatten.mp hentry
  obtain ⟨node, hnode, hfound⟩ := List.mem_filterMap.mp hmembers
  have hdistinct : node.Distinct := by
    cases view with
    | single other =>
        obtain rfl := List.mem_singleton.mp hnode
        exact h
    | named members => simp [nodes] at hnode
    | listed items => exact h node hnode
  obtain ⟨-, hdistinct, -, -, -, -⟩ := hdistinct
  exact hdistinct members hfound entry hentry

end View
end Delta
end CqlDelta
