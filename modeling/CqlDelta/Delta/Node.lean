import CqlDelta.Delta.Attributes

/-!
# The comparison tree

A node of a comparison stands for a schema element and for what is nested in it: the declared
members, the changed items, and six parts that each hold a single node. A `View` is what is found
along a branch of a node: a node, the members, or the items. Members are walked like a node whose
branches are the members of that name.
-/

namespace CqlDelta
namespace Delta

/-- The parts of a node that hold a single node. -/
inductive Part where
  | containers
  | entities
  | definitions
  | modified
  | deleted
  | added
deriving DecidableEq, Repr

/-- A way down from a view. -/
inductive Branch where
  | properties
  | items
  | part (part : Part)
deriving DecidableEq, Repr

namespace Branch

/-- All branches, in the order in which they are visited. -/
def all : List Branch :=
  [ .properties, .items, .part .containers, .part .entities, .part .definitions,
    .part .modified, .part .deleted, .part .added ]

/-- The key under which a branch is found in a document. -/
def key : Branch → String
  | .properties => "properties"
  | .items => "items"
  | .part .containers => "containers"
  | .part .entities => "entities"
  | .part .definitions => "modelDefinitions"
  | .part .modified => "modified"
  | .part .deleted => "deleted"
  | .part .added => "added"

/-- The branches by their keys. -/
def byKey : Listing Branch :=
  all.map fun branch => (branch.key, branch)

/-- Every branch is visited. -/
theorem mem_all (branch : Branch) : branch ∈ all := by
  cases branch with
  | properties => decide
  | items => decide
  | part part => cases part <;> decide

end Branch

/-- Changed items: a single one, or a list. -/
inductive Items (α : Type) where
  | many (items : List α)
  | one (item : α)

/-- The items, in order. -/
def Items.toList {α : Type} : Items α → List α
  | .many items => items
  | .one item => [item]

/-- A node of the comparison tree. -/
structure Node where
  properties : Option (List (String × Node)) := none
  items : Option (Items Node) := none
  containers : Option Node := none
  entities : Option Node := none
  definitions : Option Node := none
  modified : Option Node := none
  deleted : Option Node := none
  added : Option Node := none
  element : Option Element := none
  change : Option Change := none
  declaration : Declaration := {}

/-- The members of a node, in document order. -/
abbrev Members := Listing Node

namespace Node

/-- The node in a part. -/
def part? (node : Node) : Part → Option Node
  | .containers => node.containers
  | .entities => node.entities
  | .definitions => node.definitions
  | .modified => node.modified
  | .deleted => node.deleted
  | .added => node.added

/-- Sets the node in a part. -/
def setPart (part : Part) (inner : Option Node) (node : Node) : Node :=
  match part with
  | .containers => { node with containers := inner }
  | .entities => { node with entities := inner }
  | .definitions => { node with definitions := inner }
  | .modified => { node with modified := inner }
  | .deleted => { node with deleted := inner }
  | .added => { node with added := inner }

theorem part?_setPart
    (part other : Part)
    (inner : Option Node)
    (node : Node) :
    (node.setPart part inner).part? other = if part = other then inner else node.part? other := by
  cases part <;> cases other <;> rfl

@[simp]
theorem properties_setPart
    (part : Part)
    (inner : Option Node)
    (node : Node) :
    (node.setPart part inner).properties = node.properties := by
  cases part <;> rfl

@[simp]
theorem items_setPart
    (part : Part)
    (inner : Option Node)
    (node : Node) :
    (node.setPart part inner).items = node.items := by
  cases part <;> rfl

@[simp]
theorem element_setPart
    (part : Part)
    (inner : Option Node)
    (node : Node) :
    (node.setPart part inner).element = node.element := by
  cases part <;> rfl

@[simp]
theorem change_setPart
    (part : Part)
    (inner : Option Node)
    (node : Node) :
    (node.setPart part inner).change = node.change := by
  cases part <;> rfl

/-- The change of the node's element. -/
def elementChange? (node : Node) : Option Change :=
  node.element.bind Element.change

/-- The name of the node's element. -/
def elementName? (node : Node) : Option String :=
  node.element.bind Element.name

/-- The changes of the node and of its element, in this order. -/
def changes (node : Node) : List Change :=
  node.change.toList ++ node.elementChange?.toList

/-- Where a type is defined. What the element says goes first. -/
def placement? (node : Node) : Option Placement :=
  (node.elementChange?.toList ++ node.change.toList).findSome? Change.placement

end Node

/-! ## Height -/

mutual

/-- The number of branches that can be followed one after another. -/
def Node.height : Node → Nat
  | ⟨properties, items, containers, entities, definitions, modified, deleted, added, _, _, _⟩ =>
      max (membersHeight properties) <| max (itemsHeight items) <|
        max (innerHeight containers) <| max (innerHeight entities) <|
        max (innerHeight definitions) <| max (innerHeight modified) <|
        max (innerHeight deleted) (innerHeight added)

/-- The height of the members below a node. -/
def membersHeight : Option (List (String × Node)) → Nat
  | none => 0
  | some members => memberHeight members + 1

/-- The height of the members. -/
def memberHeight : List (String × Node) → Nat
  | [] => 0
  | (_, node) :: rest => max (node.height + 1) (memberHeight rest)

/-- The height of the items below a node. -/
def itemsHeight : Option (Items Node) → Nat
  | none => 0
  | some (.one node) => node.height + 1
  | some (.many _) => 1

/-- The height of a part below a node. -/
def innerHeight : Option Node → Nat
  | none => 0
  | some node => node.height + 1

end

/-! ## Views -/

/-- What is found along a branch. -/
inductive View where
  | single (node : Node)
  | named (members : Members)
  | listed (items : Items Node)

namespace View

/-- The view of a branch of a node. -/
def ofNode? (node : Node) : Branch → Option View
  | .properties => node.properties.map .named
  | .items => node.items.map .listed
  | .part part => (node.part? part).map .single

/-- The view along a branch. A list of items has no branches. -/
def branch? : View → Branch → Option View
  | .single node, branch => ofNode? node branch
  | .named members, branch => (Listing.get? branch.key members).map .single
  | .listed (.one node), branch => ofNode? node branch
  | .listed (.many _), _ => none

/-- The nodes that a view holds directly. -/
def nodes : View → List Node
  | .single node => [node]
  | .listed items => items.toList
  | .named _ => []

/-- The members of the nodes that a view holds, one listing for each node that has any. -/
def memberMaps (view : View) : List Members :=
  view.nodes.filterMap Node.properties

/-- The members of all nodes that a view holds, one after another. -/
def entries (view : View) : List (String × Node) :=
  view.memberMaps.flatten

/-- The number of branches that can be followed one after another. -/
def height : View → Nat
  | .single node => node.height
  | .named members => memberHeight members
  | .listed (.one node) => node.height
  | .listed (.many _) => 0

theorem memberHeight_of_get?
    {members : Members}
    {name : String}
    {node : Node}
    (h : Listing.get? name members = some node) :
    node.height < memberHeight members := by
  induction members with
  | nil => simp [Listing.get?] at h
  | cons head rest ih =>
      obtain ⟨key, first⟩ := head
      rw [Listing.get?] at h
      rw [memberHeight]
      split at h
      · obtain rfl := Option.some.inj h
        omega
      · have := ih h
        omega

theorem height_of_ofNode?
    {node : Node}
    {branch : Branch}
    {view : View}
    (h : ofNode? node branch = some view) :
    view.height < node.height := by
  obtain ⟨properties, items, containers, entities, definitions, modified, deleted, added,
    element, change, declaration⟩ := node
  rw [Node.height]
  cases branch with
  | properties =>
      cases properties with
      | none => simp [ofNode?] at h
      | some members =>
          obtain rfl : View.named members = view := by simpa [ofNode?] using h
          simp only [height, membersHeight]
          omega
  | items =>
      cases items with
      | none => simp [ofNode?] at h
      | some items =>
          obtain rfl : View.listed items = view := by simpa [ofNode?] using h
          cases items <;> simp only [height, itemsHeight] <;> omega
  | part part =>
      cases part <;>
        simp only [ofNode?, Node.part?, Option.map_eq_some_iff] at h <;>
        obtain ⟨inner, rfl, rfl⟩ := h <;>
        simp only [height, innerHeight] <;>
        omega

/-- Following a branch leads to a smaller view. -/
theorem height_of_branch?
    {view inner : View}
    {branch : Branch}
    (h : view.branch? branch = some inner) :
    inner.height < view.height := by
  cases view with
  | single node => exact height_of_ofNode? h
  | named members =>
      simp only [branch?, Option.map_eq_some_iff] at h
      obtain ⟨node, hnode, rfl⟩ := h
      exact memberHeight_of_get? hnode
  | listed items =>
      cases items with
      | many nodes => simp [branch?] at h
      | one node => exact @height_of_ofNode? node _ _ h

/-! ## Walking -/

variable {α : Type}

/-- Walks so many branches down. -/
def walkDown (visit : View → (Branch → Option α) → α) : Nat → View → α
  | 0, view => visit view fun _ => none
  | steps + 1, view => visit view fun branch => (view.branch? branch).map (walkDown visit steps)

/-- Computes a value for a view out of the values for what is along its branches. -/
def walk (visit : View → (Branch → Option α) → α) (view : View) : α :=
  walkDown visit view.height view

theorem walkDown_eq_walk
    (visit : View → (Branch → Option α) → α)
    {steps : Nat}
    {view : View}
    (h : view.height ≤ steps) :
    walkDown visit steps view = walk visit view := by
  have general (a b : Nat) (view : View) (ha : view.height ≤ a) (hb : view.height ≤ b) :
      walkDown visit a view = walkDown visit b view := by
    induction a generalizing b view with
    | zero =>
        cases b with
        | zero => rfl
        | succ b =>
            simp only [walkDown]
            congr
            funext branch
            cases hbranch : view.branch? branch with
            | none => rfl
            | some inner =>
                have := height_of_branch? hbranch
                omega
    | succ a ih =>
        cases b with
        | zero =>
            simp only [walkDown]
            congr
            funext branch
            cases hbranch : view.branch? branch with
            | none => rfl
            | some inner =>
                have := height_of_branch? hbranch
                omega
        | succ b =>
            simp only [walkDown]
            congr
            funext branch
            cases hbranch : view.branch? branch with
            | none => rfl
            | some inner =>
                have := height_of_branch? hbranch
                simp only [Option.map_some]
                exact congrArg some (ih b inner (by omega) (by omega))
  exact general steps view.height view h (Nat.le_refl _)

/-- A walk visits the view with the walks along its branches. -/
theorem walk_eq (visit : View → (Branch → Option α) → α) (view : View) :
    walk visit view = visit view fun branch => (view.branch? branch).map (walk visit) := by
  cases hheight : view.height with
  | zero =>
      rw [walk, hheight, walkDown]
      congr
      funext branch
      cases hbranch : view.branch? branch with
      | none => rfl
      | some inner =>
          have := height_of_branch? hbranch
          omega
  | succ steps =>
      rw [walk, hheight, walkDown]
      congr
      funext branch
      cases hbranch : view.branch? branch with
      | none => rfl
      | some inner =>
          have := height_of_branch? hbranch
          simp only [Option.map_some]
          exact congrArg some (walkDown_eq_walk visit (by omega))

/-- What holds of a view whenever it holds along all its branches holds of every view. -/
theorem branch_induction
    {P : View → Prop}
    (step : ∀ view : View,
      (∀ branch inner, view.branch? branch = some inner → P inner) → P view)
    (view : View) :
    P view := by
  have general (bound : Nat) (view : View) (h : view.height ≤ bound) : P view := by
    induction bound generalizing view with
    | zero =>
        refine step view fun branch inner hinner => ?_
        have := height_of_branch? hinner
        omega
    | succ bound ih =>
        refine step view fun branch inner hinner => ih inner ?_
        have := height_of_branch? hinner
        omega
  exact general view.height view (Nat.le_refl _)

end View
end Delta
end CqlDelta
