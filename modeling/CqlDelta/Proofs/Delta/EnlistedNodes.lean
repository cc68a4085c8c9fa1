import CqlDelta.Proofs.Delta.Tours
import Mathlib.Data.List.Forall2
import Mathlib.Logic.Relation

/-!
# Enlisting an item

Items may be a single node or a list, but a list has no branches. If a single node among the items,
anywhere in a tree, is made the list of this node (`Node.Enlisted`), then a path leads to the same as
before up to such items, unless it goes on behind an enlisted item: there, nothing is found any more
(`ViewAlike.follow?`). The items hold the same entries all the same (`ViewAlike.entries`).
-/

namespace CqlDelta
namespace Delta

/-- The second node is the first one in which, somewhere in the tree, items that are a single node
are made the list of this node. -/
inductive Node.Enlisted : Node → Node → Prop
  | here (node inner : Node) :
      Enlisted { node with items := some (.one inner) } { node with items := some (.many [inner]) }
  | member (node : Node) (front back : List (String × Node)) (name : String) {inner inner' : Node}
      (h : Enlisted inner inner') :
      Enlisted { node with properties := some (front ++ (name, inner) :: back) }
        { node with properties := some (front ++ (name, inner') :: back) }
  | one (node : Node) {inner inner' : Node}
      (h : Enlisted inner inner') :
      Enlisted { node with items := some (.one inner) } { node with items := some (.one inner') }
  | many (node : Node) (front back : List Node) {inner inner' : Node}
      (h : Enlisted inner inner') :
      Enlisted { node with items := some (.many (front ++ inner :: back)) }
        { node with items := some (.many (front ++ inner' :: back)) }
  | part (node : Node) (part : Part) {inner inner' : Node}
      (h : Enlisted inner inner') :
      Enlisted (node.setPart part (some inner)) (node.setPart part (some inner'))

/-- The same node, or the node with an item enlisted. -/
abbrev Node.Alike : Node → Node → Prop :=
  Relation.ReflGen Node.Enlisted

/-- Nodes of one name that are alike. -/
def MemberAlike (first second : String × Node) : Prop :=
  first.1 = second.1 ∧ first.2.Alike second.2

/-- Items that are alike: a single node may have become a list. -/
inductive ItemsAlike : Items Node → Items Node → Prop
  | one {inner inner' : Node} (h : inner.Alike inner') : ItemsAlike (.one inner) (.one inner')
  | many {nodes nodes' : List Node} (h : List.Forall₂ Node.Alike nodes nodes') :
      ItemsAlike (.many nodes) (.many nodes')
  | enlisted (inner : Node) : ItemsAlike (.one inner) (.many [inner])

/-- Views of nodes, members or items that are alike. -/
inductive ViewAlike : View → View → Prop
  | single {node node' : Node} (h : node.Alike node') : ViewAlike (.single node) (.single node')
  | named {members members' : Members} (h : List.Forall₂ MemberAlike members members') :
      ViewAlike (.named members) (.named members')
  | listed {items items' : Items Node} (h : ItemsAlike items items') :
      ViewAlike (.listed items) (.listed items')

/-! ## What is left as it is -/

section Options

variable {α β : Type}

theorem rel_refl
    {R : α → α → Prop}
    (h : ∀ value, R value value)
    (value : Option α) :
    Option.Rel R value value := by
  cases value with
  | none => exact .none
  | some value => exact .some (h value)

theorem rel_map
    {R : α → α → Prop}
    {S : β → β → Prop}
    {f : α → β}
    (hf : ∀ first second, R first second → S (f first) (f second))
    {first second : Option α}
    (h : Option.Rel R first second) :
    Option.Rel S (first.map f) (second.map f) := by
  cases h with
  | none => exact .none
  | some h => exact .some (hf _ _ h)

/-- Related options are both absent, or both present and related. -/
theorem rel_cases
    {R : α → β → Prop}
    {first : Option α}
    {second : Option β}
    (h : Option.Rel R first second) :
    (first = none ∧ second = none) ∨
      ∃ value value', first = some value ∧ second = some value' ∧ R value value' := by
  cases h with
  | none => exact .inl ⟨rfl, rfl⟩
  | some h => exact .inr ⟨_, _, rfl, rfl, h⟩

end Options

theorem MemberAlike.refl (member : String × Node) : MemberAlike member member :=
  ⟨rfl, .refl⟩

theorem membersAlike_refl (members : Members) : List.Forall₂ MemberAlike members members :=
  List.forall₂_same.mpr fun member _ => MemberAlike.refl member

theorem nodesAlike_refl (nodes : List Node) : List.Forall₂ Node.Alike nodes nodes :=
  List.forall₂_same.mpr fun _ _ => .refl

theorem ItemsAlike.refl (items : Items Node) : ItemsAlike items items := by
  cases items with
  | many nodes => exact .many (nodesAlike_refl nodes)
  | one node => exact .one .refl

/-- The fields of nodes that are alike. -/
structure Node.FieldsAlike (before after : Node) : Prop where
  properties : Option.Rel (List.Forall₂ MemberAlike) before.properties after.properties
  items : Option.Rel ItemsAlike before.items after.items
  parts : ∀ part, Option.Rel Node.Alike (before.part? part) (after.part? part)
  element : before.element = after.element
  change : before.change = after.change
  declaration : before.declaration = after.declaration

theorem Node.FieldsAlike.refl (node : Node) : node.FieldsAlike node where
  properties := rel_refl membersAlike_refl node.properties
  items := rel_refl ItemsAlike.refl node.items
  parts := fun part => rel_refl (fun _ => .refl) (node.part? part)
  element := rfl
  change := rfl
  declaration := rfl

/-- Enlisting an item leaves the fields of a node alike. -/
theorem Node.Enlisted.fields
    {before after : Node}
    (h : before.Enlisted after) :
    before.FieldsAlike after := by
  cases h with
  | here node inner =>
      exact { FieldsAlike.refl node with items := .some (.enlisted inner) }
  | member node front back name h =>
      refine { FieldsAlike.refl node with properties := .some ?_ }
      exact List.rel_append (membersAlike_refl front)
        (.cons ⟨rfl, .single h⟩ (membersAlike_refl back))
  | one node h =>
      exact { FieldsAlike.refl node with items := .some (.one (.single h)) }
  | many node front back h =>
      refine { FieldsAlike.refl node with items := .some (.many ?_) }
      exact List.rel_append (nodesAlike_refl front) (.cons (.single h) (nodesAlike_refl back))
  | part node part h =>
      refine ⟨?_, ?_, fun other => ?_, ?_, ?_, ?_⟩
      · simpa using rel_refl membersAlike_refl node.properties
      · simpa using rel_refl ItemsAlike.refl node.items
      · rw [part?_setPart, part?_setPart]
        split
        · exact .some (.single h)
        · exact rel_refl (fun _ => .refl) (node.part? other)
      · simp
      · simp
      · cases part <;> rfl

theorem Node.Alike.fields
    {before after : Node}
    (h : before.Alike after) :
    before.FieldsAlike after := by
  cases h with
  | refl => exact .refl before
  | single h => exact h.fields

/-! ## Following a path -/

theorem get?_alike
    {members members' : Members}
    (h : List.Forall₂ MemberAlike members members')
    (name : String) :
    Option.Rel Node.Alike (Listing.get? name members) (Listing.get? name members') := by
  induction h with
  | nil => exact .none
  | @cons first second _ _ hmember hmore ih =>
      obtain ⟨key, node⟩ := first
      obtain ⟨key', node'⟩ := second
      obtain ⟨rfl, hnode⟩ := hmember
      rw [Listing.get?, Listing.get?]
      split
      · exact .some hnode
      · exact ih

theorem Node.FieldsAlike.ofNode?
    {before after : Node}
    (h : before.FieldsAlike after)
    (branch : Branch) :
    Option.Rel ViewAlike (View.ofNode? before branch) (View.ofNode? after branch) := by
  cases branch with
  | properties => exact rel_map (fun _ _ => .named) h.properties
  | items => exact rel_map (fun _ _ => .listed) h.items
  | part part => exact rel_map (fun _ _ => .single) (h.parts part)

/-- Views that are alike have branches that are alike, unless a single item is enlisted. -/
theorem ViewAlike.branch?
    {before after : View}
    (h : ViewAlike before after)
    (branch : Branch) :
    Option.Rel ViewAlike (before.branch? branch) (after.branch? branch) ∨
      ∃ inner, before = .listed (.one inner) ∧ after = .listed (.many [inner]) := by
  cases h with
  | single h => exact .inl (h.fields.ofNode? branch)
  | named h => exact .inl (rel_map (fun _ _ => .single) (get?_alike h branch.key))
  | listed h =>
      cases h with
      | one h => exact .inl (h.fields.ofNode? branch)
      | many h => exact .inl .none
      | enlisted inner => exact .inr ⟨inner, rfl, rfl⟩

/-- A path goes on behind an item that was a single node and is the list of this node now. -/
def PassesEnlisted (before after : View) (path : List Branch) : Prop :=
  ∃ front branch back inner, path = front ++ branch :: back ∧
    before.follow? front = some (.listed (.one inner)) ∧
      after.follow? front = some (.listed (.many [inner]))

/-- Nothing is found behind a list. -/
theorem PassesEnlisted.follow?
    {before after : View}
    {path : List Branch}
    (h : PassesEnlisted before after path) :
    after.follow? path = none := by
  obtain ⟨front, branch, back, inner, rfl, -, hlist⟩ := h
  rw [View.follow?_append, hlist]
  rfl

/-- Views that are alike lead to views that are alike, unless the path goes on behind an enlisted
item. -/
theorem ViewAlike.follow?
    {before after : View}
    (h : ViewAlike before after)
    (path : List Branch) :
    Option.Rel ViewAlike (before.follow? path) (after.follow? path) ∨
      PassesEnlisted before after path := by
  induction path generalizing before after with
  | nil => exact .inl (.some h)
  | cons branch more ih =>
      rcases h.branch? branch with hbranch | ⟨inner, rfl, rfl⟩
      · rw [View.follow?, View.follow?]
        rcases rel_cases hbranch with ⟨hbefore, hafter⟩ | ⟨inner, inner', hbefore, hafter, hinner⟩
        · rw [hbefore, hafter]
          exact .inl .none
        · rw [hbefore, hafter]
          rcases ih hinner with hmore | ⟨front, next, back, item, rfl, hone, hmany⟩
          · exact .inl hmore
          · refine .inr ⟨branch :: front, next, back, item, rfl, ?_, ?_⟩
            · rw [View.follow?, hbefore, Option.bind_some, hone]
            · rw [View.follow?, hafter, Option.bind_some, hmany]
      · exact .inr ⟨[], branch, more, inner, rfl, rfl, rfl⟩

/-! ## Entries -/

theorem ItemsAlike.nodes
    {items items' : Items Node}
    (h : ItemsAlike items items') :
    List.Forall₂ Node.Alike items.toList items'.toList := by
  cases h with
  | one h => exact .cons h .nil
  | many h => exact h
  | enlisted inner => exact nodesAlike_refl [inner]

theorem ViewAlike.nodes
    {before after : View}
    (h : ViewAlike before after) :
    List.Forall₂ Node.Alike before.nodes after.nodes := by
  cases h with
  | single h => exact .cons h .nil
  | named h => exact .nil
  | listed h => exact h.nodes

/-- Views that are alike have entries that are alike, also where a list takes the place of a single
node. -/
theorem ViewAlike.entries
    {before after : View}
    (h : ViewAlike before after) :
    List.Forall₂ MemberAlike before.entries after.entries :=
  List.rel_flatten (List.rel_filterMap (fun _ _ hnode => hnode.fields.properties) h.nodes)

theorem getD_alike
    {members members' : Option (List (String × Node))}
    (h : Option.Rel (List.Forall₂ MemberAlike) members members') :
    List.Forall₂ MemberAlike (members.getD []) (members'.getD []) := by
  cases h with
  | none => exact .nil
  | some h => exact h

theorem getElem?_alike
    {α : Type}
    {R : α → α → Prop}
    {elements elements' : List α}
    (h : List.Forall₂ R elements elements')
    (index : Nat) :
    Option.Rel R elements[index]? elements'[index]? := by
  induction h generalizing index with
  | nil => exact .none
  | cons hhead _ ih =>
      cases index with
      | zero => exact .some hhead
      | succ index => exact ih index

end Delta
end CqlDelta
