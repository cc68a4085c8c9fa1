import CqlDelta.Proofs.Delta.Tours

/-!
# What a comparison contains

`Node.within` lists all nodes in a node, and `Node.phrases` all texts that it contains, each with
what it is: the text of a type, the options of a table, or a name, under which everything else is
counted. What is found along a path contains nothing that the comparison does not contain
(`within_follow?`).
-/

namespace CqlDelta
namespace Delta

/-! ## Nodes -/

mutual

/-- A node and all nodes in it. -/
def Node.within : Node → List Node
  | ⟨properties, items, containers, entities, definitions, modified, deleted, added, element,
      change, declaration⟩ =>
      ⟨properties, items, containers, entities, definitions, modified, deleted, added, element,
        change, declaration⟩ ::
        (withinMembers? properties ++ withinItems? items ++ withinPart? containers
          ++ withinPart? entities ++ withinPart? definitions ++ withinPart? modified
          ++ withinPart? deleted ++ withinPart? added)

/-- The nodes in the members of a node. -/
def withinMembers? : Option (List (String × Node)) → List Node
  | none => []
  | some members => withinMembers members

/-- The nodes in members. -/
def withinMembers : List (String × Node) → List Node
  | [] => []
  | (_, node) :: rest => node.within ++ withinMembers rest

/-- The nodes in the items of a node. -/
def withinItems? : Option (Items Node) → List Node
  | none => []
  | some (.one node) => node.within
  | some (.many nodes) => withinList nodes

/-- The nodes in a list of items. -/
def withinList : List Node → List Node
  | [] => []
  | node :: rest => node.within ++ withinList rest

/-- The nodes in a part of a node. -/
def withinPart? : Option Node → List Node
  | none => []
  | some node => node.within

end

theorem withinMembers_eq_flatMap (members : Members) :
    withinMembers members = members.flatMap fun entry => entry.2.within := by
  induction members with
  | nil => rfl
  | cons entry rest ih => rw [withinMembers, ih, List.flatMap_cons]

theorem withinList_eq_flatMap (nodes : List Node) :
    withinList nodes = nodes.flatMap Node.within := by
  induction nodes with
  | nil => rfl
  | cons node rest ih => rw [withinList, ih, List.flatMap_cons]

theorem Node.mem_within_self (node : Node) : node ∈ node.within := by
  cases node
  exact List.mem_cons_self

namespace View

/-- All nodes that a view holds, directly or not. -/
def within : View → List Node
  | .single node => node.within
  | .named members => withinMembers members
  | .listed items => withinItems? (some items)

theorem within_ofNode?
    {node : Node}
    {branch : Branch}
    {inner : View}
    (h : ofNode? node branch = some inner) :
    inner.within ⊆ node.within := by
  intro found hfound
  obtain ⟨properties, items, containers, entities, definitions, modified, deleted, added,
    element, change, declaration⟩ := node
  cases branch with
  | properties =>
      obtain ⟨members, rfl, rfl⟩ := Option.map_eq_some_iff.mp h
      simp only [within] at hfound
      simp [Node.within, withinMembers?, hfound]
  | items =>
      obtain ⟨items, rfl, rfl⟩ := Option.map_eq_some_iff.mp h
      simp only [within] at hfound
      simp [Node.within, hfound]
  | part part =>
      cases part <;>
        obtain ⟨inner, hinner, rfl⟩ := Option.map_eq_some_iff.mp h <;>
        simp only [Node.part?] at hinner <;>
        subst hinner <;>
        simp only [within] at hfound <;>
        simp [Node.within, withinPart?, hfound]

theorem within_branch?
    {view inner : View}
    {branch : Branch}
    (h : view.branch? branch = some inner) :
    inner.within ⊆ view.within := by
  cases view with
  | single node => exact within_ofNode? h
  | named members =>
      obtain ⟨node, hnode, rfl⟩ := Option.map_eq_some_iff.mp h
      intro found hfound
      rw [within, withinMembers_eq_flatMap, List.mem_flatMap]
      exact ⟨(branch.key, node), Listing.mem_of_get? hnode, hfound⟩
  | listed items =>
      cases items with
      | many nodes => simp [branch?] at h
      | one node =>
          show inner.within ⊆ node.within
          exact within_ofNode? h

/-- What is found along a path holds no further nodes. -/
theorem within_follow?
    {view inner : View}
    {path : List Branch}
    (h : view.follow? path = some inner) :
    inner.within ⊆ view.within := by
  induction path generalizing view with
  | nil =>
      obtain rfl := Option.some.inj h
      exact List.Subset.refl _
  | cons branch path ih =>
      obtain ⟨next, hnext, h⟩ := Option.bind_eq_some_iff.mp h
      exact List.Subset.trans (ih h) (within_branch? hnext)

theorem within_nodes
    {view : View}
    {node : Node}
    (h : node ∈ view.nodes) :
    node.within ⊆ view.within := by
  cases view with
  | single other =>
      obtain rfl := List.mem_singleton.mp h
      exact List.Subset.refl _
  | named members => simp [nodes] at h
  | listed items =>
      cases items with
      | one other =>
          obtain rfl := List.mem_singleton.mp h
          exact List.Subset.refl _
      | many others =>
          intro found hfound
          rw [within, withinItems?, withinList_eq_flatMap, List.mem_flatMap]
          exact ⟨node, h, hfound⟩

end View

/-- The members of a node hold no further nodes. -/
theorem Node.within_member
    {node : Node}
    {members : Members}
    (h : node.properties = some members)
    {entry : String × Node}
    (hentry : entry ∈ members) :
    entry.2.within ⊆ node.within := by
  have hmembers : View.ofNode? node .properties = some (.named members) := by
    rw [View.ofNode?, h, Option.map_some]
  refine List.Subset.trans ?_ (View.within_ofNode? hmembers)
  intro found hfound
  rw [View.within, withinMembers_eq_flatMap, List.mem_flatMap]
  exact ⟨entry, hentry, hfound⟩

/-! ## Texts -/

/-- What a text of a comparison is. -/
inductive PhraseKind where
  /-- A name, a comment, or anything else that is neither of the others. -/
  | name
  /-- A part of a type: the logical or physical type, or that of a collection's elements or keys. -/
  | type
  /-- The options of a table. -/
  | options
deriving DecidableEq, Repr

/-- A text of a comparison. -/
structure Phrase where
  kind : PhraseKind
  content : String
deriving DecidableEq, Repr

/-- The texts of a kind that are given. -/
def phrasesOf (kind : PhraseKind) (texts : List (Option String)) : List Phrase :=
  (texts.filterMap id).map (Phrase.mk kind)

@[simp]
theorem mem_phrasesOf_iff
    {kind : PhraseKind}
    {texts : List (Option String)}
    {phrase : Phrase} :
    phrase ∈ phrasesOf kind texts ↔ phrase.kind = kind ∧ some phrase.content ∈ texts := by
  obtain ⟨kind', content⟩ := phrase
  simp only [phrasesOf, List.mem_map, List.mem_filterMap, id_eq, exists_eq_right, Phrase.mk.injEq]
  constructor
  · rintro ⟨content, hcontent, rfl, rfl⟩
    exact ⟨rfl, hcontent⟩
  · rintro ⟨rfl, hcontent⟩
    exact ⟨content, hcontent, rfl, rfl⟩

/-- The texts of a declaration. -/
def Declaration.phrases (declaration : Declaration) : List Phrase :=
  phrasesOf .type
      [declaration.logical, declaration.physical, declaration.element, declaration.mapKey]
    ++ phrasesOf .name [declaration.reference, declaration.guid]

/-- The texts of a value before and after. -/
def Revision.phrases (kind : PhraseKind) (revision : Revision) : List Phrase :=
  phrasesOf kind [revision.new, revision.old]

/-- The texts of a declaration on one side. -/
def Snapshot.phrases (snapshot : Snapshot) : List Phrase :=
  snapshot.declaration.toList.flatMap Declaration.phrases

/-- The names of a placement: its keyspaces and the tables there. -/
def placementPhrases (placement : Placement) : List Phrase :=
  placement.flatMap fun home =>
    phrasesOf .name (some home.1 :: home.2.map fun use => some use.table)

/-- The texts of a change. -/
def Change.phrases (change : Change) : List Phrase :=
  phrasesOf .name [change.keyspace]
    ++ change.options.toList.flatMap (Revision.phrases .options)
    ++ change.comment.toList.flatMap (Revision.phrases .name)
    ++ change.before.toList.flatMap Snapshot.phrases
    ++ change.after.toList.flatMap Snapshot.phrases
    ++ change.name.toList.flatMap (Revision.phrases .name)
    ++ change.placement.toList.flatMap placementPhrases

/-- The text of a factor that is not a number. -/
def Factor.phrases : Factor → List Phrase
  | .number _ => []
  | .text content => [⟨.name, content⟩]

/-- The texts of a data center. -/
def DataCenter.phrases (center : DataCenter) : List Phrase :=
  ⟨.name, center.name⟩ :: center.factor.toList.flatMap Factor.phrases

/-- The texts of an element. -/
def Element.phrases (element : Element) : List Phrase :=
  phrasesOf .name [element.name, element.strategy, element.comment]
    ++ phrasesOf .options [element.options]
    ++ element.change.toList.flatMap Change.phrases
    ++ element.factor.toList.flatMap Factor.phrases
    ++ (element.dataCenters.getD []).flatMap DataCenter.phrases

/-- The texts of a node itself: the names of its members, and what it says about its element. -/
def Node.ownPhrases (node : Node) : List Phrase :=
  phrasesOf .name ((node.properties.getD []).map fun member => some member.1)
    ++ node.element.toList.flatMap Element.phrases
    ++ node.change.toList.flatMap Change.phrases
    ++ node.declaration.phrases

theorem Node.element_phrases
    {node : Node}
    {element : Element}
    (h : node.element = some element) :
    element.phrases ⊆ node.ownPhrases := by
  intro phrase hphrase
  simp [Node.ownPhrases, h, hphrase]

theorem Node.declaration_phrases (node : Node) :
    node.declaration.phrases ⊆ node.ownPhrases :=
  List.subset_append_right _ _

theorem Element.change_phrases
    {element : Element}
    {change : Change}
    (h : element.change = some change) :
    change.phrases ⊆ element.phrases := by
  intro phrase hphrase
  simp [Element.phrases, h, hphrase]

theorem Node.elementChange_phrases
    {node : Node}
    {change : Change}
    (h : node.elementChange? = some change) :
    change.phrases ⊆ node.ownPhrases := by
  obtain ⟨element, helement, hchange⟩ := Option.bind_eq_some_iff.mp h
  exact List.Subset.trans (Element.change_phrases hchange) (Node.element_phrases helement)

theorem Node.change_phrases
    {node : Node}
    {change : Change}
    (h : change ∈ node.changes) :
    change.phrases ⊆ node.ownPhrases := by
  rcases List.mem_append.mp h with hown | helement
  · intro phrase hphrase
    simp [Node.ownPhrases, Option.mem_toList.mp hown, hphrase]
  · exact Node.elementChange_phrases (Option.mem_toList.mp helement)

theorem Node.placement_phrases
    {node : Node}
    {placement : Placement}
    (h : node.placement? = some placement) :
    placementPhrases placement ⊆ node.ownPhrases := by
  obtain ⟨change, hmem, hplacement⟩ := List.exists_of_findSome?_eq_some h
  have hchange : change ∈ node.changes := by
    rw [List.mem_append] at hmem
    exact List.mem_append.mpr hmem.symm
  refine List.Subset.trans (fun phrase hphrase => ?_) (Node.change_phrases hchange)
  simp [Change.phrases, hplacement, hphrase]

/-- All texts in a node. -/
def Node.phrases (node : Node) : List Phrase :=
  node.within.flatMap Node.ownPhrases

/-! ## Entries -/

/-- An entry whose name and whose nodes are all in a comparison. -/
structure Node.Holds (document : Node) (entry : String × Node) : Prop where
  name : ⟨.name, entry.1⟩ ∈ document.phrases
  within : entry.2.within ⊆ document.within

variable {document : Node} {entry : String × Node}

theorem Node.ownPhrases_subset
    {node : Node}
    (h : node.within ⊆ document.within) :
    node.ownPhrases ⊆ document.phrases :=
  fun _ hphrase => List.mem_flatMap.mpr ⟨node, h node.mem_within_self, hphrase⟩

/-- What an entry says itself is said in the comparison. -/
theorem Node.Holds.own
    (h : document.Holds entry) :
    entry.2.ownPhrases ⊆ document.phrases :=
  Node.ownPhrases_subset h.within

theorem Node.Holds.declaration_phrases
    (h : document.Holds entry) :
    entry.2.declaration.phrases ⊆ document.phrases :=
  List.Subset.trans (Node.declaration_phrases _) h.own

/-- With a node its members are in the comparison. -/
theorem Node.holds_member
    {node : Node}
    {members : Members}
    (hwithin : node.within ⊆ document.within)
    (hmembers : node.properties = some members)
    {member : String × Node}
    (hmember : member ∈ members) :
    document.Holds member where
  name := by
    refine Node.ownPhrases_subset hwithin ?_
    have hname : some member.1 ∈ members.map fun member => some member.1 :=
      List.mem_map_of_mem hmember
    simp [Node.ownPhrases, hmembers, hname]
  within := List.Subset.trans (Node.within_member hmembers hmember) hwithin

end Delta
end CqlDelta
