import CqlDelta.Proofs.Json.Spellings

/-!
# Places in a tree and in its text

A path leads to an element or a member, from there to one of its own, and so on. In the text of a
tree without a flaw every place has its piece: the piece spells the tree in that place, and any
other spelling may stand there instead (`Padded.place`). A member may be put in at any position of
an object (`ObjectText.insert`).
-/

namespace CqlDelta
namespace Json

/-! ## Places in a tree -/

/-- The value of an element or a member, by its position. -/
def Tree.child? : Tree → Nat → Option Tree
  | .list items _, index => items[index]?
  | .object members _, index => members[index]?.map Prod.snd
  | _, _ => none

/-- A tree with another value for an element or a member. -/
def Tree.setChild : Tree → Nat → Tree → Tree
  | .list items stop, index, child => .list (items.set index child) stop
  | .object members stop, index, child =>
      .object (members.modify index fun member => (member.1, child)) stop
  | tree, _, _ => tree

/-- The tree at the end of a path. -/
def Tree.valueAt? : Tree → List Nat → Option Tree
  | tree, [] => some tree
  | tree, index :: path => (tree.child? index).bind fun child => child.valueAt? path

/-- A tree with another one at the end of a path. -/
def Tree.replaceAt : Tree → List Nat → Tree → Tree
  | _, [], new => new
  | tree, index :: path, new =>
      match tree.child? index with
      | some child => tree.setChild index (child.replaceAt path new)
      | none => tree

@[simp]
theorem Tree.replaceAt_nil (tree new : Tree) : tree.replaceAt [] new = new := by
  cases tree <;> rfl

/-- An entry of a list stands between those in front of it and those behind it. -/
theorem exists_split
    {α : Type}
    {entries : List α}
    {index : Nat}
    {entry : α}
    (h : entries[index]? = some entry) :
    ∃ front back, entries = front ++ entry :: back ∧ front.length = index := by
  obtain ⟨hlt, rfl⟩ := List.getElem?_eq_some_iff.mp h
  exact ⟨entries.take index, entries.drop (index + 1), by simp, by simp; omega⟩

@[simp]
theorem set_split
    {α : Type}
    (front back : List α)
    (entry new : α) :
    (front ++ entry :: back).set front.length new = front ++ new :: back := by
  simp

@[simp]
theorem modify_split
    {α : Type}
    (front back : List α)
    (entry : α)
    (change : α → α) :
    (front ++ entry :: back).modify front.length change = front ++ change entry :: back := by
  rw [List.modify_eq_set_getElem?]
  simp

section Steps

variable (child new : Tree) (path : List Nat)

@[simp]
theorem Tree.valueAt?_list
    (front back : List Tree)
    (stop : ListStop) :
    (Tree.list (front ++ child :: back) stop).valueAt? (front.length :: path) =
      child.valueAt? path := by
  simp [Tree.valueAt?, Tree.child?]

@[simp]
theorem Tree.valueAt?_object
    (front back : List (Content × Tree))
    (key : Content)
    (stop : ObjectStop) :
    (Tree.object (front ++ (key, child) :: back) stop).valueAt? (front.length :: path) =
      child.valueAt? path := by
  simp [Tree.valueAt?, Tree.child?]

@[simp]
theorem Tree.replaceAt_list
    (front back : List Tree)
    (stop : ListStop) :
    (Tree.list (front ++ child :: back) stop).replaceAt (front.length :: path) new =
      .list (front ++ child.replaceAt path new :: back) stop := by
  simp [Tree.replaceAt, Tree.child?, Tree.setChild]

@[simp]
theorem Tree.replaceAt_object
    (front back : List (Content × Tree))
    (key : Content)
    (stop : ObjectStop) :
    (Tree.object (front ++ (key, child) :: back) stop).replaceAt (front.length :: path) new =
      .object (front ++ (key, child.replaceAt path new) :: back) stop := by
  simp [Tree.replaceAt, Tree.child?, Tree.setChild]

end Steps

theorem Tree.valueAt?_item
    {items : List Tree}
    {index : Nat}
    {child : Tree}
    (there : items[index]? = some child)
    (stop : ListStop)
    (path : List Nat) :
    (Tree.list items stop).valueAt? (index :: path) = child.valueAt? path := by
  simp [Tree.valueAt?, Tree.child?, there]

theorem Tree.replaceAt_item
    {items : List Tree}
    {index : Nat}
    {child : Tree}
    (there : items[index]? = some child)
    (stop : ListStop)
    (path : List Nat)
    (new : Tree) :
    (Tree.list items stop).replaceAt (index :: path) new =
      .list (items.set index (child.replaceAt path new)) stop := by
  simp [Tree.replaceAt, Tree.child?, Tree.setChild, there]

theorem Tree.valueAt?_member
    {members : List (Content × Tree)}
    {index : Nat}
    {key : Content}
    {child : Tree}
    (there : members[index]? = some (key, child))
    (stop : ObjectStop)
    (path : List Nat) :
    (Tree.object members stop).valueAt? (index :: path) = child.valueAt? path := by
  simp [Tree.valueAt?, Tree.child?, there]

theorem Tree.replaceAt_member
    {members : List (Content × Tree)}
    {index : Nat}
    {key : Content}
    {child : Tree}
    (there : members[index]? = some (key, child))
    (stop : ObjectStop)
    (path : List Nat)
    (new : Tree) :
    (Tree.object members stop).replaceAt (index :: path) new =
      .object (members.set index (key, child.replaceAt path new)) stop := by
  obtain ⟨front, back, rfl, rfl⟩ := exists_split there
  rw [Tree.replaceAt_object, set_split]

/-- The first step of a path, and the rest of it. -/
theorem Tree.valueAt?_cons
    {tree old : Tree}
    {index : Nat}
    {path : List Nat}
    (h : tree.valueAt? (index :: path) = some old) :
    ∃ child, child.valueAt? path = some old ∧
      ((∃ front back stop, tree = .list (front ++ child :: back) stop ∧ index = front.length) ∨
        ∃ front key back stop,
          tree = .object (front ++ (key, child) :: back) stop ∧ index = front.length) := by
  obtain ⟨child, hchild, hold⟩ := Option.bind_eq_some_iff.mp h
  refine ⟨child, hold, ?_⟩
  cases tree with
  | list items stop =>
      obtain ⟨front, back, rfl, rfl⟩ := exists_split hchild
      exact .inl ⟨front, back, stop, rfl, rfl⟩
  | object members stop =>
      obtain ⟨⟨key, value⟩, hmember, rfl⟩ := Option.map_eq_some_iff.mp hchild
      obtain ⟨front, back, rfl, rfl⟩ := exists_split hmember
      exact .inr ⟨front, key, back, stop, rfl, rfl⟩
  | _ => simp [Tree.child?] at hchild

/-- A tree with the same value in a place is the same tree. -/
theorem Tree.replaceAt_self
    {tree old : Tree}
    {path : List Nat}
    (h : tree.valueAt? path = some old) :
    tree.replaceAt path old = tree := by
  induction path generalizing tree with
  | nil =>
      obtain rfl := Option.some.inj h
      exact Tree.replaceAt_nil tree tree
  | cons index path ih =>
      obtain ⟨child, hchild, ⟨front, back, stop, rfl, rfl⟩ | ⟨front, key, back, stop, rfl, rfl⟩⟩ :=
        Tree.valueAt?_cons h
      · rw [Tree.replaceAt_list, ih hchild]
      · rw [Tree.replaceAt_object, ih hchild]

/-! ## Pieces of a text -/

theorem readLiteral_value
    {value tree : Tree}
    {word cs rest : List Char}
    (h : readLiteral value word cs = ⟨tree, some rest⟩) :
    tree = value := by
  have hbroken : ∀ flaw, readLiteral value word cs ≠ .broken flaw := by
    intro flaw hflaw
    simp [hflaw, Found.broken] at h
  obtain ⟨rest', -, hread⟩ := readLiteral_eq_some hbroken
  exact (congrArg Found.value (h.symm.trans hread))

theorem readNumber_value
    {negative : Bool}
    {cs rest : List Char}
    {tree : Tree}
    (h : readNumber negative cs = ⟨tree, some rest⟩) :
    ∃ numeral, tree = .number numeral := by
  rw [readNumber] at h
  split at h
  · exact ⟨_, (congrArg Found.value h).symm⟩
  · simp [Found.broken] at h

theorem readText_value
    {cs rest : List Char}
    {tree : Tree}
    (h : readText cs = ⟨tree, some rest⟩) :
    ∃ content, tree = .text content ∧ readQuoted cs = .ok (content, rest) := by
  rw [readText] at h
  split at h
  next content behind hread =>
    simp only [Found.mk.injEq, Option.some.injEq] at h
    exact ⟨content, h.1.symm, h.2 ▸ hread⟩
  next => simp [Found.broken] at h

/-- The sign that a list, an object or a text starts with, and what is read behind it. -/
inductive Opens (fuel : Nat) : Char → List Char → Tree → List Char → Prop
  | list {cs rest : List Char} {items : List Tree} {stop : ListStop}
      (h : readElements fuel cs = ⟨(items, stop), some rest⟩) :
      Opens fuel '[' cs (.list items stop) rest
  | object {cs rest : List Char} {members : List (Content × Tree)} {stop : ObjectStop}
      (h : readMembers fuel cs = ⟨(members, stop), some rest⟩) :
      Opens fuel '\x7b' cs (.object members stop) rest
  | text {cs rest : List Char} {content : Content}
      (h : readQuoted cs = .ok (content, rest)) :
      Opens fuel '\x22' cs (.text content) rest
  | number {c : Char} {cs rest : List Char} (numeral : Numeral) :
      Opens fuel c cs (.number numeral) rest
  | bool {c : Char} {cs rest : List Char} (value : Bool) :
      Opens fuel c cs (.bool value) rest
  | null {c : Char} {cs rest : List Char} :
      Opens fuel c cs .null rest

theorem opens_of_readValue
    {fuel : Nat}
    {c : Char}
    {cs rest : List Char}
    {tree : Tree}
    (hc : isToken c = true)
    (h : readValue (fuel + 1) (c :: cs) = ⟨tree, some rest⟩) :
    Opens fuel c cs tree rest := by
  rw [readValue.eq_def] at h
  simp only [skipBlanks_cons hc] at h
  split at h
  · exact readLiteral_value h ▸ .null
  · exact readLiteral_value h ▸ .bool true
  · exact readLiteral_value h ▸ .bool false
  · obtain ⟨content, rfl, hread⟩ := readText_value h
    exact .text hread
  · obtain ⟨numeral, rfl⟩ := readNumber_value h
    exact .number numeral
  · obtain ⟨rfl, hrest⟩ := (Found.mk.injEq ..).mp h
    exact .list (congrArg (Found.mk _) hrest)
  · obtain ⟨rfl, hrest⟩ := (Found.mk.injEq ..).mp h
    exact .object (congrArg (Found.mk _) hrest)
  · split at h
    · obtain ⟨numeral, rfl⟩ := readNumber_value h
      exact .number numeral
    · simp [Found.broken] at h

/-- A padded spelling starts with a sign, and the spelled tree is read behind it up to blanks. -/
theorem Padded.opens
    {cs : List Char}
    {tree : Tree}
    (h : Padded cs tree) :
    ∃ front c tail behind fuel, cs = front ++ c :: (tail ++ behind) ∧ Blank front ∧ Blank behind ∧
      Opens fuel c tail tree [] := by
  obtain ⟨used, behind, rfl, hused, hbehind⟩ := h
  obtain ⟨front, c, tail, rfl, hfront, hc, -⟩ := hused.head
  have hread := hused (3 * (front ++ c :: tail).length) [] (by omega) (by simp [endsNumber])
  rw [List.append_nil, readValue_blanks hfront] at hread
  exact ⟨front, c, tail, behind, _, by simp, hfront, hbehind, opens_of_readValue hc hread⟩

/-- The text of a list without a flaw. -/
theorem padded_list_iff
    {cs : List Char}
    {items : List Tree}
    (hitems : ∀ item ∈ items, passOver item = .ok ()) :
    Padded cs (.list items .closed) ↔
      ∃ front body behind, cs = front ++ '[' :: (body ++ behind) ∧ Blank front ∧ Blank behind ∧
        ListText body items := by
  constructor
  · intro h
    obtain ⟨front, c, tail, behind, fuel, rfl, hfront, hbehind, hopens⟩ := h.opens
    cases hopens with
    | list hread =>
        obtain ⟨used, rest, hcs, ⟨hused, -⟩, hrest⟩ :=
          (spelledWith fuel).elements tail (by rw [hread]; exact passOver_list_iff.mpr ⟨hitems, rfl⟩)
        rw [hread] at hused hrest
        obtain rfl := Option.some.inj hrest
        rw [List.append_nil] at hcs
        exact ⟨front, tail, behind, rfl, hfront, hbehind, hcs ▸ hused⟩
  · rintro ⟨front, body, behind, rfl, hfront, hbehind, hbody⟩
    exact .blanks hfront ⟨'[' :: body, behind, rfl, hbody.spells, hbehind⟩

/-- The text of an object without a flaw. -/
theorem padded_object_iff
    {cs : List Char}
    {members : List (Content × Tree)}
    (hmembers : ∀ member ∈ members, passOver member.2 = .ok ()) :
    Padded cs (.object members .closed) ↔
      ∃ front body behind, cs = front ++ '\x7b' :: (body ++ behind) ∧ Blank front ∧ Blank behind ∧
        ObjectText body members := by
  constructor
  · intro h
    obtain ⟨front, c, tail, behind, fuel, rfl, hfront, hbehind, hopens⟩ := h.opens
    cases hopens with
    | object hread =>
        obtain ⟨used, rest, hcs, ⟨hused, -⟩, hrest⟩ :=
          (spelledWith fuel).members tail
            (by rw [hread]; exact passOver_object_iff.mpr ⟨hmembers, rfl⟩)
        rw [hread] at hused hrest
        obtain rfl := Option.some.inj hrest
        rw [List.append_nil] at hcs
        exact ⟨front, tail, behind, rfl, hfront, hbehind, hcs ▸ hused⟩
  · rintro ⟨front, body, behind, rfl, hfront, hbehind, hbody⟩
    exact .blanks hfront ⟨'\x7b' :: body, behind, rfl, hbody.spells, hbehind⟩

/-- The text of a key. -/
theorem Padded.keyText
    {cs : List Char}
    {key : Content}
    (h : Padded cs (.text key)) :
    KeyText cs key := by
  obtain ⟨front, c, tail, behind, fuel, rfl, hfront, hbehind, hopens⟩ := h.opens
  cases hopens with
  | text hread =>
      obtain ⟨used, hcs, hused⟩ := readQuoted_front hread
      rw [List.append_nil] at hcs
      subst hcs
      exact ⟨front, tail, behind, rfl, hfront, hbehind, hused⟩

/-! ## The piece in a place -/

theorem ListText.itemsText
    {cs : List Char}
    {items : List Tree}
    (h : ListText cs items)
    (hne : items ≠ []) :
    ItemsText cs items := by
  cases h with
  | empty => exact absurd rfl hne
  | items h => exact h

theorem ObjectText.membersText
    {cs : List Char}
    {members : List (Content × Tree)}
    (h : ObjectText cs members)
    (hne : members ≠ []) :
    MembersText cs members := by
  cases h with
  | empty => exact absurd rfl hne
  | members h => exact h

theorem ItemsText.place
    {cs : List Char}
    {front back : List Tree}
    {child : Tree}
    (h : ItemsText cs (front ++ child :: back)) :
    ∃ before piece after, cs = before ++ piece ++ after ∧ Padded piece child ∧
      ∀ piece' child', Padded piece' child' →
        ItemsText (before ++ piece' ++ after) (front ++ child' :: back) := by
  induction front generalizing cs with
  | nil =>
      cases h with
      | @last piece _ first =>
          exact ⟨[], piece, [']'], rfl, first, fun _ _ hnew => .last hnew⟩
      | @more piece rest _ _ first others =>
          exact ⟨[], piece, ',' :: rest, rfl, first, fun _ _ hnew => .more hnew others⟩
  | cons item front ih =>
      rw [List.cons_append] at h
      generalize hitems : front ++ child :: back = items at h
      cases h with
      | last => simp at hitems
      | @more lead rest _ _ first others =>
          obtain ⟨before, piece, after, rfl, hpiece, hnew⟩ := ih (hitems ▸ others)
          refine ⟨lead ++ ',' :: before, piece, after, by simp, hpiece, fun piece' child' hchild => ?_⟩
          simpa using ItemsText.more first (hnew piece' child' hchild)

theorem MembersText.place
    {cs : List Char}
    {front back : List (Content × Tree)}
    {key : Content}
    {child : Tree}
    (h : MembersText cs (front ++ (key, child) :: back)) :
    ∃ before piece after, cs = before ++ piece ++ after ∧ Padded piece child ∧
      ∀ piece' child', Padded piece' child' →
        MembersText (before ++ piece' ++ after) (front ++ (key, child') :: back) := by
  induction front generalizing cs with
  | nil =>
      cases h with
      | @last name piece _ _ named first =>
          refine ⟨name ++ [':'], piece, ['\x7d'], by simp, first, fun _ _ hnew => ?_⟩
          simpa using MembersText.last named hnew
      | @more name piece rest _ _ _ named first others =>
          refine ⟨name ++ [':'], piece, ',' :: rest, by simp, first, fun _ _ hnew => ?_⟩
          simpa using MembersText.more named hnew others
  | cons member front ih =>
      rw [List.cons_append] at h
      generalize hmembers : front ++ (key, child) :: back = members at h
      cases h with
      | last => simp at hmembers
      | @more name lead rest _ _ _ named first others =>
          obtain ⟨before, piece, after, rfl, hpiece, hnew⟩ := ih (hmembers ▸ others)
          refine ⟨name ++ ':' :: (lead ++ ',' :: before), piece, after, by simp, hpiece,
            fun piece' child' hchild => ?_⟩
          simpa using MembersText.more named first (hnew piece' child' hchild)

/-- A piece of a text spells the value of an element or a member, and any other spelling may stand
instead. -/
theorem Padded.child
    {cs : List Char}
    {tree child : Tree}
    {index : Nat}
    (htext : Padded cs tree)
    (htree : passOver tree = .ok ())
    (hchild : tree.child? index = some child) :
    passOver child = .ok () ∧
      ∃ before piece after, cs = before ++ piece ++ after ∧ Padded piece child ∧
        ∀ piece' child', Padded piece' child' → passOver child' = .ok () →
          passOver (tree.setChild index child') = .ok () ∧
            Padded (before ++ piece' ++ after) (tree.setChild index child') := by
  cases tree with
  | list items stop =>
      obtain ⟨front, back, rfl, rfl⟩ := exists_split hchild
      obtain ⟨hitems, rfl⟩ := passOver_list_iff.mp htree
      obtain ⟨lead, body, behind, rfl, hlead, hbehind, hbody⟩ := (padded_list_iff hitems).mp htext
      rw [List.forall_mem_append, List.forall_mem_cons] at hitems
      obtain ⟨before, piece, after, rfl, hpiece, hplace⟩ := (hbody.itemsText (by simp)).place
      refine ⟨hitems.2.1, lead ++ '[' :: before, piece, after ++ behind, by simp, hpiece,
        fun piece' child' hnew hpass => ?_⟩
      have hitems' : ∀ item ∈ front ++ child' :: back, passOver item = .ok () := by
        rw [List.forall_mem_append, List.forall_mem_cons]
        exact ⟨hitems.1, hpass, hitems.2.2⟩
      rw [Tree.setChild, set_split]
      refine ⟨passOver_list_iff.mpr ⟨hitems', rfl⟩, (padded_list_iff hitems').mpr ?_⟩
      exact ⟨lead, _, behind, by simp, hlead, hbehind, .items (hplace _ _ hnew)⟩
  | object members stop =>
      obtain ⟨⟨key, value⟩, hmember, rfl⟩ := Option.map_eq_some_iff.mp hchild
      obtain ⟨front, back, rfl, rfl⟩ := exists_split hmember
      obtain ⟨hmembers, rfl⟩ := passOver_object_iff.mp htree
      obtain ⟨lead, body, behind, rfl, hlead, hbehind, hbody⟩ :=
        (padded_object_iff hmembers).mp htext
      rw [List.forall_mem_append, List.forall_mem_cons] at hmembers
      obtain ⟨before, piece, after, rfl, hpiece, hplace⟩ := (hbody.membersText (by simp)).place
      refine ⟨hmembers.2.1, lead ++ '\x7b' :: before, piece, after ++ behind, by simp, hpiece,
        fun piece' child' hnew hpass => ?_⟩
      have hmembers' : ∀ member ∈ front ++ (key, child') :: back, passOver member.2 = .ok () := by
        rw [List.forall_mem_append, List.forall_mem_cons]
        exact ⟨hmembers.1, hpass, hmembers.2.2⟩
      rw [Tree.setChild, modify_split]
      refine ⟨passOver_object_iff.mpr ⟨hmembers', rfl⟩, (padded_object_iff hmembers').mpr ?_⟩
      exact ⟨lead, _, behind, by simp, hlead, hbehind, .members (hplace _ _ hnew)⟩
  | _ => simp [Tree.child?] at hchild

/-- In the text of a tree without a flaw, the piece in a place spells the tree there, and any other
spelling may stand instead. -/
theorem Padded.place
    {cs : List Char}
    {tree old : Tree}
    {path : List Nat}
    (htext : Padded cs tree)
    (htree : passOver tree = .ok ())
    (hold : tree.valueAt? path = some old) :
    passOver old = .ok () ∧
      ∃ before piece after, cs = before ++ piece ++ after ∧ Padded piece old ∧
        ∀ piece' new, Padded piece' new → passOver new = .ok () →
          passOver (tree.replaceAt path new) = .ok () ∧
            Padded (before ++ piece' ++ after) (tree.replaceAt path new) := by
  induction path generalizing cs tree with
  | nil =>
      obtain rfl := Option.some.inj hold
      exact ⟨htree, [], cs, [], by simp, htext, fun piece' new hnew hpass =>
        ⟨hpass, by simpa using hnew⟩⟩
  | cons index path ih =>
      obtain ⟨child, hchild, hold⟩ := Option.bind_eq_some_iff.mp hold
      obtain ⟨hpass, before, piece, after, rfl, hpiece, hplace⟩ := htext.child htree hchild
      obtain ⟨hpass', inside, piece', outside, rfl, hold', hinside⟩ := ih hpiece hpass hold
      refine ⟨hpass', before ++ inside, piece', outside ++ after, by simp, hold',
        fun cs' new hnew hnewpass => ?_⟩
      obtain ⟨hchildpass, hchildtext⟩ := hinside cs' new hnew hnewpass
      have hreplaced := hplace _ _ hchildtext hchildpass
      simp only [Tree.replaceAt, hchild]
      simpa using hreplaced

/-! ## Members that are put in -/

/-- The text of a member that is put in at a position: it is separated from the member in front of
it if it is the last one, and otherwise from the one behind it. -/
def memberText (position count : Nat) (name piece : List Char) : List Char :=
  (if position = count ∧ 0 < count then [','] else []) ++ name ++ ':' :: piece ++
    if position < count then [','] else []

/-- Behind one more member the text is the same, unless there were none before. -/
theorem memberText_succ
    {count : Nat}
    (h : 0 < count)
    (position : Nat)
    (name piece : List Char) :
    memberText (position + 1) (count + 1) name piece = memberText position count name piece := by
  simp [memberText, h]

theorem MembersText.ne_nil
    {cs : List Char}
    {members : List (Content × Tree)}
    (h : MembersText cs members) :
    members ≠ [] := by
  cases h <;> simp

theorem MembersText.insert
    {cs : List Char}
    {front back : List (Content × Tree)}
    (h : MembersText cs (front ++ back)) :
    ∃ before after, cs = before ++ after ∧
      ∀ name piece key value, KeyText name key → Padded piece value →
        MembersText
          (before ++ memberText front.length (front.length + back.length) name piece ++ after)
          (front ++ (key, value) :: back) := by
  induction front generalizing cs with
  | nil =>
      have hback : 0 < back.length := List.length_pos_of_ne_nil h.ne_nil
      refine ⟨[], cs, rfl, fun name piece key value hname hpiece => ?_⟩
      simpa [memberText, hback, Nat.ne_of_lt hback] using MembersText.more hname hpiece h
  | cons member front ih =>
      rw [List.cons_append] at h
      generalize hmembers : front ++ back = members at h
      cases h with
      | @last name' lead _ _ named first =>
          obtain ⟨rfl, rfl⟩ := List.append_eq_nil_iff.mp hmembers
          refine ⟨name' ++ ':' :: lead, ['\x7d'], by simp, fun name piece key value hname hpiece => ?_⟩
          simpa [memberText] using MembersText.more named first (MembersText.last hname hpiece)
      | @more name' lead rest _ _ _ named first others =>
          have hpos : 0 < front.length + back.length := by
            rw [← List.length_append, hmembers]
            exact List.length_pos_of_ne_nil others.ne_nil
          obtain ⟨before, after, rfl, hnew⟩ := ih (hmembers ▸ others)
          refine ⟨name' ++ ':' :: (lead ++ ',' :: before), after, by simp,
            fun name piece key value hname hpiece => ?_⟩
          have hmore := MembersText.more named first (hnew name piece key value hname hpiece)
          rw [List.length_cons, Nat.add_right_comm, memberText_succ hpos]
          simpa using hmore

/-- A member may be put in at any position. -/
theorem ObjectText.insert
    {cs : List Char}
    {front back : List (Content × Tree)}
    (h : ObjectText cs (front ++ back)) :
    ∃ before after, cs = before ++ after ∧
      ∀ name piece key value, KeyText name key → Padded piece value →
        ObjectText
          (before ++ memberText front.length (front.length + back.length) name piece ++ after)
          (front ++ (key, value) :: back) := by
  generalize hmembers : front ++ back = members at h
  cases h with
  | @empty blanks hblanks =>
      obtain ⟨rfl, rfl⟩ := List.append_eq_nil_iff.mp hmembers
      refine ⟨blanks, ['\x7d'], rfl, fun name piece key value hname hpiece => .members ?_⟩
      simpa [memberText] using (MembersText.last hname hpiece).blanks hblanks
  | members hbody =>
      obtain ⟨before, after, rfl, hnew⟩ := (hmembers ▸ hbody : MembersText cs (front ++ back)).insert
      exact ⟨before, after, rfl, fun name piece key value hname hpiece =>
        .members (hnew name piece key value hname hpiece)⟩

/-! ## Whole texts -/

section Documents

variable {cs : List Char} {tree : Tree} {path : List Nat}

/-- Another value may be written in any place of a text. -/
theorem ofChars_replace
    {old : Tree}
    (htext : Document.ofChars cs = ⟨tree, false⟩)
    (htree : passOver tree = .ok ())
    (hold : tree.valueAt? path = some old) :
    ∃ before piece after, cs = before ++ piece ++ after ∧ Document.ofChars piece = ⟨old, false⟩ ∧
      ∀ piece' new, Document.ofChars piece' = ⟨new, false⟩ → passOver new = .ok () →
        Document.ofChars (before ++ piece' ++ after) = ⟨tree.replaceAt path new, false⟩ := by
  obtain ⟨hpass, before, piece, after, hcs, hpiece, hnew⟩ :=
    ((ofChars_eq_iff htree).mp htext).place htree hold
  refine ⟨before, piece, after, hcs, (ofChars_eq_iff hpass).mpr hpiece,
    fun piece' new htext' hpass' => ?_⟩
  obtain ⟨htree', hplaced⟩ := hnew piece' new ((ofChars_eq_iff hpass').mp htext') hpass'
  exact (ofChars_eq_iff htree').mpr hplaced

/-- Another member may be written at any position of any object of a text. -/
theorem ofChars_insert
    {front back : List (Content × Tree)}
    {stop : ObjectStop}
    (htext : Document.ofChars cs = ⟨tree, false⟩)
    (htree : passOver tree = .ok ())
    (hold : tree.valueAt? path = some (.object (front ++ back) stop)) :
    ∃ before after, cs = before ++ after ∧
      ∀ name piece key value, Document.ofChars name = ⟨.text key, false⟩ →
        Document.ofChars piece = ⟨value, false⟩ → passOver value = .ok () →
          Document.ofChars
            (before ++ memberText front.length (front.length + back.length) name piece ++ after) =
              ⟨tree.replaceAt path (.object (front ++ (key, value) :: back) stop), false⟩ := by
  obtain ⟨hpass, before, piece, after, rfl, hpiece, hnew⟩ :=
    ((ofChars_eq_iff htree).mp htext).place htree hold
  obtain ⟨hmembers, rfl⟩ := passOver_object_iff.mp hpass
  obtain ⟨lead, body, behind, rfl, hlead, hbehind, hbody⟩ := (padded_object_iff hmembers).mp hpiece
  obtain ⟨inside, outside, rfl, hinsert⟩ := hbody.insert
  refine ⟨before ++ lead ++ '\x7b' :: inside, outside ++ behind ++ after, by simp,
    fun name piece key value hname hvalue hvaluepass => ?_⟩
  rw [List.forall_mem_append] at hmembers
  have hmembers' : ∀ member ∈ front ++ (key, value) :: back, passOver member.2 = .ok () := by
    rw [List.forall_mem_append, List.forall_mem_cons]
    exact ⟨hmembers.1, hvaluepass, hmembers.2⟩
  have hkey : KeyText name key := ((ofChars_eq_iff rfl).mp hname).keyText
  have hbody' := hinsert name piece key value hkey ((ofChars_eq_iff hvaluepass).mp hvalue)
  have hobject := (padded_object_iff hmembers').mpr ⟨lead, _, behind, rfl, hlead, hbehind, hbody'⟩
  obtain ⟨htree', hplaced⟩ := hnew _ _ hobject (passOver_object_iff.mpr ⟨hmembers', rfl⟩)
  rw [← ofChars_eq_iff htree'] at hplaced
  simpa using hplaced

end Documents

end Json
end CqlDelta
