import CqlDelta.Json.Typed
import CqlDelta.Json.Sorted
import CqlDelta.Json.Value

/-!
# How deep a route leads

A route straight from the text has a number of levels left, and what is found along any other route
nests no deeper than the tree that it is found in. `Route.room` is the bound in both cases. A tree
that is read ahead without a fault keeps to it (`nesting_le_room`), and a written value whose
numbers fit 64 bits is read ahead without a fault wherever there is room (`readAny_toTree`).
-/

namespace CqlDelta
namespace Json

/-! ## Readings that succeed -/

section Success

variable {ε α β : Type}

@[simp]
theorem ok_bind
    (value : α)
    (next : α → Except ε β) :
    (Except.ok value >>= next) = next value :=
  rfl

/-- Two readings in a row succeed if both do. -/
theorem bind_eq_ok_iff
    {first : Except ε α}
    {next : α → Except ε β}
    {result : β} :
    (first >>= next) = .ok result ↔ ∃ value, first = .ok value ∧ next value = .ok result := by
  cases first with
  | error fault => simp [bind, Except.bind]
  | ok value => simp

theorem map_eq_ok_iff
    {first : Except ε α}
    {f : α → β}
    {result : β} :
    first.map f = .ok result ↔ ∃ value, first = .ok value ∧ f value = result := by
  cases first <;> simp [Except.map]

theorem exists_unit
    {P : Unit → Prop} :
    (∃ value, P value) ↔ P () :=
  ⟨fun ⟨_, h⟩ => h, fun h => ⟨(), h⟩⟩

end Success

/-! ## Nesting -/

mutual

/-- How many lists and objects lie within each other. -/
def Tree.nesting : Tree → Nat
  | .list items _ => itemsNesting items + 1
  | .object members _ => membersNesting members + 1
  | .null => 0
  | .bool _ => 0
  | .number _ => 0
  | .text _ => 0
  | .broken _ => 0

/-- The nesting of the deepest element. -/
def itemsNesting : List Tree → Nat
  | [] => 0
  | item :: more => max item.nesting (itemsNesting more)

/-- The nesting of the deepest member. -/
def membersNesting : List (Content × Tree) → Nat
  | [] => 0
  | (_, value) :: more => max value.nesting (membersNesting more)

end

/-- The nesting of a value is that of the tree as which it is read. -/
def Value.nesting (value : Value) : Nat :=
  value.toTree.nesting

theorem itemsNesting_le_iff
    {items : List Tree}
    {room : Nat} :
    itemsNesting items ≤ room ↔ ∀ item ∈ items, item.nesting ≤ room := by
  induction items with
  | nil => simp [itemsNesting]
  | cons item more ih => rw [itemsNesting, Nat.max_le, ih, List.forall_mem_cons]

theorem membersNesting_le_iff
    {members : List (Content × Tree)}
    {room : Nat} :
    membersNesting members ≤ room ↔ ∀ member ∈ members, member.2.nesting ≤ room := by
  induction members with
  | nil => simp [membersNesting]
  | cons member more ih => rw [membersNesting, Nat.max_le, ih, List.forall_mem_cons]

theorem treesOf_eq_map
    (items : List Value) :
    Value.treesOf items = items.map Value.toTree := by
  induction items with
  | nil => rfl
  | cons item more ih => rw [Value.treesOf, ih, List.map_cons]

theorem treeMembersOf_eq_map
    (members : List (String × Value)) :
    Value.treeMembersOf members = members.map fun member => (.ok member.1, member.2.toTree) := by
  induction members with
  | nil => rfl
  | cons member more ih => rw [Value.treeMembersOf, ih, List.map_cons]

/-- The written elements of a list nest one level less than the list. -/
theorem nesting_list_le_iff
    {items : List Value}
    {room : Nat} :
    (Value.list items).nesting ≤ room + 1 ↔ ∀ item ∈ items, item.nesting ≤ room := by
  rw [Value.nesting, Value.toTree, Tree.nesting, treesOf_eq_map, Nat.add_le_add_iff_right,
    itemsNesting_le_iff, List.forall_mem_map]
  rfl

/-- The written members of an object nest one level less than the object. -/
theorem nesting_object_le_iff
    {members : List (String × Value)}
    {room : Nat} :
    (Value.object members).nesting ≤ room + 1 ↔ ∀ member ∈ members, member.2.nesting ≤ room := by
  rw [Value.nesting, Value.toTree, Tree.nesting, treeMembersOf_eq_map, Nat.add_le_add_iff_right,
    membersNesting_le_iff, List.forall_mem_map]
  rfl

/-- The members that are present are those that have a value. -/
theorem mem_present_iff
    {written : List (String × Option Value)}
    {member : String × Value} :
    member ∈ Value.present written ↔ (member.1, some member.2) ∈ written := by
  obtain ⟨key, value⟩ := member
  simp only [Value.present, List.mem_filterMap, Option.map_eq_some_iff]
  constructor
  · rintro ⟨⟨other, content⟩, hmem, inner, rfl, hmember⟩
    obtain ⟨rfl, rfl⟩ := Prod.mk.inj hmember
    exact hmem
  · intro hmem
    exact ⟨(key, some value), hmem, value, rfl, rfl⟩

@[simp]
theorem nesting_null : Value.null.nesting = 0 :=
  rfl

@[simp]
theorem nesting_bool
    (value : Bool) :
    (Value.bool value).nesting = 0 :=
  rfl

@[simp]
theorem nesting_number
    (n : Nat) :
    (Value.number n).nesting = 0 :=
  rfl

@[simp]
theorem nesting_text
    (content : String) :
    (Value.text content).nesting = 0 :=
  rfl

@[simp]
theorem nesting_ofText?
    (content : Option String) :
    (Value.ofText? content).nesting = 0 := by
  cases content <;> rfl

/-! ## Room -/

/-- How deep the part of a tree that a reader keeps may nest. -/
def Route.room : Route → Tree → Nat
  | .text levels, _ => levels
  | .ahead, tree => tree.nesting
  | .whole, tree => tree.nesting

theorem nesting_lt_of_mem_items
    {item : Tree}
    {items : List Tree}
    (hitem : item ∈ items)
    (stop : ListStop) :
    item.nesting < (Tree.list items stop).nesting := by
  rw [Tree.nesting, Nat.lt_succ_iff]
  exact itemsNesting_le_iff.mp (Nat.le_refl _) item hitem

theorem nesting_lt_of_mem_members
    {member : Content × Tree}
    {members : List (Content × Tree)}
    (hmember : member ∈ members)
    (stop : ObjectStop) :
    member.2.nesting < (Tree.object members stop).nesting := by
  rw [Tree.nesting, Nat.lt_succ_iff]
  exact membersNesting_le_iff.mp (Nat.le_refl _) member hmember

/-- What holds of a tree whenever it holds inside it holds of every tree. -/
theorem Tree.nested_induction
    {P : Tree → Prop}
    (leaf : ∀ tree, tree.nesting = 0 → P tree)
    (list : ∀ items stop, (∀ item ∈ items, P item) → P (.list items stop))
    (object : ∀ members stop, (∀ member ∈ members, P member.2) → P (.object members stop))
    (tree : Tree) :
    P tree := by
  have general (bound : Nat) (tree : Tree) (h : tree.nesting ≤ bound) : P tree := by
    induction bound generalizing tree with
    | zero => exact leaf tree (Nat.le_zero.mp h)
    | succ bound ih =>
        cases tree with
        | list items stop =>
            refine list items stop fun item hitem => ih item ?_
            have := nesting_lt_of_mem_items hitem stop
            omega
        | object members stop =>
            refine object members stop fun member hmember => ih member.2 ?_
            have := nesting_lt_of_mem_members hmember stop
            omega
        | null => exact leaf _ rfl
        | bool value => exact leaf _ rfl
        | number numeral => exact leaf _ rfl
        | text content => exact leaf _ rfl
        | broken flaw => exact leaf _ rfl
  exact general tree.nesting tree (Nat.le_refl _)

/-- Inside a list or an object there is less room than around it. -/
theorem room_lt_of_enter
    {route inner : Route}
    {tree child : Tree}
    (henter : route.enter = .ok inner)
    (hchild : child.nesting < tree.nesting) :
    inner.room child < route.room tree := by
  cases route with
  | text levels =>
      cases levels with
      | zero => simp [Route.enter] at henter
      | succ levels =>
          obtain rfl := Except.ok.inj henter
          simp [Route.room]
  | ahead =>
      obtain rfl := Except.ok.inj henter
      exact hchild
  | whole =>
      obtain rfl := Except.ok.inj henter
      exact hchild

/-- A list or an object that is entered has room for one level. -/
theorem room_pos_of_enter
    {route inner : Route}
    {tree : Tree}
    (henter : route.enter = .ok inner)
    (htree : 0 < tree.nesting) :
    0 < route.room tree := by
  have hnull : Tree.null.nesting < tree.nesting := htree
  have hinner := room_lt_of_enter henter hnull
  omega

/-! ## Reading ahead -/

theorem ending_eq_ok_iff
    {fault : Option Fault} :
    ending fault = .ok () ↔ fault = none := by
  cases fault <;> simp [ending]

theorem contentOf_eq_ok_iff
    {content : Content}
    {text : String} :
    contentOf content = .ok text ↔ content = .ok text := by
  cases content <;> simp [contentOf]

theorem readAnyItems_eq_ok_iff
    {route : Route}
    {items : List Tree} :
    readAnyItems route items = .ok () ↔ ∀ item ∈ items, readAny route item = .ok () := by
  induction items with
  | nil => simp [readAnyItems]
  | cons item more ih => simp [readAnyItems, bind_eq_ok_iff, exists_unit, ih]

theorem readAnyMembers_eq_ok_iff
    {route : Route}
    {members : List (Content × Tree)} :
    readAnyMembers route members = .ok () ↔
      ∀ member ∈ members, (∃ key, member.1 = .ok key) ∧ readAny route member.2 = .ok () := by
  induction members with
  | nil => simp [readAnyMembers]
  | cons member more ih =>
      simp [readAnyMembers, bind_eq_ok_iff, exists_unit, ih, contentOf_eq_ok_iff, and_assoc]

theorem readAny_list_iff
    {route : Route}
    {items : List Tree}
    {stop : ListStop} :
    readAny route (.list items stop) = .ok () ↔
      ∃ inner, route.enter = .ok inner ∧ (∀ item ∈ items, readAny inner item = .ok ()) ∧
        stop.readFault? = none := by
  simp [readAny, bind_eq_ok_iff, exists_unit, readAnyItems_eq_ok_iff, ending_eq_ok_iff]

theorem readAny_object_iff
    {route : Route}
    {members : List (Content × Tree)}
    {stop : ObjectStop} :
    readAny route (.object members stop) = .ok () ↔
      ∃ inner, route.enter = .ok inner ∧
        (∀ member ∈ members, (∃ key, member.1 = .ok key) ∧ readAny inner member.2 = .ok ()) ∧
        stop.readFault? = none := by
  simp [readAny, bind_eq_ok_iff, exists_unit, readAnyMembers_eq_ok_iff, ending_eq_ok_iff]

/-- What is read ahead along a route keeps to the room there. -/
theorem nesting_le_room
    {route : Route}
    {tree : Tree}
    (h : readAny route tree = .ok ()) :
    tree.nesting ≤ route.room tree := by
  cases route with
  | ahead => exact Nat.le_refl _
  | whole => exact Nat.le_refl _
  | text levels =>
      rw [Route.room]
      induction tree using Tree.nested_induction generalizing levels with
      | leaf tree hleaf => omega
      | list items stop ih =>
          obtain ⟨inner, henter, hitems, -⟩ := readAny_list_iff.mp h
          cases levels with
          | zero => simp [Route.enter] at henter
          | succ levels =>
              obtain rfl := Except.ok.inj henter
              rw [Tree.nesting, Nat.add_le_add_iff_right]
              exact itemsNesting_le_iff.mpr fun item hitem =>
                ih item hitem levels (hitems item hitem)
      | object members stop ih =>
          obtain ⟨inner, henter, hmembers, -⟩ := readAny_object_iff.mp h
          cases levels with
          | zero => simp [Route.enter] at henter
          | succ levels =>
              obtain rfl := Except.ok.inj henter
              rw [Tree.nesting, Nat.add_le_add_iff_right]
              exact membersNesting_le_iff.mpr fun member hmember =>
                ih member hmember levels (hmembers member hmember).2

/-- What can be read ahead can be read ahead once more. -/
theorem readAny_ahead
    {route : Route}
    {tree : Tree}
    (h : readAny route tree = .ok ()) :
    readAny .ahead tree = .ok () := by
  induction tree using Tree.nested_induction generalizing route with
  | leaf tree hleaf =>
      cases tree with
      | list items stop => simp [Tree.nesting] at hleaf
      | object members stop => simp [Tree.nesting] at hleaf
      | _ => exact h
  | list items stop ih =>
      obtain ⟨inner, -, hitems, hstop⟩ := readAny_list_iff.mp h
      exact readAny_list_iff.mpr
        ⟨.ahead, rfl, fun item hitem => ih item hitem (hitems item hitem), hstop⟩
  | object members stop ih =>
      obtain ⟨inner, -, hmembers, hstop⟩ := readAny_object_iff.mp h
      refine readAny_object_iff.mpr ⟨.ahead, rfl, fun member hmember => ?_, hstop⟩
      exact ⟨(hmembers member hmember).1, ih member hmember (hmembers member hmember).2⟩

/-! ## Written values -/

mutual

/-- Whether the numbers of a value fit 64 bits. -/
def Value.fits : Value → Prop
  | .number n => n < UInt64.size
  | .list items => itemsFit items
  | .object members => membersFit members
  | .null => True
  | .bool _ => True
  | .text _ => True

/-- Whether the numbers of the elements fit 64 bits. -/
def itemsFit : List Value → Prop
  | [] => True
  | item :: more => item.fits ∧ itemsFit more

/-- Whether the numbers of the members fit 64 bits. -/
def membersFit : List (String × Value) → Prop
  | [] => True
  | (_, value) :: more => value.fits ∧ membersFit more

end

theorem itemsFit_iff
    {items : List Value} :
    itemsFit items ↔ ∀ item ∈ items, item.fits := by
  induction items with
  | nil => simp [itemsFit]
  | cons item more ih => simp [itemsFit, ih]

theorem membersFit_iff
    {members : List (String × Value)} :
    membersFit members ↔ ∀ member ∈ members, member.2.fits := by
  induction members with
  | nil => simp [membersFit]
  | cons member more ih => simp [membersFit, ih]

@[simp]
theorem fits_object_iff
    {members : List (String × Value)} :
    (Value.object members).fits ↔ ∀ member ∈ members, member.2.fits := by
  rw [Value.fits, membersFit_iff]

@[simp]
theorem fits_list_iff
    {items : List Value} :
    (Value.list items).fits ↔ ∀ item ∈ items, item.fits := by
  rw [Value.fits, itemsFit_iff]

@[simp]
theorem fits_null : Value.null.fits :=
  trivial

@[simp]
theorem fits_bool
    (value : Bool) :
    (Value.bool value).fits :=
  trivial

@[simp]
theorem fits_text
    (content : String) :
    (Value.text content).fits :=
  trivial

@[simp]
theorem fits_ofText?
    (content : Option String) :
    (Value.ofText? content).fits := by
  cases content <;> trivial

/-- A written number that fits 64 bits has itself as its value. -/
theorem value?_ofNat
    {n : Nat}
    (h : n < UInt64.size) :
    (Numeral.ofNat n).value? = some (.natural n.toUInt64) := by
  have hwhole : Nat.ofDigitChars 10 (Numeral.ofNat n).whole 0 = n :=
    Nat.ofDigitChars_ten_toDigits
  show (if Nat.ofDigitChars 10 (Numeral.ofNat n).whole 0 < UInt64.size then _ else _) = _
  rw [hwhole, if_pos h]

theorem value?_toNat
    (n : UInt64) :
    (Numeral.ofNat n.toNat).value? = some (.natural n) := by
  have hround : n.toNat.toUInt64 = n := by simp
  rw [value?_ofNat n.toNat_lt, hround]

/-- A route into a written list or object that has room, and the room inside. -/
theorem enter_of_room
    {route : Route}
    {room : Nat}
    (hroom : ∀ levels, route = .text levels → room + 1 ≤ levels) :
    ∃ inner, route.enter = .ok inner ∧ ∀ levels, inner = .text levels → room ≤ levels := by
  cases route with
  | ahead => exact ⟨.ahead, rfl, by simp⟩
  | whole => exact ⟨.whole, rfl, by simp⟩
  | text levels =>
      have hlevels := hroom levels rfl
      obtain ⟨less, rfl⟩ : ∃ less, levels = less + 1 := ⟨levels - 1, by omega⟩
      refine ⟨.text less, rfl, ?_⟩
      rintro _ ⟨rfl⟩
      omega

/-- A written value is read ahead without a fault where there is room for it. -/
theorem readAny_toTree
    {route : Route}
    {value : Value}
    (hfits : value.fits)
    (hroom : ∀ levels, route = .text levels → value.nesting ≤ levels) :
    readAny route value.toTree = .ok () := by
  induction hnesting : value.nesting using Nat.strongRecOn generalizing value route with
  | ind nesting ih =>
      subst hnesting
      cases value with
      | null => rfl
      | bool value => rfl
      | text content => rfl
      | number n =>
          rw [Value.fits] at hfits
          simp [Value.toTree, readAny, value?_ofNat hfits]
      | list items =>
          rw [fits_list_iff] at hfits
          have hitems :=
            nesting_list_le_iff.mp (Nat.le_refl (itemsNesting (Value.treesOf items) + 1))
          obtain ⟨inner, henter, hinner⟩ := enter_of_room hroom
          rw [Value.toTree, treesOf_eq_map]
          refine readAny_list_iff.mpr ⟨inner, henter, ?_, rfl⟩
          rw [List.forall_mem_map]
          intro item hitem
          have hitem' := hitems item hitem
          exact ih item.nesting (Nat.lt_succ_of_le hitem') (hfits item hitem)
            (fun levels hlevels => Nat.le_trans hitem' (hinner levels hlevels)) rfl
      | object members =>
          rw [fits_object_iff] at hfits
          have hmembers :=
            nesting_object_le_iff.mp
              (Nat.le_refl (membersNesting (Value.treeMembersOf members) + 1))
          obtain ⟨inner, henter, hinner⟩ := enter_of_room hroom
          rw [Value.toTree, treeMembersOf_eq_map]
          refine readAny_object_iff.mpr ⟨inner, henter, ?_, rfl⟩
          rw [List.forall_mem_map]
          intro member hmember
          have hmember' := hmembers member hmember
          exact ⟨⟨member.1, rfl⟩, ih member.2.nesting (Nat.lt_succ_of_le hmember')
            (hfits member hmember)
            (fun levels hlevels => Nat.le_trans hmember' (hinner levels hlevels)) rfl⟩

/-- The elements of a written list can be read ahead if the list can. -/
theorem readAny_of_list
    {route : Route}
    {items : List Value}
    (h : readAny route (Value.list items).toTree = .ok ()) :
    ∃ inner, route.enter = .ok inner ∧ ∀ item ∈ items, readAny inner item.toTree = .ok () := by
  rw [Value.toTree, treesOf_eq_map] at h
  obtain ⟨inner, henter, hitems, -⟩ := readAny_list_iff.mp h
  exact ⟨inner, henter, List.forall_mem_map.mp hitems⟩

/-- The members of a written object can be read ahead if the object can. -/
theorem readAny_of_object
    {route : Route}
    {members : List (String × Value)}
    (h : readAny route (Value.object members).toTree = .ok ()) :
    ∃ inner, route.enter = .ok inner ∧
      ∀ member ∈ members, readAny inner member.2.toTree = .ok () := by
  rw [Value.toTree, treeMembersOf_eq_map] at h
  obtain ⟨inner, henter, hmembers, -⟩ := readAny_object_iff.mp h
  exact ⟨inner, henter, fun member hmember => (List.forall_mem_map.mp hmembers member hmember).2⟩

/-! ## Whole texts -/

/-- A text is read if its value is, and nothing but blanks follows it. -/
theorem read_eq_ok_iff
    {α : Type}
    {reader : Reader α}
    {document : Document}
    {value : α} :
    document.read reader = .ok value ↔
      reader .root document.root = .ok value ∧ document.trailing = false := by
  rw [Document.read, bind_eq_ok_iff]
  constructor
  · rintro ⟨found, hfound, h⟩
    split at h
    · simp at h
    · obtain rfl := Except.ok.inj h
      exact ⟨hfound, by simp_all⟩
  · rintro ⟨hvalue, htrailing⟩
    exact ⟨value, hvalue, by simp [htrailing]⟩

end Json
end CqlDelta
