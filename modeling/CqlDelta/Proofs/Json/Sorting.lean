import CqlDelta.Json.Record
import CqlDelta.Proofs.Json.Agreement
import Mathlib.Data.List.Nodup

/-!
# Reading sorted trees

If no object of a tree repeats a key, sorting only changes the order of members
(`sortedMembers_perm`). A reader is *steady* up to a relation if it reads a tree and the sorted tree
in agreement, along any routes along which both can be read ahead. This is carried here from the
simple readers to optional values, lists and listings; a listing comes out in another order.
-/

namespace CqlDelta
namespace Json

/-! ## Keys -/

/-- The keys of members. -/
def memberKeys (members : List (Content × Tree)) : List String :=
  members.map fun member => keyText member.1

mutual

/-- No object repeats a key. -/
def Tree.KeysDistinct : Tree → Prop
  | .list items _ => itemsKeysDistinct items
  | .object members _ => (memberKeys members).Nodup ∧ membersKeysDistinct members
  | .null => True
  | .bool _ => True
  | .number _ => True
  | .text _ => True
  | .broken _ => True

/-- No object among the elements repeats a key. -/
def itemsKeysDistinct : List Tree → Prop
  | [] => True
  | item :: more => item.KeysDistinct ∧ itemsKeysDistinct more

/-- No object below the members repeats a key. -/
def membersKeysDistinct : List (Content × Tree) → Prop
  | [] => True
  | (_, value) :: more => value.KeysDistinct ∧ membersKeysDistinct more

end

theorem itemsKeysDistinct_iff
    {items : List Tree} :
    itemsKeysDistinct items ↔ ∀ item ∈ items, item.KeysDistinct := by
  induction items with
  | nil => simp [itemsKeysDistinct]
  | cons item more ih => rw [itemsKeysDistinct, ih, List.forall_mem_cons]

theorem membersKeysDistinct_iff
    {members : List (Content × Tree)} :
    membersKeysDistinct members ↔ ∀ member ∈ members, member.2.KeysDistinct := by
  induction members with
  | nil => simp [membersKeysDistinct]
  | cons member more ih => rw [membersKeysDistinct, ih, List.forall_mem_cons]

/-- Members with different keys are the same member if their keys are the same. -/
theorem eq_of_memberKeys
    {members : List (Content × Tree)}
    (hkeys : (memberKeys members).Nodup)
    {member other : Content × Tree}
    (hmember : member ∈ members)
    (hother : other ∈ members)
    (h : keyText member.1 = keyText other.1) :
    member = other :=
  List.inj_on_of_nodup_map hkeys hmember hother h

/-! ## Sorting -/

/-- A member whose value is sorted. -/
def sortedMember (member : Content × Tree) : Content × Tree :=
  (member.1, member.2.sorted)

theorem sortedItems_eq_map (items : List Tree) : sortedItems items = items.map Tree.sorted := by
  induction items with
  | nil => rfl
  | cons item more ih => rw [sortedItems, ih, List.map_cons]

theorem memberKeys_map_sorted
    (members : List (Content × Tree)) :
    memberKeys (members.map sortedMember) = memberKeys members := by
  rw [memberKeys, List.map_map]
  rfl

/-- Sorted members have the same keys. -/
theorem perm_memberKeys
    {members members' : List (Content × Tree)}
    (hperm : members'.Perm (members.map sortedMember)) :
    (memberKeys members').Perm (memberKeys members) := by
  rw [← memberKeys_map_sorted members]
  exact hperm.map _

/-- A member with a new key comes in somewhere. -/
theorem insertAbsent_perm
    {key : Content}
    {members : List (Content × Tree)}
    (hkey : keyText key ∉ memberKeys members)
    (value : Tree) :
    (insertAbsent key value members).Perm ((key, value) :: members) := by
  induction members with
  | nil => exact .refl _
  | cons member more ih =>
      obtain ⟨other, present⟩ := member
      rw [memberKeys, List.map_cons, List.mem_cons, not_or] at hkey
      rw [insertAbsent]
      split
      · exact .refl _
      · rw [if_neg hkey.1]
        exact ((ih hkey.2).cons _).trans (.swap _ _ _)

/-- Members with different keys are only brought into another order. -/
theorem sortedMembers_perm
    {members : List (Content × Tree)}
    (hkeys : (memberKeys members).Nodup) :
    (sortedMembers members).Perm (members.map sortedMember) := by
  induction members with
  | nil => exact .refl _
  | cons member more ih =>
      obtain ⟨key, value⟩ := member
      rw [memberKeys, List.map_cons, List.nodup_cons] at hkeys
      have hmore := ih hkeys.2
      have hkey : keyText key ∉ memberKeys (sortedMembers more) := by
        rw [(perm_memberKeys hmore).mem_iff]
        exact hkeys.1
      exact (insertAbsent_perm hkey value.sorted).trans (hmore.cons _)

/-! ## Trees that can be sorted -/

theorem stop_eq_closed
    {stop : ListStop}
    (h : stop.readFault? = none) :
    stop = .closed := by
  cases stop <;> first | rfl | simp [ListStop.readFault?] at h

theorem objectStop_eq_closed
    {stop : ObjectStop}
    (h : stop.readFault? = none) :
    stop = .closed := by
  cases stop <;> first | rfl | simp [ObjectStop.readFault?] at h

/-- What can be read ahead can be passed over. -/
theorem passOver_of_readAny
    {route : Route}
    {tree : Tree}
    (h : readAny route tree = .ok ()) :
    passOver tree = .ok () := by
  induction tree using Tree.nested_induction generalizing route with
  | leaf tree hleaf =>
      cases tree with
      | list items stop => simp [Tree.nesting] at hleaf
      | object members stop => simp [Tree.nesting] at hleaf
      | broken flaw => simp [readAny] at h
      | _ => rfl
  | list items stop ih =>
      obtain ⟨inner, -, hitems, hstop⟩ := readAny_list_iff.mp h
      obtain rfl := stop_eq_closed hstop
      have hpass : passOverItems items = .ok () := by
        clear h
        induction items with
        | nil => rfl
        | cons item more ihmore =>
            rw [List.forall_mem_cons] at ih hitems
            rw [passOverItems, ih.1 hitems.1, ok_bind, ihmore ih.2 hitems.2]
      rw [passOver, hpass]
      rfl
  | object members stop ih =>
      obtain ⟨inner, -, hmembers, hstop⟩ := readAny_object_iff.mp h
      obtain rfl := objectStop_eq_closed hstop
      have hpass : passOverMembers members = .ok () := by
        clear h
        induction members with
        | nil => rfl
        | cons member more ihmore =>
            rw [List.forall_mem_cons] at ih hmembers
            rw [passOverMembers, ih.1 hmembers.1.2, ok_bind, ihmore ih.2 hmembers.2]
      rw [passOver, hpass]
      rfl

/-- A tree without a repeated key that can be read ahead along one route, and sorted along
another. -/
structure Sortable (route route' : Route) (tree : Tree) : Prop where
  plain : readAny route tree = .ok ()
  sorted : readAny route' tree.sorted = .ok ()
  keys : tree.KeysDistinct

/-- Elements, and the routes to them, of a list that can be sorted. -/
theorem Sortable.items
    {route route' : Route}
    {items : List Tree}
    {stop : ListStop}
    (h : Sortable route route' (.list items stop)) :
    ∃ inner inner', route.enter = .ok inner ∧ route'.enter = .ok inner' ∧
      (∀ item ∈ items, Sortable inner inner' item) ∧ stop = .closed := by
  obtain ⟨inner, henter, hitems, hstop⟩ := readAny_list_iff.mp h.plain
  have hsorted := h.sorted
  rw [Tree.sorted, sortedItems_eq_map] at hsorted
  obtain ⟨inner', henter', hitems', -⟩ := readAny_list_iff.mp hsorted
  rw [List.forall_mem_map] at hitems'
  have hkeys := itemsKeysDistinct_iff.mp h.keys
  exact ⟨inner, inner', henter, henter',
    fun item hitem => ⟨hitems item hitem, hitems' item hitem, hkeys item hitem⟩,
    stop_eq_closed hstop⟩

/-- Members under different keys that can be read ahead. -/
structure ReadableMembers (route : Route) (members : List (Content × Tree)) : Prop where
  keys : ∀ member ∈ members, ∃ key, member.1 = .ok key
  values : ∀ member ∈ members, readAny route member.2 = .ok ()
  distinct : (memberKeys members).Nodup

theorem readableMembers_cons
    {route : Route}
    {member : Content × Tree}
    {more : List (Content × Tree)} :
    ReadableMembers route (member :: more) ↔
      ((∃ key, member.1 = .ok key) ∧ readAny route member.2 = .ok ()) ∧
        keyText member.1 ∉ memberKeys more ∧ ReadableMembers route more := by
  constructor
  · rintro ⟨hkeys, hvalues, hdistinct⟩
    rw [List.forall_mem_cons] at hkeys hvalues
    obtain ⟨hkey, hdistinct⟩ := List.nodup_cons.mp hdistinct
    exact ⟨⟨hkeys.1, hvalues.1⟩, hkey, hkeys.2, hvalues.2, hdistinct⟩
  · rintro ⟨hmember, hkey, hmore⟩
    exact ⟨List.forall_mem_cons.mpr ⟨hmember.1, hmore.keys⟩,
      List.forall_mem_cons.mpr ⟨hmember.2, hmore.values⟩,
      List.nodup_cons.mpr ⟨hkey, hmore.distinct⟩⟩

/-- Members under different keys that can be sorted. -/
structure SortableMembers (route route' : Route) (members : List (Content × Tree)) : Prop where
  keys : ∀ member ∈ members, ∃ key, member.1 = .ok key
  values : ∀ member ∈ members, Sortable route route' member.2
  distinct : (memberKeys members).Nodup

theorem SortableMembers.plain
    {route route' : Route}
    {members : List (Content × Tree)}
    (h : SortableMembers route route' members) :
    ReadableMembers route members :=
  ⟨h.keys, fun member hmember => (h.values member hmember).plain, h.distinct⟩

/-- Sorted members can be read ahead in any order. -/
theorem SortableMembers.sorted
    {route route' : Route}
    {members members' : List (Content × Tree)}
    (h : SortableMembers route route' members)
    (hperm : members'.Perm (members.map sortedMember)) :
    ReadableMembers route' members' := by
  have hsource {member' : Content × Tree} (hmember' : member' ∈ members') :
      ∃ member ∈ members, sortedMember member = member' :=
    List.mem_map.mp (hperm.mem_iff.mp hmember')
  refine ⟨?_, ?_, ?_⟩
  · intro member' hmember'
    obtain ⟨member, hmember, rfl⟩ := hsource hmember'
    exact h.keys member hmember
  · intro member' hmember'
    obtain ⟨member, hmember, rfl⟩ := hsource hmember'
    exact (h.values member hmember).sorted
  · exact (perm_memberKeys hperm).nodup_iff.mpr h.distinct

theorem Sortable.members
    {route route' : Route}
    {members : List (Content × Tree)}
    {stop : ObjectStop}
    (h : Sortable route route' (.object members stop)) :
    ∃ inner inner', route.enter = .ok inner ∧ route'.enter = .ok inner' ∧
      SortableMembers inner inner' members ∧ stop = .closed := by
  obtain ⟨inner, henter, hmembers, hstop⟩ := readAny_object_iff.mp h.plain
  obtain ⟨inner', henter', hmembers', -⟩ := readAny_object_iff.mp h.sorted
  have hdistinct : (memberKeys members).Nodup ∧ membersKeysDistinct members := h.keys
  have hkeys := membersKeysDistinct_iff.mp hdistinct.2
  refine ⟨inner, inner', henter, henter', ⟨?_, ?_, hdistinct.1⟩, objectStop_eq_closed hstop⟩
  · exact fun member hmember => (hmembers member hmember).1
  · intro member hmember
    have hmem : sortedMember member ∈ sortedMembers members :=
      (sortedMembers_perm hdistinct.1).mem_iff.mpr (List.mem_map_of_mem hmember)
    exact ⟨(hmembers member hmember).2, (hmembers' _ hmem).2, hkeys member hmember⟩

/-- What can be read ahead can be read ahead sorted as well. -/
theorem readAny_sorted
    {route : Route}
    {tree : Tree}
    (h : readAny route tree = .ok ())
    (hkeys : tree.KeysDistinct) :
    readAny .whole tree.sorted = .ok () := by
  induction tree using Tree.nested_induction generalizing route with
  | leaf tree hleaf =>
      cases tree with
      | list items stop => simp [Tree.nesting] at hleaf
      | object members stop => simp [Tree.nesting] at hleaf
      | _ => exact h
  | list items stop ih =>
      obtain ⟨inner, -, hitems, hstop⟩ := readAny_list_iff.mp h
      have hkeys := itemsKeysDistinct_iff.mp hkeys
      rw [Tree.sorted, sortedItems_eq_map]
      refine readAny_list_iff.mpr ⟨.whole, rfl, ?_, hstop⟩
      rw [List.forall_mem_map]
      exact fun item hitem => ih item hitem (hitems item hitem) (hkeys item hitem)
  | object members stop ih =>
      obtain ⟨inner, -, hmembers, hstop⟩ := readAny_object_iff.mp h
      have hkeys : (memberKeys members).Nodup ∧ membersKeysDistinct members := hkeys
      have hvalues := membersKeysDistinct_iff.mp hkeys.2
      rw [Tree.sorted]
      refine readAny_object_iff.mpr ⟨.whole, rfl, fun member hmember => ?_, hstop⟩
      obtain ⟨other, hother, rfl⟩ :=
        List.mem_map.mp ((sortedMembers_perm hkeys.1).mem_iff.mp hmember)
      obtain ⟨hkey, hread⟩ := hmembers other hother
      exact ⟨hkey, ih other hother hread (hvalues other hother)⟩

/-- What can be sorted can be sorted once it was read ahead. -/
theorem Sortable.ahead
    {route route' : Route}
    {tree : Tree}
    (h : Sortable route route' tree) :
    Sortable .ahead .ahead tree :=
  ⟨readAny_ahead h.plain, readAny_ahead h.sorted, h.keys⟩

/-! ## Steady readers -/

variable {α β : Type}

/-- A tree and the sorted tree are read in agreement, up to a relation. -/
def Steady (reader : Reader α) (R : α → α → Prop) : Prop :=
  ∀ route route' tree, Sortable route route' tree →
    Agree R (reader route tree) (reader route' tree.sorted)

theorem steady_string : Steady readString Eq := by
  intro route route' tree h
  cases tree with
  | text content => exact .refl _
  | _ => exact .failed _ _

theorem isNull_sorted (tree : Tree) : tree.sorted.isNull = tree.isNull := by
  cases tree <;> rfl

theorem steady_option
    {reader : Reader α}
    {R : α → α → Prop}
    (h : Steady reader R) :
    Steady (readOption reader) (Option.Rel R) := by
  intro route route' tree hsortable
  rw [readOption, readOption, isNull_sorted]
  split
  · exact .done .none
  · exact (h route route' tree hsortable).map fun _ _ hrel => .some hrel

theorem Steady.option_eq
    {reader : Reader α}
    (h : Steady reader Eq) :
    Steady (readOption reader) Eq := by
  intro route route' tree hsortable
  refine (steady_option h route route' tree hsortable).mono fun value value' hrel => ?_
  cases hrel with
  | none => rfl
  | some heq => rw [heq]

/-- A value that is read ahead and looked at afterwards. -/
theorem steady_lenient
    {look : Tree → α}
    (h : ∀ tree, look tree.sorted = look tree) :
    Steady (fun route tree => do
      let tree ← readAhead route tree
      return look tree) Eq := by
  intro route route' tree hsortable
  simp only [readAhead, hsortable.plain, hsortable.sorted, ok_bind]
  exact .done (h tree).symm

theorem readItems_agree
    {reader : Reader α}
    (h : Steady reader Eq)
    {route route' : Route}
    {items : List Tree}
    (hitems : ∀ item ∈ items, Sortable route route' item) :
    Agree Eq (readItems reader route items) (readItems reader route' (items.map Tree.sorted)) := by
  induction items with
  | nil => exact .done rfl
  | cons item more ih =>
      rw [List.forall_mem_cons] at hitems
      rw [List.map_cons, readItems, readItems]
      refine (h route route' item hitems.1).bind fun value _ hvalue => ?_
      refine (ih hitems.2).bind fun values _ hvalues => ?_
      subst hvalue hvalues
      exact .done rfl

theorem steady_list
    {reader : Reader α}
    (h : Steady reader Eq) :
    Steady (readList reader) Eq := by
  intro route route' tree hsortable
  cases tree with
  | list items stop =>
      obtain ⟨inner, inner', henter, henter', hitems, rfl⟩ := hsortable.items
      rw [Tree.sorted, sortedItems_eq_map]
      simp only [readList, henter, henter', ok_bind]
      exact (readItems_agree h hitems).bind fun values _ hvalues => .done hvalues
  | _ => exact .failed _ _

/-! ## Listings -/

/-- The entries under readable keys have the keys as their names. -/
theorem names_readEntries
    {reader : Reader α}
    {route : Route}
    {members : List (Content × Tree)}
    {entries : List (String × α)}
    (h : readEntries reader route members = .ok entries) :
    Listing.names entries = memberKeys members := by
  induction members generalizing entries with
  | nil =>
      obtain rfl := Except.ok.inj h
      rfl
  | cons member more ih =>
      obtain ⟨key, hkey, h⟩ := bind_eq_ok_iff.mp h
      obtain ⟨value, -, h⟩ := bind_eq_ok_iff.mp h
      obtain ⟨others, hothers, h⟩ := bind_eq_ok_iff.mp h
      obtain rfl := Except.ok.inj h
      rw [Listing.names_cons, ih hothers, memberKeys, memberKeys, List.map_cons,
        contentOf_eq_ok_iff.mp hkey]
      rfl

/-- Members in another order are read as entries in another order. -/
theorem readEntries_perm
    (reader : Reader α)
    (route : Route)
    {members members' : List (Content × Tree)}
    (h : members.Perm members') :
    Agree List.Perm (readEntries reader route members) (readEntries reader route members') := by
  induction h with
  | nil => exact .done (.refl _)
  | cons member _ ih =>
      rw [readEntries, readEntries]
      refine (Agree.refl (contentOf member.1)).bind fun key _ hkey => ?_
      refine (Agree.refl (reader route member.2)).bind fun value _ hvalue => ?_
      subst hkey hvalue
      exact ih.bind fun entries entries' hperm => .done (hperm.cons _)
  | swap first second more =>
      simp only [readEntries]
      cases contentOf first.1 <;> cases reader route first.2 <;> cases contentOf second.1 <;>
        cases reader route second.2 <;> cases readEntries reader route more <;>
        first
        | exact .failed _ _
        | exact .done (.swap _ _ _)
  | trans _ _ ih ih' =>
      exact (ih.trans ih').mono fun _ _ ⟨_, hfirst, hsecond⟩ => hfirst.trans hsecond

theorem readEntries_agree
    {reader : Reader α}
    (h : Steady reader Eq)
    {route route' : Route}
    {members : List (Content × Tree)}
    (hmembers : ∀ member ∈ members, Sortable route route' member.2) :
    Agree Eq (readEntries reader route members)
      (readEntries reader route' (members.map sortedMember)) := by
  induction members with
  | nil => exact .done rfl
  | cons member more ih =>
      rw [List.forall_mem_cons] at hmembers
      rw [List.map_cons, readEntries, sortedMember, readEntries]
      refine (Agree.refl (contentOf member.1)).bind fun key _ hkey => ?_
      refine (h route route' member.2 hmembers.1).bind fun value _ hvalue => ?_
      refine (ih hmembers.2).bind fun entries _ hentries => ?_
      subst hkey hvalue hentries
      exact .done rfl

/-- The entries of a listing come out in the order of the members. -/
theorem steady_listing
    {reader : Reader α}
    (h : Steady reader Eq) :
    Steady (readListing reader) List.Perm := by
  intro route route' tree hsortable
  cases tree with
  | object members stop =>
      obtain ⟨inner, inner', henter, henter', hmembers, rfl⟩ := hsortable.members
      have hread := (readEntries_agree h hmembers.values).trans
        (readEntries_perm reader inner' (sortedMembers_perm hmembers.distinct).symm)
      rw [Tree.sorted]
      simp only [readListing, henter, henter', ok_bind]
      refine hread.found.bind fun entries entries' hentries => .done ?_
      obtain ⟨hentries, -, _, rfl, hperm⟩ := hentries
      have hnames : (Listing.names entries).Nodup := by
        rw [names_readEntries hentries]
        exact hmembers.distinct
      have hnames' : (Listing.names entries').Nodup := (hperm.map Prod.fst).nodup_iff.mp hnames
      rw [Listing.ofEntries_of_nodup hnames, Listing.ofEntries_of_nodup hnames']
      exact hperm
  | _ => exact .failed _ _

end Json
end CqlDelta
