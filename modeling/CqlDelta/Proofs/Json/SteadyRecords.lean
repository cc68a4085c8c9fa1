import CqlDelta.Proofs.Json.Sorting
import Mathlib.Data.List.Pairwise

/-!
# Records of sorted trees

Each member of an object updates a record under its declared key, or is passed over. If no key is
repeated, reading an object is applying these updates (`readMembers_eq_applyAll`). Where the updates
of different keys commute a record can be read from sorted members, so it is steady if its declared
values are (`Record.steady`).
-/

namespace CqlDelta
namespace Json

variable {α σ : Type}

/-! ## Members as updates -/

section Updates

variable {update : Route → Content × Tree → Except ReadError (σ → σ)}

/-- What members do commutes if what is done under different keys does. -/
theorem commuting_of_keys
    {route : Route}
    (hcommute : ∀ member other step step',
      keyText member.1 ≠ keyText other.1 →
        update route member = .ok step → update route other = .ok step' →
          ∀ value, step (step' value) = step' (step value))
    {members : List (Content × Tree)}
    (hdistinct : (memberKeys members).Nodup) :
    Commuting (members.map (update route)) := by
  intro first hfirst second hsecond step step' hstep hstep' value
  obtain ⟨member, hmember, rfl⟩ := List.mem_map.mp hfirst
  obtain ⟨other, hother, rfl⟩ := List.mem_map.mp hsecond
  by_cases hkey : keyText member.1 = keyText other.1
  · obtain rfl := eq_of_memberKeys hdistinct hmember hother hkey
    obtain rfl := Except.ok.inj (hstep.symm.trans hstep')
    rfl
  · exact hcommute member other step step' hkey hstep hstep' value

/-- What sorted members do, in any order, is the same up to a relation if each does the same up to
it, and what is done under different keys commutes. -/
theorem applyAll_sorted
    {R : σ → σ → Prop}
    {route route' : Route}
    {members members' : List (Content × Tree)}
    (h : SortableMembers route route' members)
    (hperm : members'.Perm (members.map sortedMember))
    (hagree : ∀ member ∈ members,
      Agree (Respects R) (update route member) (update route' (sortedMember member)))
    (hcommute : ∀ member other step step',
      keyText member.1 ≠ keyText other.1 →
        update route' member = .ok step → update route' other = .ok step' →
          ∀ value, step (step' value) = step' (step value))
    {value value' : σ}
    (hvalue : R value value') :
    Agree R (applyAll (members.map (update route)) value)
      (applyAll (members'.map (update route')) value') := by
  have hsame : List.Forall₂ (Agree (Respects R)) (members.map (update route))
      ((members.map sortedMember).map (update route')) := by
    rw [List.map_map, List.forall₂_map_left_iff, List.forall₂_map_right_iff, List.forall₂_same]
    exact hagree
  have hdistinct : (memberKeys (members.map sortedMember)).Nodup :=
    (memberKeys_map_sorted members).symm ▸ h.distinct
  exact (applyAll_agree hsame hvalue).trans_eq
    (applyAll_perm (hperm.symm.map (update route')) (commuting_of_keys hcommute hdistinct) value')

end Updates

/-! ## Members of a record -/

/-- What a member does to a record. -/
def memberUpdate
    (fields : List (RecordField σ))
    (route : Route)
    (member : Content × Tree) :
    Except ReadError (σ → σ) :=
  match fields.find? fun field => field.key == keyText member.1 with
  | none => .ok id
  | some field => field.update route member.2

theorem missing?_congr
    {fields : List (RecordField σ)}
    {seen seen' : List String}
    (h : ∀ field ∈ fields, field.key ∈ seen ↔ field.key ∈ seen') :
    Record.missing? fields seen = Record.missing? fields seen' := by
  rw [Record.missing?, Record.missing?, ← List.head?_filter, ← List.head?_filter]
  refine congrArg (Option.map _ <| List.head? ·) (List.filter_congr fun field hfield => ?_)
  simp [h field hfield]

theorem finishObject_congr
    {fields : List (RecordField σ)}
    {seen seen' : List String}
    (h : ∀ field ∈ fields, field.key ∈ seen ↔ field.key ∈ seen')
    (stop : ObjectStop)
    (value : σ) :
    Record.finishObject fields stop seen value = Record.finishObject fields stop seen' value := by
  rw [Record.finishObject, Record.finishObject, missing?_congr h]

/-- Reading members under different keys is applying what they do. -/
theorem readMembers_eq_applyAll
    {fields : List (RecordField σ)}
    {route : Route}
    {members : List (Content × Tree)}
    (h : ReadableMembers route members)
    (stop : ObjectStop)
    (seen : List String)
    (hseen : ∀ key ∈ memberKeys members, key ∉ seen)
    (value : σ) :
    Record.readMembers fields route stop members seen value =
      applyAll (members.map (memberUpdate fields route)) value >>=
        Record.finishObject fields stop (memberKeys members ++ seen) := by
  induction members generalizing seen value with
  | nil => rfl
  | cons member more ih =>
      obtain ⟨content, tree⟩ := member
      obtain ⟨⟨⟨key, rfl⟩, hany⟩, hkey, hmore⟩ := readableMembers_cons.mp h
      obtain ⟨hnew, hseen⟩ := List.forall_mem_cons.mp hseen
      have hkeys : memberKeys ((.ok key, tree) :: more) = key :: memberKeys more := rfl
      rw [Record.readMembers, contentOf, ok_bind, List.map_cons, applyAll, memberUpdate, hkeys]
      cases hfield : fields.find? fun field => field.key == keyText (.ok key) with
      | none =>
          have hfield' : fields.find? (fun field => field.key == key) = none := hfield
          rw [hfield']
          simp only [passOver_of_readAny hany, ok_bind, id_eq]
          rw [ih hmore seen hseen]
          refine congrArg (_ >>= ·) (funext fun value => finishObject_congr ?_ stop value)
          intro field hmem
          have hne : field.key ≠ key := by
            simpa using List.find?_eq_none.mp hfield' field hmem
          simp [hne]
      | some field =>
          have hfield' : fields.find? (fun field => field.key == key) = some field := hfield
          have hnew : key ∉ seen := hnew
          have hnew' : seen.contains key = false := by simpa using hnew
          rw [hfield']
          simp only [hnew', Bool.false_eq_true, if_false]
          cases field.update route tree with
          | error fault => rfl
          | ok step =>
              simp only [ok_bind]
              have hseen' : ∀ other ∈ memberKeys more, other ∉ key :: seen := by
                intro other hother
                rw [List.mem_cons, not_or]
                exact ⟨fun heq => hkey (heq ▸ hother), hseen other hother⟩
              rw [ih hmore (key :: seen) hseen']
              refine congrArg (_ >>= ·) (funext fun value => finishObject_congr ?_ stop value)
              intro field hmem
              simp only [List.mem_append, List.mem_cons]
              tauto

/-! ## Declared values -/

/-- The updates of two declared keys commute. -/
def RecordField.CommutesWith (field other : RecordField σ) : Prop :=
  ∀ route tree step route' tree' step',
    field.update route tree = .ok step → other.update route' tree' = .ok step' →
      ∀ value, step (step' value) = step' (step value)

instance : Std.Symm (@RecordField.CommutesWith σ) where
  symm := fun _ _ h route tree step route' tree' step' hstep hstep' value =>
    (h route' tree' step' route tree step hstep' hstep value).symm

/-- What is set under one key does not touch what is set under another. -/
theorem RecordField.commutesWith_of
    {β : Type}
    {key key' : String}
    {absence absence' : Absence}
    {reader : Reader α}
    {reader' : Reader β}
    {set : α → σ → σ}
    {set' : β → σ → σ}
    (h : ∀ read read' value, set read (set' read' value) = set' read' (set read value)) :
    (RecordField.of key absence reader set).CommutesWith (.of key' absence' reader' set') := by
  intro route tree step route' tree' step' hstep hstep' value
  obtain ⟨read, -, rfl⟩ := map_eq_ok_iff.mp hstep
  obtain ⟨read', -, rfl⟩ := map_eq_ok_iff.mp hstep'
  exact h read read' value

/-- The update of a declared key is the same in a sorted tree, up to a relation. -/
def RecordField.SteadyIn (R : σ → σ → Prop) (field : RecordField σ) : Prop :=
  ∀ route route' tree, Sortable route route' tree →
    Agree (Respects R) (field.update route tree) (field.update route' tree.sorted)

theorem RecordField.steadyIn_of
    {S : α → α → Prop}
    {R : σ → σ → Prop}
    {key : String}
    {absence : Absence}
    {reader : Reader α}
    {set : α → σ → σ}
    (hreader : Steady reader S)
    (hset : ∀ read read', S read read' → Respects R (set read) (set read')) :
    (RecordField.of key absence reader set).SteadyIn R :=
  fun route route' tree h => (hreader route route' tree h).map hset

/-- A declared value that is the same, and that is set in related records alike. -/
theorem RecordField.steadyIn_same
    {R : σ → σ → Prop}
    {reader : Reader α}
    {set : α → σ → σ}
    (hreader : Steady reader Eq)
    (hset : ∀ read, Respects R (set read) (set read))
    (key : String)
    (absence : Absence) :
    (RecordField.of key absence reader set).SteadyIn R :=
  RecordField.steadyIn_of hreader fun read _ hread => hread ▸ hset read

theorem memberUpdate_commute
    {fields : List (RecordField σ)}
    (hcommute : fields.Pairwise RecordField.CommutesWith)
    (route : Route)
    (member other : Content × Tree)
    (step step' : σ → σ)
    (hkey : keyText member.1 ≠ keyText other.1)
    (hstep : memberUpdate fields route member = .ok step)
    (hstep' : memberUpdate fields route other = .ok step')
    (value : σ) :
    step (step' value) = step' (step value) := by
  rw [memberUpdate] at hstep hstep'
  split at hstep
  · obtain rfl := Except.ok.inj hstep
    rfl
  · rename_i field hfield
    split at hstep'
    · obtain rfl := Except.ok.inj hstep'
      rfl
    · rename_i field' hfield'
      have hname : field.key = keyText member.1 := by simpa using List.find?_some hfield
      have hname' : field'.key = keyText other.1 := by simpa using List.find?_some hfield'
      have hne : field ≠ field' := by
        rintro rfl
        exact hkey (hname.symm.trans hname')
      have hfields := hcommute.forall (List.mem_of_find?_eq_some hfield)
        (List.mem_of_find?_eq_some hfield') hne
      exact hfields route member.2 step route other.2 step' hstep hstep' value

/-! ## Objects and lists -/

section Steady

variable {R : σ → σ → Prop} {fields : List (RecordField σ)} {route route' : Route}

theorem memberUpdate_agree
    (hfields : ∀ field ∈ fields, field.SteadyIn R)
    {member : Content × Tree}
    (h : Sortable route route' member.2) :
    Agree (Respects R) (memberUpdate fields route member)
      (memberUpdate fields route' (sortedMember member)) := by
  rw [memberUpdate, memberUpdate, sortedMember]
  cases hfield : fields.find? fun field => field.key == keyText member.1 with
  | none => exact .done fun _ _ hvalue => hvalue
  | some field =>
      exact hfields field (List.mem_of_find?_eq_some hfield) route route' member.2 h

/-- Sorted members, in any order, are read in agreement. -/
theorem readMembers_agree
    (hfields : ∀ field ∈ fields, field.SteadyIn R)
    (hcommute : fields.Pairwise RecordField.CommutesWith)
    {members members' : List (Content × Tree)}
    (h : SortableMembers route route' members)
    (hperm : members'.Perm (members.map sortedMember))
    {value value' : σ}
    (hvalue : R value value') :
    Agree R (Record.readMembers fields route .closed members [] value)
      (Record.readMembers fields route' .closed members' [] value') := by
  have hupdates := applyAll_sorted h hperm
    (fun member hmember => memberUpdate_agree hfields (h.values member hmember))
    (memberUpdate_commute hcommute route') hvalue
  rw [readMembers_eq_applyAll h.plain .closed [] (by simp) value,
    readMembers_eq_applyAll (h.sorted hperm) .closed [] (by simp) value']
  refine hupdates.bind fun record record' hrecord => ?_
  have hseen : ∀ field ∈ fields,
      field.key ∈ memberKeys members ++ [] ↔ field.key ∈ memberKeys members' ++ [] := by
    intro field _
    rw [List.append_nil, List.append_nil, (perm_memberKeys hperm).mem_iff]
  rw [finishObject_congr hseen, Record.finishObject, Record.finishObject]
  simp only [ObjectStop.readFault?, ending, ok_bind]
  cases Record.missing? fields (memberKeys members' ++ []) with
  | none => exact .done hrecord
  | some key => exact .failed _ _

theorem finishList_agree
    (count : Nat)
    (left left' : List Tree)
    (h : left.isEmpty = left'.isEmpty) :
    Agree Eq (Record.finishList route count left .closed)
      (Record.finishList route' count left' .closed) := by
  cases hempty : left.isEmpty with
  | true =>
      have hclosed (route : Route) (left : List Tree) (hleft : left.isEmpty = true) :
          Record.finishList route count left .closed = .ok () := by
        cases route <;> simp [Record.finishList, hleft, ListStop.closingFault?, ending]
      rw [hclosed route left hempty, hclosed route' left' (h ▸ hempty)]
      exact .done rfl
  | false =>
      have hsurplus (route : Route) (left : List Tree) (hleft : left.isEmpty = false) :
          ∃ fault, Record.finishList route count left .closed = .error fault := by
        cases route <;> simp [Record.finishList, hleft]
      obtain ⟨fault, hfault⟩ := hsurplus route left hempty
      obtain ⟨fault', hfault'⟩ := hsurplus route' left' (h ▸ hempty)
      rw [hfault, hfault']
      exact .failed fault fault'

theorem readElements_agree
    (record : Record σ)
    (hfields : ∀ field ∈ fields, field.SteadyIn R)
    {items : List Tree}
    (hitems : ∀ item ∈ items, Sortable route route' item)
    (index : Nat)
    {value value' : σ}
    (hvalue : R value value') :
    Agree R (Record.readElements record route .closed fields index items value)
      (Record.readElements record route' .closed fields index (items.map Tree.sorted) value') := by
  induction fields generalizing index items value value' with
  | nil =>
      rw [Record.readElements, Record.readElements]
      refine (finishList_agree index items _ ?_).bind fun _ _ _ => .done hvalue
      cases items <;> rfl
  | cons field fields ih =>
      rw [List.forall_mem_cons] at hfields
      cases items with
      | nil =>
          rw [List.map_nil, Record.readElements, Record.readElements]
          simp only [ListStop.readFault?, ending, ok_bind]
          cases field.absence with
          | fine => exact ih hfields.2 hitems index hvalue
          | fatal => exact .failed _ _
          | optional => exact .failed _ _
      | cons item items =>
          rw [List.forall_mem_cons] at hitems
          rw [List.map_cons, Record.readElements, Record.readElements]
          refine (hfields.1 route route' item hitems.1).bind fun step step' hstep => ?_
          exact ih hfields.2 hitems.2 (index + 1) (hstep value value' hvalue)

/-- A record whose declared values are the same in sorted trees, and touch each their own, is the
same in sorted trees. -/
theorem Record.steady
    {record : Record σ}
    (hfields : ∀ field ∈ record.fields, field.SteadyIn R)
    (hcommute : record.fields.Pairwise RecordField.CommutesWith)
    (hinitial : R record.initial record.initial) :
    Steady record.read R := by
  intro route route' tree h
  cases tree with
  | object members stop =>
      obtain ⟨inner, inner', henter, henter', hmembers, rfl⟩ := h.members
      rw [Tree.sorted]
      simp only [Record.read, henter, henter', ok_bind]
      exact readMembers_agree hfields hcommute hmembers (sortedMembers_perm hmembers.distinct)
        hinitial
  | list items stop =>
      obtain ⟨inner, inner', henter, henter', hitems, rfl⟩ := h.items
      rw [Tree.sorted, sortedItems_eq_map]
      simp only [Record.read, henter, henter', ok_bind]
      exact readElements_agree record hfields hitems 0 hinitial
  | _ => exact .failed _ _

end Steady

end Json
end CqlDelta
