import CqlDelta.Proofs.Json.Recovery

/-!
# Records and what they read back

Both laws of a reader for records. A record yields a property that its initial value has and that
every declared value keeps (`Record.yields`). To recover a record it suffices to replay it: what is
written for the declared keys, one after another, leads from the initial record to the written one
(`Record.recovers`).
-/

namespace CqlDelta
namespace Json

variable {α β σ : Type}

theorem RecordField.update_eq_ok_iff
    {key : String}
    {absence : Absence}
    {reader : Reader α}
    {set : α → σ → σ}
    {route : Route}
    {tree : Tree}
    {step : σ → σ} :
    (RecordField.of key absence reader set).update route tree = .ok step ↔
      ∃ value, reader route tree = .ok value ∧ set value = step :=
  map_eq_ok_iff

/-! ## What a record yields -/

/-- The declared values along a route keep a property of records. -/
def KeptBy (P : σ → Prop) (route : Route) (tree : Tree) (fields : List (RecordField σ)) : Prop :=
  ∀ field ∈ fields, ∀ step, field.update route tree = .ok step → ∀ value, P value → P (step value)

theorem keptBy_nil
    {P : σ → Prop}
    {route : Route}
    {tree : Tree} :
    KeptBy P route tree [] := by
  intro field hfield
  simp at hfield

theorem keptBy_cons
    {P : σ → Prop}
    {route : Route}
    {tree : Tree}
    {key : String}
    {absence : Absence}
    {reader : Reader α}
    {set : α → σ → σ}
    {fields : List (RecordField σ)}
    (hset : ∀ read, reader route tree = .ok read → ∀ value, P value → P (set read value))
    (hmore : KeptBy P route tree fields) :
    KeptBy P route tree (.of key absence reader set :: fields) := by
  intro field hfield step hstep value hvalue
  rcases List.mem_cons.mp hfield with rfl | hfield
  · obtain ⟨read, hread, rfl⟩ := RecordField.update_eq_ok_iff.mp hstep
    exact hset read hread value hvalue
  · exact hmore field hfield step hstep value hvalue

theorem readMembers_keeps
    {P : σ → Prop}
    {fields : List (RecordField σ)}
    {route : Route}
    {stop : ObjectStop}
    {members : List (Content × Tree)}
    {seen : List String}
    {start value : σ}
    (hkept : ∀ member ∈ members, KeptBy P route member.2 fields)
    (hstart : P start)
    (h : Record.readMembers fields route stop members seen start = .ok value) :
    P value := by
  induction members generalizing seen start with
  | nil =>
      obtain ⟨-, -, h⟩ := bind_eq_ok_iff.mp h
      split at h
      · simp at h
      · obtain rfl := Except.ok.inj h
        exact hstart
  | cons member more ih =>
      obtain ⟨key, -, h⟩ := bind_eq_ok_iff.mp h
      have hmore : ∀ other ∈ more, KeptBy P route other.2 fields :=
        fun other hother => hkept other (List.mem_cons_of_mem _ hother)
      split at h
      · obtain ⟨-, -, h⟩ := bind_eq_ok_iff.mp h
        exact ih hmore hstart h
      · rename_i field hfield
        split at h
        · simp at h
        · obtain ⟨step, hstep, h⟩ := bind_eq_ok_iff.mp h
          have hmem := List.mem_of_find?_eq_some hfield
          exact ih hmore (hkept member (by simp) field hmem step hstep start hstart) h

theorem readElements_keeps
    {P : σ → Prop}
    {record : Record σ}
    {route : Route}
    {stop : ListStop}
    {fields : List (RecordField σ)}
    {index : Nat}
    {items : List Tree}
    {start value : σ}
    (hkept : ∀ item ∈ items, KeptBy P route item fields)
    (hstart : P start)
    (h : Record.readElements record route stop fields index items start = .ok value) :
    P value := by
  induction fields generalizing index items start with
  | nil =>
      obtain ⟨-, -, h⟩ := bind_eq_ok_iff.mp h
      obtain rfl := Except.ok.inj h
      exact hstart
  | cons field fields ih =>
      cases items with
      | nil =>
          obtain ⟨-, -, h⟩ := bind_eq_ok_iff.mp h
          split at h
          · exact ih (by simp) hstart h
          · simp at h
      | cons item items =>
          obtain ⟨step, hstep, h⟩ := bind_eq_ok_iff.mp h
          refine ih (fun other hother other' hother' => ?_) ?_ h
          · exact hkept other (List.mem_cons_of_mem _ hother) other'
              (List.mem_cons_of_mem _ hother')
          · exact hkept item (by simp) field (by simp) step hstep start hstart

/-- A record yields what its initial value has and every declared value keeps, with less room inside
than around it. -/
theorem Record.yields
    {record : Record σ}
    {P : Nat → σ → Prop}
    (hinitial : ∀ room, P room record.initial)
    (hkept : ∀ room route tree, route.room tree ≤ room → KeptBy (P room) route tree record.fields) :
    Yields record.read fun room value => ∃ inner, inner < room ∧ P inner value := by
  intro route tree value hread
  cases tree with
  | object members stop =>
      obtain ⟨inner, henter, hread⟩ := bind_eq_ok_iff.mp hread
      have htree : 0 < (Tree.object members stop).nesting := Nat.succ_pos _
      have hpos := room_pos_of_enter henter htree
      refine ⟨route.room (.object members stop) - 1, by omega, ?_⟩
      refine readMembers_keeps (fun member hmember => hkept _ inner member.2 ?_) (hinitial _) hread
      have := room_lt_of_enter henter (nesting_lt_of_mem_members hmember stop)
      omega
  | list items stop =>
      obtain ⟨inner, henter, hread⟩ := bind_eq_ok_iff.mp hread
      have htree : 0 < (Tree.list items stop).nesting := Nat.succ_pos _
      have hpos := room_pos_of_enter henter htree
      refine ⟨route.room (.list items stop) - 1, by omega, ?_⟩
      refine readElements_keeps (fun item hitem => hkept _ inner item ?_) (hinitial _) hread
      have := room_lt_of_enter henter (nesting_lt_of_mem_items hitem stop)
      omega
  | _ => simp [Record.read] at hread

/-! ## What a record recovers -/

/-- What is written for the declared keys leads from one record to another, as far as it can be read
ahead. -/
inductive Replays (route : Route) :
    List (RecordField σ) → List (String × Option Value) → σ → σ → Prop
  | nil (value : σ) : Replays route [] [] value value
  | absent {field : RecordField σ} {fields : List (RecordField σ)}
      {written : List (String × Option Value)} {start goal : σ} :
      field.absence ≠ .fatal →
      Replays route fields written start goal →
      Replays route (field :: fields) ((field.key, none) :: written) start goal
  | given {field : RecordField σ} {fields : List (RecordField σ)} {value : Value}
      {written : List (String × Option Value)} {step : σ → σ} {start goal : σ} :
      (readAny route value.toTree = .ok () → field.update route value.toTree = .ok step) →
      Replays route fields written (step start) goal →
      Replays route (field :: fields) ((field.key, some value) :: written) start goal

/-- The keys of declared values. -/
def fieldKeys (fields : List (RecordField σ)) : List String :=
  fields.map RecordField.key

/-- What is written for declared keys has these keys. -/
theorem Replays.keys
    {route : Route}
    {fields : List (RecordField σ)}
    {written : List (String × Option Value)}
    {start goal : σ}
    (h : Replays route fields written start goal) :
    written.map Prod.fst = fieldKeys fields := by
  induction h with
  | nil value => rfl
  | absent _ _ ih => exact congrArg (_ :: ·) ih
  | given _ _ ih => exact congrArg (_ :: ·) ih

theorem find?_key
    {front back : List (RecordField σ)}
    {field : RecordField σ}
    (hkeys : (fieldKeys (front ++ field :: back)).Nodup) :
    (front ++ field :: back).find? (fun other => other.key == field.key) = some field := by
  have hfront : front.find? (fun other => other.key == field.key) = none := by
    rw [List.find?_eq_none]
    intro other hother hkey
    rw [fieldKeys, List.map_append, List.map_cons] at hkeys
    refine (List.nodup_append.mp hkeys).2.2 other.key (List.mem_map_of_mem hother) field.key
      (by simp) ?_
    simpa using hkey
  simp [List.find?_append, hfront]

/-- An object is read to its end once no value that must be there is missing. -/
theorem finishObject_closed
    {fields : List (RecordField σ)}
    {seen : List String}
    (hfatal : ∀ field ∈ fields, field.absence = .fatal → field.key ∈ seen)
    (value : σ) :
    Record.finishObject fields .closed seen value = .ok value := by
  have hmissing : Record.missing? fields seen = none := by
    simp only [Record.missing?, Option.map_eq_none_iff, List.find?_eq_none]
    intro field hfield hnot
    simp only [Bool.and_eq_true, beq_iff_eq, Bool.not_eq_true', List.contains_eq_mem,
      decide_eq_false_iff_not] at hnot
    exact hnot.2 (hfatal field hfield hnot.1)
  simp [Record.finishObject, ObjectStop.readFault?, ending, hmissing]

theorem readMembers_replays
    {route : Route}
    (front : List (RecordField σ))
    {fields : List (RecordField σ)}
    {written : List (String × Option Value)}
    {start goal : σ}
    (h : Replays route fields written start goal)
    (hany : ∀ member ∈ Value.present written, readAny route member.2.toTree = .ok ())
    (hkeys : (fieldKeys (front ++ fields)).Nodup)
    (seen : List String)
    (hseen : ∀ key ∈ seen, key ∈ fieldKeys front)
    (hfatal : ∀ field ∈ front, field.absence = .fatal → field.key ∈ seen) :
    Record.readMembers (front ++ fields) route .closed
      (Value.treeMembersOf (Value.present written)) seen start = .ok goal := by
  induction h generalizing front seen with
  | nil value =>
      rw [List.append_nil]
      exact finishObject_closed hfatal value
  | @absent field fields written start goal habsence _ ih =>
      rw [List.append_cons] at hkeys ⊢
      refine ih (front ++ [field]) hany hkeys seen (fun key hkey => ?_)
        fun other hother hother' => ?_
      · rw [fieldKeys, List.map_append]
        exact List.mem_append_left _ (hseen key hkey)
      · rcases List.mem_append.mp hother with hfront | hfield
        · exact hfatal other hfront hother'
        · obtain rfl := List.mem_singleton.mp hfield
          exact absurd hother' habsence
  | @given field fields value written step start goal hstep _ ih =>
      have hnew : field.key ∉ seen := by
        intro hmem
        rw [fieldKeys, List.map_append, List.map_cons] at hkeys
        exact (List.nodup_append.mp hkeys).2.2 field.key (hseen _ hmem) field.key (by simp) rfl
      have hpresent : Value.present ((field.key, some value) :: written) =
          (field.key, value) :: Value.present written := rfl
      rw [hpresent, List.forall_mem_cons] at hany
      have hmore := ih (front ++ [field]) hany.2
        (by rwa [List.append_cons] at hkeys) (field.key :: seen)
        (fun key hkey => by
          rcases List.mem_cons.mp hkey with rfl | hold
          · simp [fieldKeys]
          · rw [fieldKeys, List.map_append]
            exact List.mem_append_left _ (hseen key hold))
        (fun other hother hother' => by
          rcases List.mem_append.mp hother with hfront | hfield
          · exact List.mem_cons_of_mem _ (hfatal other hfront hother')
          · obtain rfl := List.mem_singleton.mp hfield
            simp)
      rw [hpresent, Value.treeMembersOf, Record.readMembers, contentOf, ok_bind, find?_key hkeys]
      simp only [List.contains_eq_mem, hnew, decide_false, Bool.false_eq_true, if_false,
        hstep hany.1, ok_bind]
      rw [List.append_cons]
      exact hmore

/-- A record is recovered from the values that are written for its keys. -/
theorem Record.recovers
    {record : Record σ}
    {write : σ → Value}
    {value : σ}
    {written : List (String × Option Value)}
    (hwrite : write value = .object (Value.present written))
    (hkeys : (fieldKeys record.fields).Nodup)
    (h : ∀ route, Replays route record.fields written record.initial value) :
    Recovers record.read write value := by
  intro route hany
  rw [hwrite] at hany ⊢
  obtain ⟨inner, henter, hmembers⟩ := readAny_of_object hany
  have hread := readMembers_replays [] (h inner) hmembers hkeys [] (by simp) (by simp)
  simp only [Value.toTree, Record.read, henter, ok_bind]
  exact hread

/-- Members that are all written are all present. -/
theorem present_map_some
    (members : List (String × Value)) :
    Value.present (members.map fun member => (member.1, some member.2)) = members := by
  rw [Value.present, List.filterMap_map]
  exact List.filterMap_some

/-- A record of which every declared value is written is recovered from them. -/
theorem Record.recovers_all
    {record : Record σ}
    {write : σ → Value}
    {value : σ}
    {members : List (String × Value)}
    (hwrite : write value = .object members)
    (hkeys : (fieldKeys record.fields).Nodup)
    (h : ∀ route,
      Replays route record.fields (members.map fun member => (member.1, some member.2))
        record.initial value) :
    Recovers record.read write value := by
  have hpresent := present_map_some members
  exact Record.recovers (hwrite.trans (congrArg Value.object hpresent.symm)) hkeys h

/-- The step of a declared key whose written value is recovered. -/
theorem Replays.field
    {route : Route}
    {key : String}
    {absence : Absence}
    {reader : Reader α}
    {write : α → Value}
    {set : α → σ → σ}
    {fields : List (RecordField σ)}
    {read : α}
    {written : List (String × Option Value)}
    {start goal : σ}
    (hread : Recovers reader write read)
    (h : Replays route fields written (set read start) goal) :
    Replays route (.of key absence reader set :: fields) ((key, some (write read)) :: written)
      start goal :=
  .given (fun hany => RecordField.update_eq_ok_iff.mpr ⟨read, hread route hany, rfl⟩) h

end Json
end CqlDelta
