import CqlDelta.Proofs.Json.Records
import CqlDelta.Proofs.Json.SteadyRecords

/-!
# Records of edited members

What a record becomes when one of its members is edited. The updates of different keys commute, so
that the update of one key may as well come last: if a member gets another value, the record becomes
what the new update makes of the old record (`readMembers_replace`, `readElements_replace`). A
member under a key that is not declared does not count (`readMembers_undeclared_iff`), and one under
a new key comes on top of the others (`readMembers_insert`).
-/

namespace CqlDelta
namespace Json

variable {σ : Type} {fields : List (RecordField σ)} {route : Route}

/-! ## Objects -/

section Objects

variable {stop : ObjectStop}

/-- An object is read to its end just if it is closed and nothing is missing. -/
theorem finishObject_eq_ok_iff
    {seen : List String}
    {start value : σ} :
    Record.finishObject fields stop seen start = .ok value ↔
      stop.readFault? = none ∧ Record.missing? fields seen = none ∧ start = value := by
  rw [Record.finishObject, bind_eq_ok_iff, exists_unit, ending_eq_ok_iff]
  cases Record.missing? fields seen <;> simp

/-- One step of reading members. -/
theorem readMembers_cons_iff
    {content : Content}
    {tree : Tree}
    {more : List (Content × Tree)}
    {seen : List String}
    {start value : σ} :
    Record.readMembers fields route stop ((content, tree) :: more) seen start = .ok value ↔
      ∃ key, content = .ok key ∧
        ((key ∉ fieldKeys fields ∧ passOver tree = .ok () ∧
            Record.readMembers fields route stop more seen start = .ok value) ∨
          ∃ field step, fields.find? (fun field => field.key == key) = some field ∧ key ∉ seen ∧
            field.update route tree = .ok step ∧
              Record.readMembers fields route stop more (key :: seen) (step start) = .ok value) := by
  rw [Record.readMembers, bind_eq_ok_iff]
  simp only [contentOf_eq_ok_iff]
  refine exists_congr fun key => and_congr_right fun _ => ?_
  cases hfield : fields.find? fun field => field.key == key with
  | none =>
      have hkey : key ∉ fieldKeys fields := by
        simpa [fieldKeys] using hfield
      simp [hkey, bind_eq_ok_iff, exists_unit]
  | some field =>
      have hkey : key ∈ fieldKeys fields := by
        have hname : field.key = key := by simpa using List.find?_some hfield
        exact hname ▸ List.mem_map_of_mem (List.mem_of_find?_eq_some hfield)
      by_cases hseen : key ∈ seen
      · simp [hkey, hseen]
      · simp [hkey, hseen, bind_eq_ok_iff]

/-- Keys that do not come up may count as seen. -/
theorem readMembers_seen
    {members : List (Content × Tree)}
    {seen seen' : List String}
    {start value : σ}
    (hseen : ∀ key ∈ memberKeys members, key ∉ seen → key ∉ seen')
    (hmore : seen ⊆ seen')
    (h : Record.readMembers fields route stop members seen start = .ok value) :
    Record.readMembers fields route stop members seen' start = .ok value := by
  induction members generalizing seen seen' start with
  | nil =>
      obtain ⟨hstop, hmissing, rfl⟩ := finishObject_eq_ok_iff.mp h
      refine finishObject_eq_ok_iff.mpr ⟨hstop, ?_, rfl⟩
      simp only [Record.missing?, Option.map_eq_none_iff, List.find?_eq_none] at hmissing ⊢
      intro field hfield hnot
      refine hmissing field hfield ?_
      simp only [Bool.and_eq_true, Bool.not_eq_true', List.contains_eq_mem,
        decide_eq_false_iff_not] at hnot ⊢
      exact ⟨hnot.1, fun hmem => hnot.2 (hmore hmem)⟩
  | cons member more ih =>
      obtain ⟨key, hkey, hread⟩ := readMembers_cons_iff.mp h
      obtain ⟨content, tree⟩ := member
      obtain rfl : content = .ok key := hkey
      obtain ⟨hnew, hseen⟩ := List.forall_mem_cons.mp hseen
      refine readMembers_cons_iff.mpr ⟨key, rfl, ?_⟩
      rcases hread with ⟨hundeclared, hpass, hread⟩ | ⟨field, step, hfield, hfresh, hstep, hread⟩
      · exact .inl ⟨hundeclared, hpass, ih hseen hmore hread⟩
      · refine .inr ⟨field, step, hfield, hnew hfresh, hstep, ih ?_ ?_ hread⟩
        · intro other hother hother'
          rw [List.mem_cons, not_or] at hother' ⊢
          exact ⟨hother'.1, hseen other hother hother'.2⟩
        · exact List.cons_subset_cons key hmore

/-- An update whose key does not come up any more may as well come last. -/
theorem readMembers_push
    {members : List (Content × Tree)}
    {seen : List String}
    {field : RecordField σ}
    {route' : Route}
    {tree' : Tree}
    {step : σ → σ}
    {start value : σ}
    (hcommute : fields.Pairwise RecordField.CommutesWith)
    (hfield : field ∈ fields)
    (hstep : field.update route' tree' = .ok step)
    (hkey : field.key ∈ seen ∨ field.key ∉ memberKeys members)
    (h : Record.readMembers fields route stop members seen start = .ok value) :
    Record.readMembers fields route stop members seen (step start) = .ok (step value) := by
  induction members generalizing seen start with
  | nil =>
      obtain ⟨hstop, hmissing, rfl⟩ := finishObject_eq_ok_iff.mp h
      exact finishObject_eq_ok_iff.mpr ⟨hstop, hmissing, rfl⟩
  | cons member more ih =>
      obtain ⟨content, tree⟩ := member
      obtain ⟨key, rfl, hread⟩ := readMembers_cons_iff.mp h
      have hmore (seen' : List String) (hseen : seen ⊆ seen') :
          field.key ∈ seen' ∨ field.key ∉ memberKeys more :=
        hkey.imp (fun hmem => hseen hmem) fun hnew hmem => hnew (List.mem_cons_of_mem _ hmem)
      refine readMembers_cons_iff.mpr ⟨key, rfl, ?_⟩
      rcases hread with ⟨hundeclared, hpass, hread⟩ | ⟨other, step', hother, hnew, hstep', hread⟩
      · exact .inl ⟨hundeclared, hpass, ih (hmore seen (List.Subset.refl _)) hread⟩
      · have hother' : other.key = key := by simpa using List.find?_some hother
        have hne : field ≠ other := by
          rintro rfl
          rcases hkey with hseen | hfresh
          · exact hnew (hother' ▸ hseen)
          · exact hfresh (by simp [memberKeys, keyText, hother'])
        have hcomm := hcommute.forall hfield (List.mem_of_find?_eq_some hother) hne
        have hread' := ih (hmore (key :: seen) (List.subset_cons_self _ _)) hread
        rw [hcomm _ _ _ _ _ _ hstep hstep' start] at hread'
        exact .inr ⟨other, step', hother, hnew, hstep', hread'⟩

/-- A member under a key that is not declared is passed over. -/
theorem readMembers_undeclared_iff
    {front back : List (Content × Tree)}
    {key : String}
    {tree : Tree}
    {seen : List String}
    {start value : σ}
    (hkey : key ∉ fieldKeys fields) :
    Record.readMembers fields route stop (front ++ (.ok key, tree) :: back) seen start = .ok value ↔
      passOver tree = .ok () ∧
        Record.readMembers fields route stop (front ++ back) seen start = .ok value := by
  have hfind : fields.find? (fun field => field.key == key) = none := by
    simpa [fieldKeys] using hkey
  induction front generalizing seen start with
  | nil =>
      rw [List.nil_append, readMembers_cons_iff]
      simp [hkey, hfind]
  | cons member front ih =>
      rw [List.cons_append, readMembers_cons_iff, List.cons_append, readMembers_cons_iff]
      simp only [ih]
      grind

/-- If a member gets another value, its new update is made to the record. -/
theorem readMembers_replace
    {front back : List (Content × Tree)}
    {key : String}
    {field : RecordField σ}
    {tree : Tree}
    {seen : List String}
    {start value : σ}
    (hcommute : fields.Pairwise RecordField.CommutesWith)
    (hfield : fields.find? (fun field => field.key == key) = some field)
    (h : Record.readMembers fields route stop (front ++ (.ok key, tree) :: back) seen start =
      .ok value) :
    ∃ step, field.update route tree = .ok step ∧
      ∀ tree' step', field.update route tree' = .ok step' →
        (∀ record, step' (step record) = step' record) →
          Record.readMembers fields route stop (front ++ (.ok key, tree') :: back) seen start =
            .ok (step' value) := by
  have hmem := List.mem_of_find?_eq_some hfield
  have hname : field.key = key := by simpa using List.find?_some hfield
  have hdeclared : key ∈ fieldKeys fields := hname ▸ List.mem_map_of_mem hmem
  induction front generalizing seen start with
  | nil =>
      obtain ⟨_, ⟨⟩, ⟨hundeclared, -⟩ | ⟨other, step, hother, hnew, hstep, hread⟩⟩ :=
        readMembers_cons_iff.mp h
      · exact absurd hdeclared hundeclared
      · obtain rfl := Option.some.inj (hfield.symm.trans hother)
        refine ⟨step, hstep, fun tree' step' hstep' hover => ?_⟩
        have hpush := readMembers_push hcommute hmem hstep' (.inl (by simp [hname])) hread
        rw [hover start] at hpush
        exact readMembers_cons_iff.mpr ⟨key, rfl, .inr ⟨field, step', hfield, hnew, hstep', hpush⟩⟩
  | cons member front ih =>
      obtain ⟨content, other⟩ := member
      obtain ⟨key', rfl, ⟨hundeclared, hpass, hread⟩ | ⟨field', first, hfield', hnew, hfirst, hread⟩⟩ :=
        readMembers_cons_iff.mp h
      · obtain ⟨step, hstep, hreplace⟩ := ih hread
        refine ⟨step, hstep, fun tree' step' hstep' hover => readMembers_cons_iff.mpr ?_⟩
        exact ⟨key', rfl, .inl ⟨hundeclared, hpass, hreplace tree' step' hstep' hover⟩⟩
      · obtain ⟨step, hstep, hreplace⟩ := ih hread
        refine ⟨step, hstep, fun tree' step' hstep' hover => readMembers_cons_iff.mpr ?_⟩
        exact ⟨key', rfl,
          .inr ⟨field', first, hfield', hnew, hfirst, hreplace tree' step' hstep' hover⟩⟩

/-- If a member comes in under a declared key that is not there yet, its update is made to the
record. -/
theorem readMembers_insert
    {front back : List (Content × Tree)}
    {key : String}
    {field : RecordField σ}
    {tree : Tree}
    {step : σ → σ}
    {seen : List String}
    {start value : σ}
    (hcommute : fields.Pairwise RecordField.CommutesWith)
    (hfield : fields.find? (fun field => field.key == key) = some field)
    (hstep : field.update route tree = .ok step)
    (hkey : key ∉ memberKeys (front ++ back))
    (hseen : key ∉ seen)
    (h : Record.readMembers fields route stop (front ++ back) seen start = .ok value) :
    Record.readMembers fields route stop (front ++ (.ok key, tree) :: back) seen start =
      .ok (step value) := by
  have hmem := List.mem_of_find?_eq_some hfield
  have hname : field.key = key := by simpa using List.find?_some hfield
  induction front generalizing seen start with
  | nil =>
      have hpush := readMembers_push hcommute hmem hstep (.inr (hname ▸ hkey)) h
      have hfresh : ∀ other ∈ memberKeys back, other ∉ seen → other ∉ key :: seen := by
        intro other hother hnew
        rw [List.mem_cons, not_or]
        exact ⟨fun heq => hkey (heq ▸ hother), hnew⟩
      have hread := readMembers_seen hfresh (List.subset_cons_self _ _) hpush
      exact readMembers_cons_iff.mpr ⟨key, rfl, .inr ⟨field, step, hfield, hseen, hstep, hread⟩⟩
  | cons member front ih =>
      obtain ⟨content, other⟩ := member
      rw [List.cons_append, memberKeys, List.map_cons, List.mem_cons, not_or] at hkey
      obtain ⟨key', rfl, ⟨hundeclared, hpass, hread⟩ | ⟨field', first, hfield', hnew, hfirst, hread⟩⟩ :=
        readMembers_cons_iff.mp h
      · exact readMembers_cons_iff.mpr
          ⟨key', rfl, .inl ⟨hundeclared, hpass, ih hkey.2 hseen hread⟩⟩
      · have hseen' : key ∉ key' :: seen := by
          rw [List.mem_cons, not_or]
          exact ⟨hkey.1, hseen⟩
        exact readMembers_cons_iff.mpr
          ⟨key', rfl, .inr ⟨field', first, hfield', hnew, hfirst, ih hkey.2 hseen' hread⟩⟩

end Objects

/-! ## Lists -/

section Lists

variable {record : Record σ} {stop : ListStop}

/-- One step of reading elements. -/
theorem readElements_cons_iff
    {field : RecordField σ}
    {more : List (RecordField σ)}
    {index : Nat}
    {item : Tree}
    {items : List Tree}
    {start value : σ} :
    Record.readElements record route stop (field :: more) index (item :: items) start = .ok value ↔
      ∃ step, field.update route item = .ok step ∧
        Record.readElements record route stop more (index + 1) items (step start) = .ok value := by
  rw [Record.readElements, bind_eq_ok_iff]

/-- An update that commutes with those of the declared values that are left may as well come
last. -/
theorem readElements_push
    {field : RecordField σ}
    {route' : Route}
    {tree' : Tree}
    {step : σ → σ}
    {index : Nat}
    {items : List Tree}
    {start value : σ}
    (hcommute : ∀ other ∈ fields, field.CommutesWith other)
    (hstep : field.update route' tree' = .ok step)
    (h : Record.readElements record route stop fields index items start = .ok value) :
    Record.readElements record route stop fields index items (step start) = .ok (step value) := by
  induction fields generalizing index items start with
  | nil =>
      obtain ⟨⟨⟩, hfinish, hvalue⟩ := bind_eq_ok_iff.mp h
      obtain rfl := Except.ok.inj hvalue
      exact bind_eq_ok_iff.mpr ⟨(), hfinish, rfl⟩
  | cons other fields ih =>
      rw [List.forall_mem_cons] at hcommute
      cases items with
      | nil =>
          obtain ⟨⟨⟩, hstop, hread⟩ := bind_eq_ok_iff.mp h
          refine bind_eq_ok_iff.mpr ⟨(), hstop, ?_⟩
          split at hread
          · exact ih hcommute.2 hread
          · simp at hread
      | cons item items =>
          obtain ⟨step', hstep', hread⟩ := readElements_cons_iff.mp h
          have hread' := ih hcommute.2 hread
          rw [hcommute.1 _ _ _ _ _ _ hstep hstep' start] at hread'
          exact readElements_cons_iff.mpr ⟨step', hstep', hread'⟩

/-- If an element gets another value, its new update is made to the record. -/
theorem readElements_replace
    {front back : List Tree}
    {item : Tree}
    {field : RecordField σ}
    {index : Nat}
    {start value : σ}
    (hcommute : fields.Pairwise RecordField.CommutesWith)
    (hfield : fields[front.length]? = some field)
    (h : Record.readElements record route stop fields index (front ++ item :: back) start =
      .ok value) :
    ∃ step, field.update route item = .ok step ∧
      ∀ item' step', field.update route item' = .ok step' →
        (∀ record, step' (step record) = step' record) →
          Record.readElements record route stop fields index (front ++ item' :: back) start =
            .ok (step' value) := by
  induction front generalizing fields index start with
  | nil =>
      cases fields with
      | nil => simp at hfield
      | cons first more =>
          obtain rfl : first = field := by simpa using hfield
          rw [List.pairwise_cons] at hcommute
          obtain ⟨step, hstep, hread⟩ := readElements_cons_iff.mp h
          refine ⟨step, hstep, fun item' step' hstep' hover => ?_⟩
          have hpush := readElements_push hcommute.1 hstep' hread
          rw [hover start] at hpush
          exact readElements_cons_iff.mpr ⟨step', hstep', hpush⟩
  | cons other front ih =>
      cases fields with
      | nil => simp at hfield
      | cons first more =>
          obtain ⟨step₁, hstep₁, hread⟩ := readElements_cons_iff.mp h
          obtain ⟨step, hstep, hreplace⟩ :=
            ih (List.pairwise_cons.mp hcommute).2 (by simpa using hfield) hread
          refine ⟨step, hstep, fun item' step' hstep' hover => ?_⟩
          exact readElements_cons_iff.mpr ⟨step₁, hstep₁, hreplace item' step' hstep' hover⟩

end Lists

end Json
end CqlDelta
