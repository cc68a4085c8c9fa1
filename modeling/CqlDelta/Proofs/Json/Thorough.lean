import CqlDelta.Proofs.Json.Records
import CqlDelta.Proofs.Json.Spellings

/-!
# Thorough readers

A reader is thorough if it finds every flaw of a text: what it reads straight from a text without an
error could also be passed over without one. This is carried here from the simple readers to
optional values, lists, listings and records, which pass over the members that they do not know.
-/

namespace CqlDelta
namespace Json

variable {α σ : Type}

/-- What is read straight from a text has no flaw. -/
def Thorough (reader : Reader α) : Prop :=
  ∀ levels tree value, reader (.text levels) tree = .ok value → passOver tree = .ok ()

/-- Inside what is read straight from a text, too, trees are read straight from it. -/
theorem enter_text
    {levels : Nat}
    {inner : Route}
    (h : (Route.text levels).enter = .ok inner) :
    ∃ less, levels = less + 1 ∧ inner = .text less := by
  cases levels with
  | zero => simp [Route.enter] at h
  | succ less => exact ⟨less, rfl, (Except.ok.inj h).symm⟩

theorem passOver_text
    (content : Content) :
    passOver (.text content) = .ok () :=
  rfl

theorem thorough_string : Thorough readString := by
  intro levels tree value h
  cases tree with
  | text content => exact passOver_text content
  | _ => simp [readString] at h

theorem passOver_of_isNull
    {tree : Tree}
    (h : tree.isNull = true) :
    passOver tree = .ok () := by
  cases tree <;> first | rfl | simp [Tree.isNull] at h

/-- What is read ahead has no flaw, whatever is made of it. -/
theorem thorough_lenient
    {reader : Reader α}
    (h : ∀ route tree value, reader route tree = .ok value → readAny route tree = .ok ()) :
    Thorough reader :=
  fun levels tree value hread => passOver_of_readAny (h (.text levels) tree value hread)

theorem thorough_option
    {reader : Reader α}
    (h : Thorough reader) :
    Thorough (readOption reader) := by
  intro levels tree value hread
  rw [readOption] at hread
  split at hread
  next hnull => exact passOver_of_isNull hnull
  next =>
    obtain ⟨inner, hinner, -⟩ := map_eq_ok_iff.mp hread
    exact h levels tree inner hinner

theorem Thorough.items
    {reader : Reader α}
    (h : Thorough reader)
    {levels : Nat}
    {items : List Tree}
    {values : List α}
    (hread : readItems reader (.text levels) items = .ok values) :
    ∀ item ∈ items, passOver item = .ok () := by
  induction items generalizing values with
  | nil => simp
  | cons item more ih =>
      obtain ⟨first, hfirst, hread⟩ := bind_eq_ok_iff.mp hread
      obtain ⟨others, hothers, -⟩ := bind_eq_ok_iff.mp hread
      exact List.forall_mem_cons.mpr ⟨h levels item first hfirst, ih hothers⟩

theorem Thorough.entries
    {reader : Reader α}
    (h : Thorough reader)
    {levels : Nat}
    {members : List (Content × Tree)}
    {entries : List (String × α)}
    (hread : readEntries reader (.text levels) members = .ok entries) :
    ∀ member ∈ members, passOver member.2 = .ok () := by
  induction members generalizing entries with
  | nil => simp
  | cons member more ih =>
      obtain ⟨key, -, hread⟩ := bind_eq_ok_iff.mp hread
      obtain ⟨first, hfirst, hread⟩ := bind_eq_ok_iff.mp hread
      obtain ⟨others, hothers, -⟩ := bind_eq_ok_iff.mp hread
      exact List.forall_mem_cons.mpr ⟨h levels member.2 first hfirst, ih hothers⟩

theorem thorough_list
    {reader : Reader α}
    (h : Thorough reader) :
    Thorough (readList reader) := by
  intro levels tree values hread
  cases tree with
  | list items stop =>
      obtain ⟨inner, henter, hread⟩ := bind_eq_ok_iff.mp hread
      obtain ⟨less, -, rfl⟩ := enter_text henter
      obtain ⟨found, hfound, hread⟩ := bind_eq_ok_iff.mp hread
      obtain ⟨⟨⟩, hstop, -⟩ := bind_eq_ok_iff.mp hread
      exact passOver_list_iff.mpr
        ⟨h.items hfound, stop_eq_closed (ending_eq_ok_iff.mp hstop)⟩
  | _ => simp [readList] at hread

theorem thorough_listing
    {reader : Reader α}
    (h : Thorough reader) :
    Thorough (readListing reader) := by
  intro levels tree listing hread
  cases tree with
  | object members stop =>
      obtain ⟨inner, henter, hread⟩ := bind_eq_ok_iff.mp hread
      obtain ⟨less, -, rfl⟩ := enter_text henter
      obtain ⟨entries, hentries, hread⟩ := bind_eq_ok_iff.mp hread
      obtain ⟨⟨⟩, hstop, -⟩ := bind_eq_ok_iff.mp hread
      exact passOver_object_iff.mpr
        ⟨h.entries hentries, objectStop_eq_closed (ending_eq_ok_iff.mp hstop)⟩
  | _ => simp [readListing] at hread

/-! ## Records -/

/-- What is read straight from a text for a declared key has no flaw. -/
def RecordField.Thorough (field : RecordField σ) : Prop :=
  Json.Thorough field.update

theorem RecordField.thorough_of
    {key : String}
    {absence : Absence}
    {reader : Reader α}
    {set : α → σ → σ}
    (h : Json.Thorough reader) :
    (RecordField.of key absence reader set).Thorough := by
  intro levels tree step hstep
  obtain ⟨value, hvalue, -⟩ := RecordField.update_eq_ok_iff.mp hstep
  exact h levels tree value hvalue

theorem passOver_of_readMembers
    {fields : List (RecordField σ)}
    {levels : Nat}
    {stop : ObjectStop}
    {members : List (Content × Tree)}
    {seen : List String}
    {start value : σ}
    (hfields : ∀ member ∈ members, ∀ field ∈ fields, ∀ step,
      field.update (.text levels) member.2 = .ok step → passOver member.2 = .ok ())
    (h : Record.readMembers fields (.text levels) stop members seen start = .ok value) :
    passOver (.object members stop) = .ok () := by
  rw [passOver_object_iff]
  induction members generalizing seen start with
  | nil =>
      obtain ⟨⟨⟩, hstop, -⟩ := bind_eq_ok_iff.mp h
      exact ⟨by simp, objectStop_eq_closed (ending_eq_ok_iff.mp hstop)⟩
  | cons member more ih =>
      obtain ⟨key, -, h⟩ := bind_eq_ok_iff.mp h
      rw [List.forall_mem_cons] at hfields
      rw [List.forall_mem_cons, and_assoc]
      split at h
      next =>
        obtain ⟨⟨⟩, hpass, h⟩ := bind_eq_ok_iff.mp h
        exact ⟨hpass, ih hfields.2 h⟩
      next field hfield =>
        split at h
        · simp at h
        · obtain ⟨step, hstep, h⟩ := bind_eq_ok_iff.mp h
          have hmem := List.mem_of_find?_eq_some hfield
          exact ⟨hfields.1 field hmem step hstep, ih hfields.2 h⟩

theorem passOver_of_readElements
    {record : Record σ}
    {fields : List (RecordField σ)}
    (hfields : ∀ field ∈ fields, field.Thorough)
    {levels index : Nat}
    {stop : ListStop}
    {items : List Tree}
    {start value : σ}
    (h : Record.readElements record (.text levels) stop fields index items start = .ok value) :
    passOver (.list items stop) = .ok () := by
  rw [passOver_list_iff]
  induction fields generalizing index items start with
  | nil =>
      obtain ⟨⟨⟩, hfinish, -⟩ := bind_eq_ok_iff.mp h
      simp only [Record.finishList] at hfinish
      split at hfinish
      next hempty =>
        obtain rfl := List.isEmpty_iff.mp hempty
        have hstop := ending_eq_ok_iff.mp hfinish
        refine ⟨by simp, ?_⟩
        cases stop <;> first | rfl | simp [ListStop.closingFault?] at hstop
      next => simp at hfinish
  | cons field fields ih =>
      rw [List.forall_mem_cons] at hfields
      cases items with
      | nil =>
          obtain ⟨⟨⟩, hstop, -⟩ := bind_eq_ok_iff.mp h
          exact ⟨by simp, stop_eq_closed (ending_eq_ok_iff.mp hstop)⟩
      | cons item items =>
          obtain ⟨step, hstep, h⟩ := bind_eq_ok_iff.mp h
          rw [List.forall_mem_cons, and_assoc]
          exact ⟨hfields.1 levels item step hstep, ih hfields.2 h⟩

/-- A record is read thoroughly if its declared values are. -/
theorem Record.thorough
    {record : Record σ}
    (h : ∀ field ∈ record.fields, field.Thorough) :
    Json.Thorough record.read := by
  intro levels tree value hread
  cases tree with
  | object members stop =>
      obtain ⟨inner, henter, hread⟩ := bind_eq_ok_iff.mp hread
      obtain ⟨less, -, rfl⟩ := enter_text henter
      exact passOver_of_readMembers (fun member _ field hfield => h field hfield less member.2) hread
  | list items stop =>
      obtain ⟨inner, henter, hread⟩ := bind_eq_ok_iff.mp hread
      obtain ⟨less, -, rfl⟩ := enter_text henter
      exact passOver_of_readElements h hread
  | _ => simp [Record.read] at hread

end Json
end CqlDelta
