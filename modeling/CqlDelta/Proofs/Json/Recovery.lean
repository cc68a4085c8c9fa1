import CqlDelta.Json.Record
import CqlDelta.Proofs.Json.Routes

/-!
# Readers and what they read back

Two laws of a reader. It *yields* a property if whatever it returns has the property in the room
of its route; this bounds how deep the returned value nests when it is written. It *recovers* a
value if the written value is read back as that value, along every route along which it can be read
ahead. Both are carried here from the simple readers to optional values, lists, listings and
records.
-/

namespace CqlDelta
namespace Json

variable {α σ : Type}

/-- Whatever the reader returns has a property in the room of its route. -/
def Yields (reader : Reader α) (P : Nat → α → Prop) : Prop :=
  ∀ route tree value, reader route tree = .ok value → P (route.room tree) value

/-- The written value is read back, wherever it can be read ahead. -/
def Recovers (reader : Reader α) (write : α → Value) (value : α) : Prop :=
  ∀ route, readAny route (write value).toTree = .ok () →
    reader route (write value).toTree = .ok value

theorem Yields.mono
    {reader : Reader α}
    {P Q : Nat → α → Prop}
    (h : Yields reader P)
    (himp : ∀ room value, P room value → Q room value) :
    Yields reader Q :=
  fun route tree value hread => himp _ value (h route tree value hread)

/-! ## Optional values and lists -/

theorem yields_option
    {reader : Reader α}
    {P : Nat → α → Prop}
    (h : Yields reader P) :
    Yields (readOption reader) fun room value => ∀ inner, value = some inner → P room inner := by
  intro route tree value hread inner hinner
  subst hinner
  unfold readOption at hread
  split at hread
  · simp at hread
  · obtain ⟨found, hfound, hsome⟩ := map_eq_ok_iff.mp hread
    obtain rfl := Option.some.inj hsome
    exact h route tree found hfound

/-- An optional value that was read has its property in any greater room as well. -/
theorem Yields.within
    {reader : Reader α}
    {P : Nat → α → Prop}
    {route : Route}
    {tree : Tree}
    {room : Nat}
    {read : Option α}
    (h : Yields reader P)
    (hmono : ∀ {less more : Nat} {value : α}, less ≤ more → P less value → P more value)
    (hroom : route.room tree ≤ room)
    (hread : readOption reader route tree = .ok read) :
    ∀ inner, read = some inner → P room inner :=
  fun inner hinner => hmono hroom (yields_option h route tree read hread inner hinner)

theorem readItems_mem
    {reader : Reader α}
    {route : Route}
    {items : List Tree}
    {values : List α}
    (h : readItems reader route items = .ok values) :
    ∀ value ∈ values, ∃ item ∈ items, reader route item = .ok value := by
  induction items generalizing values with
  | nil =>
      obtain rfl := Except.ok.inj h
      simp
  | cons item more ih =>
      obtain ⟨first, hfirst, h⟩ := bind_eq_ok_iff.mp h
      obtain ⟨others, hothers, h⟩ := bind_eq_ok_iff.mp h
      obtain rfl := Except.ok.inj h
      intro value hvalue
      rcases List.mem_cons.mp hvalue with rfl | hmore
      · exact ⟨item, by simp, hfirst⟩
      · obtain ⟨other, hother, hread⟩ := ih hothers value hmore
        exact ⟨other, by simp [hother], hread⟩

/-- The elements of a list have less room than the list. -/
theorem yields_list
    {reader : Reader α}
    {P : Nat → α → Prop}
    (h : Yields reader P) :
    Yields (readList reader) fun room values =>
      0 < room ∧ ∀ value ∈ values, ∃ inner, inner < room ∧ P inner value := by
  intro route tree values hread
  cases tree with
  | list items stop =>
      obtain ⟨inner, henter, hread⟩ := bind_eq_ok_iff.mp hread
      obtain ⟨found, hfound, hread⟩ := bind_eq_ok_iff.mp hread
      obtain ⟨-, -, hread⟩ := bind_eq_ok_iff.mp hread
      obtain rfl := Except.ok.inj hread
      refine ⟨room_pos_of_enter henter (by simp [Tree.nesting]), fun value hvalue => ?_⟩
      obtain ⟨item, hitem, hread⟩ := readItems_mem hfound value hvalue
      exact ⟨inner.room item, room_lt_of_enter henter (nesting_lt_of_mem_items hitem stop),
        h inner item value hread⟩
  | _ => simp [readList] at hread

theorem recovers_list
    {reader : Reader α}
    {write : α → Value}
    {values : List α}
    (h : ∀ value ∈ values, Recovers reader write value) :
    Recovers (readList reader) (fun values => .list (values.map write)) values := by
  intro route hany
  obtain ⟨inner, henter, hitems⟩ := readAny_of_list hany
  have hread :
      readItems reader inner (values.map fun value => (write value).toTree) = .ok values := by
    clear hany
    induction values with
    | nil => rfl
    | cons value more ih =>
        have hvalue := h value (by simp) inner (hitems (write value) (by simp))
        have hmore := ih (fun other hother => h other (by simp [hother]))
          (fun item hitem => hitems item (by
            rw [List.map_cons]
            exact List.mem_cons_of_mem _ hitem))
        simp [readItems, hvalue, hmore, pure, Except.pure]
  simp only [Value.toTree, treesOf_eq_map, List.map_map, readList, henter, ok_bind]
  rw [show (Value.toTree ∘ write) = fun value => (write value).toTree from rfl, hread]
  rfl

/-! ## Listings -/

theorem readEntries_mem
    {reader : Reader α}
    {route : Route}
    {members : List (Content × Tree)}
    {entries : List (String × α)}
    (h : readEntries reader route members = .ok entries) :
    ∀ entry ∈ entries, ∃ member ∈ members, reader route member.2 = .ok entry.2 := by
  induction members generalizing entries with
  | nil =>
      obtain rfl := Except.ok.inj h
      simp
  | cons member more ih =>
      obtain ⟨key, -, h⟩ := bind_eq_ok_iff.mp h
      obtain ⟨value, hvalue, h⟩ := bind_eq_ok_iff.mp h
      obtain ⟨others, hothers, h⟩ := bind_eq_ok_iff.mp h
      obtain rfl := Except.ok.inj h
      intro entry hentry
      rcases List.mem_cons.mp hentry with rfl | hmore
      · exact ⟨member, by simp, hvalue⟩
      · obtain ⟨other, hother, hread⟩ := ih hothers entry hmore
        exact ⟨other, by simp [hother], hread⟩

/-- The entries of a listing have less room than the listing, and their names are distinct. -/
theorem yields_listing
    {reader : Reader α}
    {P : Nat → α → Prop}
    (h : Yields reader P) :
    Yields (readListing reader) fun room listing =>
      0 < room ∧ (Listing.names listing).Nodup ∧
        ∀ entry ∈ listing, ∃ inner, inner < room ∧ P inner entry.2 := by
  intro route tree listing hread
  cases tree with
  | object members stop =>
      obtain ⟨inner, henter, hread⟩ := bind_eq_ok_iff.mp hread
      obtain ⟨entries, hentries, hread⟩ := bind_eq_ok_iff.mp hread
      obtain ⟨-, -, hread⟩ := bind_eq_ok_iff.mp hread
      obtain rfl := Except.ok.inj hread
      refine ⟨room_pos_of_enter henter (by simp [Tree.nesting]),
        Listing.nodup_names_ofEntries entries, fun entry hentry => ?_⟩
      obtain ⟨member, hmember, hread⟩ := readEntries_mem hentries entry
        (Listing.mem_of_mem_ofEntries hentry)
      exact ⟨inner.room member.2,
        room_lt_of_enter henter (nesting_lt_of_mem_members hmember stop),
        h inner member.2 entry.2 hread⟩
  | _ => simp [readListing] at hread

theorem recovers_listing
    {reader : Reader α}
    {write : α → Value}
    {listing : Listing α}
    (hnames : (Listing.names listing).Nodup)
    (h : ∀ entry ∈ listing, Recovers reader write entry.2) :
    Recovers (readListing reader)
      (fun listing => .object (listing.map fun entry => (entry.1, write entry.2))) listing := by
  intro route hany
  obtain ⟨inner, henter, hmembers⟩ := readAny_of_object hany
  have hread :
      readEntries reader inner
        (listing.map fun entry => (.ok entry.1, (write entry.2).toTree)) = .ok listing := by
    clear hany hnames
    induction listing with
    | nil => rfl
    | cons entry more ih =>
        have hvalue := h entry (by simp) inner (hmembers (entry.1, write entry.2) (by simp))
        have hmore := ih (fun other hother => h other (by simp [hother]))
          (fun member hmember => hmembers member (by
            rw [List.map_cons]
            exact List.mem_cons_of_mem _ hmember))
        simp [readEntries, contentOf, hvalue, hmore, pure, Except.pure]
  simp only [Value.toTree, treeMembersOf_eq_map, List.map_map, readListing, henter, ok_bind]
  rw [show ((fun member : String × Value => ((.ok member.1 : Content), member.2.toTree)) ∘
      fun entry : String × α => (entry.1, write entry.2)) =
    fun entry => (.ok entry.1, (write entry.2).toTree) from rfl, hread]
  simp [ending, ObjectStop.readFault?, Listing.ofEntries_of_nodup hnames, pure, Except.pure]

end Json
end CqlDelta
