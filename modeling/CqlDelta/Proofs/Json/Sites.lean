import CqlDelta.Proofs.Json.Places
import CqlDelta.Proofs.Json.RecordEdits

/-!
# Places that can be edited

A *site* is a place in a tree where a reader leaves something open: a *leaf*, where any value may
stand and only determines a part of what is read, or an *object* with declared keys, which may get
members that say nothing. Sites are named here for lists, listings, optional values and records, and
readers of these are *sound* for them: after an edit that a site admits, the tree is still read, and
it is read as the site says (`sound_list`, `sound_listing`, `Record.sound`).
-/

namespace CqlDelta

/-! ## Changed entries of listings -/

namespace Listing

variable {α : Type}

/-- Changes the entry under a name. -/
def change (name : String) (update : α → α) : Listing α → Listing α
  | [] => []
  | (key, entry) :: rest =>
      if key = name then (key, update entry) :: rest else (key, entry) :: change name update rest

/-- Changes what comes from the entry at a position, where all names that were put in are given: a
later entry under the same name stands in its place. -/
def changeAt (names : List String) (index : Nat) (update : α → α) (listing : Listing α) :
    Listing α :=
  match names[index]? with
  | none => listing
  | some name =>
      if name ∈ names.drop (index + 1) then listing else change name update listing

theorem change_put_self
    (name : String)
    (entry : α)
    (update : α → α)
    (listing : Listing α) :
    change name update (put name entry listing) = put name (update entry) listing := by
  induction listing with
  | nil => simp [put, change]
  | cons head rest ih =>
      obtain ⟨key, old⟩ := head
      by_cases hkey : key = name
      · simp [put, change, hkey]
      · simp [put, change, hkey, ih]

theorem put_change_self
    (name : String)
    (entry : α)
    (update : α → α)
    (listing : Listing α) :
    put name entry (change name update listing) = put name entry listing := by
  induction listing with
  | nil => rfl
  | cons head rest ih =>
      obtain ⟨key, old⟩ := head
      by_cases hkey : key = name
      · simp [put, change, hkey]
      · simp [put, change, hkey, ih]

theorem put_change_other
    {name other : String}
    (hne : other ≠ name)
    (entry : α)
    (update : α → α)
    (listing : Listing α) :
    put other entry (change name update listing) = change name update (put other entry listing) := by
  induction listing with
  | nil => simp [put, change, hne]
  | cons head rest ih =>
      obtain ⟨key, old⟩ := head
      by_cases hkey : key = name
      · subst hkey
        simp [put, change, Ne.symm hne]
      · by_cases hkey' : key = other
        · subst hkey'
          simp [put, change, hkey]
        · simp [put, change, hkey, hkey', ih]

/-- A changed entry stays changed unless one of the entries behind it has the same name. -/
theorem foldl_put_change
    (name : String)
    (update : α → α)
    (back : List (String × α))
    (listing : Listing α) :
    back.foldl (fun listing entry => put entry.1 entry.2 listing) (change name update listing) =
      if name ∈ names back then
        back.foldl (fun listing entry => put entry.1 entry.2 listing) listing
      else
        change name update (back.foldl (fun listing entry => put entry.1 entry.2 listing) listing) := by
  induction back generalizing listing with
  | nil => rfl
  | cons entry back ih =>
      obtain ⟨other, content⟩ := entry
      rw [List.foldl_cons, List.foldl_cons]
      by_cases hname : other = name
      · subst hname
        simp [put_change_self]
      · rw [put_change_other hname, ih]
        simp [Ne.symm hname]

/-- The listing of entries of which one is changed. -/
theorem ofEntries_change
    (front back : List (String × α))
    (name : String)
    (entry : α)
    (update : α → α) :
    ofEntries (front ++ (name, update entry) :: back) =
      changeAt (names (front ++ (name, entry) :: back)) front.length update
        (ofEntries (front ++ (name, entry) :: back)) := by
  have hname : (names (front ++ (name, entry) :: back))[front.length]? = some name := by
    simp [names]
  have hback : (names (front ++ (name, entry) :: back)).drop (front.length + 1) = names back := by
    simp [names, List.drop_append]
  rw [changeAt, hname]
  simp only [hback, ofEntries, List.foldl_append, List.foldl_cons]
  rw [← change_put_self, foldl_put_change]

@[simp]
theorem changeAt_id
    (names : List String)
    (index : Nat)
    (listing : Listing α) :
    changeAt names index id listing = listing := by
  have hid (name : String) (listing : Listing α) : change name id listing = listing := by
    induction listing with
    | nil => rfl
    | cons head rest ih => simp [change, ih]
  rw [changeAt]
  split <;> simp [hid]

end Listing

namespace Json

variable {α σ : Type}

/-! ## Sites -/

/-- What a reader leaves open in a place. -/
inductive Site (σ : Type) where
  /-- Any value may stand there, and the function says what it does to what is read. -/
  | leaf (put : Tree → σ → σ)
  /-- Members may be added to an object: under keys that are not declared, and under optional keys
  that are absent. -/
  | object (declared optional : List String)

/-- What is read after another tree came into the place. -/
def Site.put : Site σ → Tree → σ → σ
  | .leaf put, new => put new
  | .object _ _, _ => id

/-- A site of a part as one of the whole. -/
def Site.lift (lift : (α → α) → σ → σ) : Site α → Site σ
  | .leaf put => .leaf fun new => lift (put new)
  | .object declared optional => .object declared optional

/-- The places that a reader leaves open, by their paths. -/
abbrev Sites (σ : Type) := Tree → List Nat → Site σ → Prop

theorem Site.put_lift
    {lift : (α → α) → σ → σ}
    {value : σ}
    (hid : lift id value = value)
    (site : Site α)
    (new : Tree) :
    (site.lift lift).put new value = lift (site.put new) value := by
  cases site with
  | leaf put => rfl
  | object declared optional => exact hid.symm

/-- The route along which a tree at some depth is reached. -/
def Route.down : Route → Nat → Except ReadError Route
  | route, 0 => .ok route
  | route, depth + 1 => do
      let inner ← route.enter
      inner.down depth

/-- Behind its first step a route goes on from where that leads. -/
theorem Route.down_of_enter
    {route inside inner : Route}
    {depth : Nat}
    (hdown : route.down (depth + 1) = .ok inner)
    (henter : route.enter = .ok inside) :
    inside.down depth = .ok inner := by
  rwa [Route.down, henter, ok_bind] at hdown

/-- A tree may take the place of another one in a site that is reached along a route. -/
inductive Site.Admits (route : Route) : Site σ → Tree → Tree → Prop
  | same {put : Tree → σ → σ} (old : Tree) : Admits route (.leaf put) old old
  | leaf {put : Tree → σ → σ} {old new : Tree} (h : readAny route new = .ok ()) :
      Admits route (.leaf put) old new
  | object {declared optional : List String} {inner : Route} {front back : List (Content × Tree)}
      {stop : ObjectStop} {key : String} {value : Tree}
      (enter : route.enter = .ok inner)
      (readable : readAny inner value = .ok ())
      (harmless : key ∉ declared ∨
        key ∈ optional ∧ key ∉ memberKeys (front ++ back) ∧ value = .null) :
      Admits route (.object declared optional) (.object (front ++ back) stop)
        (.object (front ++ (.ok key, value) :: back) stop)

theorem Site.Admits.of_lift
    {lift : (α → α) → σ → σ}
    {site : Site α}
    {route : Route}
    {old new : Tree}
    (h : (site.lift lift).Admits route old new) :
    site.Admits route old new := by
  cases site with
  | leaf put =>
      cases h with
      | same => exact .same old
      | leaf hnew => exact .leaf hnew
  | object declared optional =>
      cases h with
      | object enter readable harmless => exact .object enter readable harmless

theorem Site.Admits.ahead
    {site : Site σ}
    {route : Route}
    {old new : Tree}
    (h : site.Admits route old new) :
    site.Admits .ahead old new := by
  cases h with
  | same => exact .same old
  | leaf hnew => exact .leaf (readAny_ahead hnew)
  | object enter readable harmless => exact .object rfl (readAny_ahead readable) harmless

@[simp]
theorem Route.down_ahead (depth : Nat) : Route.ahead.down depth = .ok .ahead := by
  induction depth with
  | zero => rfl
  | succ depth ih => exact ih

/-- What can be read ahead can be read straight from a text that has room for it. -/
theorem readAny_text
    {route : Route}
    {tree : Tree}
    {levels : Nat}
    (h : readAny route tree = .ok ())
    (hroom : tree.nesting ≤ levels) :
    readAny (.text levels) tree = .ok () := by
  induction tree using Tree.nested_induction generalizing route levels with
  | leaf tree hleaf =>
      cases tree with
      | list items stop => simp [Tree.nesting] at hleaf
      | object members stop => simp [Tree.nesting] at hleaf
      | _ => exact h
  | list items stop ih =>
      obtain ⟨less, rfl⟩ : ∃ less, levels = less + 1 :=
        ⟨levels - 1, by rw [Tree.nesting] at hroom; omega⟩
      obtain ⟨inner, -, hitems, hstop⟩ := readAny_list_iff.mp h
      refine readAny_list_iff.mpr ⟨.text less, rfl, fun item hitem => ?_, hstop⟩
      have hlt := nesting_lt_of_mem_items hitem stop
      exact ih item hitem (hitems item hitem) (by omega)
  | object members stop ih =>
      obtain ⟨less, rfl⟩ : ∃ less, levels = less + 1 :=
        ⟨levels - 1, by rw [Tree.nesting] at hroom; omega⟩
      obtain ⟨inner, -, hmembers, hstop⟩ := readAny_object_iff.mp h
      refine readAny_object_iff.mpr ⟨.text less, rfl, fun member hmember => ?_, hstop⟩
      obtain ⟨hkey, hvalue⟩ := hmembers member hmember
      have hlt := nesting_lt_of_mem_members hmember stop
      exact ⟨hkey, ih member hmember hvalue (by omega)⟩

/-- A place in a text leaves the room that the way to it does not take. -/
theorem Route.down_text
    (depth levels : Nat) :
    (Route.text (depth + levels)).down depth = .ok (.text levels) := by
  induction depth with
  | zero => rw [Nat.zero_add, Route.down]
  | succ depth ih =>
      rw [Nat.add_right_comm, Route.down]
      exact ih

/-- After an edit in a place the tree can still be read ahead. -/
theorem readAny_replaceAt
    {route inner : Route}
    {tree old new : Tree}
    {path : List Nat}
    {site : Site σ}
    (h : readAny route tree = .ok ())
    (hdown : route.down path.length = .ok inner)
    (hold : tree.valueAt? path = some old)
    (hnew : site.Admits inner old new) :
    readAny route (tree.replaceAt path new) = .ok () := by
  induction path generalizing route tree with
  | nil =>
      obtain rfl := Except.ok.inj hdown
      obtain rfl := Option.some.inj hold
      rw [Tree.replaceAt_nil]
      cases hnew with
      | same => exact h
      | leaf hnew => exact hnew
      | object enter readable harmless =>
          obtain ⟨inside, henter, hmembers, hstop⟩ := readAny_object_iff.mp h
          obtain rfl := Except.ok.inj (henter.symm.trans enter)
          refine readAny_object_iff.mpr ⟨inside, henter, ?_, hstop⟩
          rw [List.forall_mem_append] at hmembers ⊢
          exact ⟨hmembers.1, List.forall_mem_cons.mpr ⟨⟨⟨_, rfl⟩, readable⟩, hmembers.2⟩⟩
  | cons index path ih =>
      obtain ⟨child, hchild, ⟨front, back, stop, rfl, rfl⟩ | ⟨front, key, back, stop, rfl, rfl⟩⟩ :=
        Tree.valueAt?_cons hold
      · obtain ⟨inside, henter, hitems, hstop⟩ := readAny_list_iff.mp h
        have hbelow := Route.down_of_enter hdown henter
        rw [List.forall_mem_append, List.forall_mem_cons] at hitems
        rw [Tree.replaceAt_list]
        refine readAny_list_iff.mpr ⟨inside, henter, ?_, hstop⟩
        rw [List.forall_mem_append, List.forall_mem_cons]
        exact ⟨hitems.1, ih hitems.2.1 hbelow hchild, hitems.2.2⟩
      · obtain ⟨inside, henter, hmembers, hstop⟩ := readAny_object_iff.mp h
        have hbelow := Route.down_of_enter hdown henter
        rw [List.forall_mem_append, List.forall_mem_cons] at hmembers
        rw [Tree.replaceAt_object]
        refine readAny_object_iff.mpr ⟨inside, henter, ?_, hstop⟩
        rw [List.forall_mem_append, List.forall_mem_cons]
        exact ⟨hmembers.1, ⟨hmembers.2.1.1, ih hmembers.2.1.2 hbelow hchild⟩, hmembers.2.2⟩

/-- After an edit in a place the tree is read as the site says. -/
def SoundAt (reader : Reader α) (tree : Tree) (path : List Nat) (site : Site α) : Prop :=
  ∀ route inner value old new,
    reader route tree = .ok value → route.down path.length = .ok inner →
      tree.valueAt? path = some old → site.Admits inner old new →
        reader route (tree.replaceAt path new) = .ok (site.put new value)

/-- After an edit in any of the places the tree is read as the site says. -/
def Sound (reader : Reader α) (sites : Sites α) : Prop :=
  ∀ tree path site, sites tree path site → SoundAt reader tree path site

/-- No place at all. -/
def Sites.none : Sites σ :=
  fun _ _ _ => False

/-- A value that is read leniently. -/
inductive LeafSites (put : Tree → α) : Sites α
  | here (tree : Tree) : LeafSites put tree [] (.leaf fun new _ => put new)

theorem sound_lenient
    {reader : Reader α}
    {put : Tree → α}
    (h : ∀ route tree value,
      reader route tree = .ok value ↔ readAny route tree = .ok () ∧ put tree = value) :
    Sound reader (LeafSites put) := by
  rintro tree path site ⟨⟩ route inner value old new hread hdown hold hnew
  obtain rfl := Except.ok.inj hdown
  obtain rfl := Option.some.inj hold
  rw [Tree.replaceAt_nil]
  cases hnew with
  | same => exact (h route tree _).mpr ⟨((h route tree value).mp hread).1, rfl⟩
  | leaf hnew => exact (h route new _).mpr ⟨hnew, rfl⟩

/-- An optional value. -/
inductive OptionSites (sites : Sites α) : Sites (Option α)
  | some {tree : Tree} {path : List Nat} {site : Site α} (h : sites tree path site) :
      OptionSites sites tree path (site.lift Option.map)

/-- An object or a list stays one as long as it is not replaced as a whole. -/
theorem isNull_replaceAt
    {route : Route}
    {tree old new : Tree}
    {path : List Nat}
    {site : Site α}
    (hroot : path = [] → ∃ declared optional, site = .object declared optional)
    (hold : tree.valueAt? path = some old)
    (hnew : site.Admits route old new) :
    tree.isNull = false ∧ (tree.replaceAt path new).isNull = false := by
  cases path with
  | nil =>
      obtain ⟨declared, optional, rfl⟩ := hroot rfl
      obtain rfl := Option.some.inj hold
      cases hnew
      exact ⟨rfl, rfl⟩
  | cons index path =>
      obtain ⟨child, -, ⟨front, back, stop, rfl, rfl⟩ | ⟨front, key, back, stop, rfl, rfl⟩⟩ :=
        Tree.valueAt?_cons hold
      · exact ⟨rfl, by rw [Tree.replaceAt_list]; rfl⟩
      · exact ⟨rfl, by rw [Tree.replaceAt_object]; rfl⟩

theorem sound_option
    {reader : Reader α}
    {sites : Sites α}
    (h : Sound reader sites)
    (hroot : ∀ tree site, sites tree [] site → ∃ declared optional, site = .object declared optional) :
    Sound (readOption reader) (OptionSites sites) := by
  rintro tree path _ ⟨hsite⟩ route inner value old new hread hdown hold hnew
  have hnew := hnew.of_lift
  obtain ⟨hnull, hnull'⟩ := isNull_replaceAt (fun hpath => hroot tree _ (hpath ▸ hsite)) hold hnew
  rw [readOption, if_neg (by simp [hnull])] at hread
  obtain ⟨content, hcontent, rfl⟩ := map_eq_ok_iff.mp hread
  have hread' := h tree path _ hsite route inner content old new hcontent hdown hold hnew
  rw [readOption, if_neg (by simp [hnull']), hread', Site.put_lift Option.map_id_apply]
  rfl

/-! ## Lists and listings -/

/-- An element of a list. -/
inductive ItemSites (sites : Sites α) : Sites (List α)
  | item {items : List Tree} {stop : ListStop} {index : Nat} {child : Tree} {path : List Nat}
      {site : Site α}
      (there : items[index]? = some child)
      (h : sites child path site) :
      ItemSites sites (.list items stop) (index :: path)
        (site.lift fun update values => values.modify index update)

/-- An entry of a listing. -/
inductive EntrySites (sites : Sites α) : Sites (Listing α)
  | entry {members : List (Content × Tree)} {stop : ObjectStop} {index : Nat} {key : Content}
      {child : Tree} {path : List Nat} {site : Site α}
      (there : members[index]? = some (key, child))
      (h : sites child path site) :
      EntrySites sites (.object members stop) (index :: path)
        (site.lift (Listing.changeAt (memberKeys members) index))

theorem readItems_replace
    {reader : Reader α}
    {route : Route}
    {front back : List Tree}
    {item : Tree}
    {values : List α}
    (h : readItems reader route (front ++ item :: back) = .ok values) :
    ∃ before value after, values = before ++ value :: after ∧ before.length = front.length ∧
      reader route item = .ok value ∧
        ∀ item' value', reader route item' = .ok value' →
          readItems reader route (front ++ item' :: back) = .ok (before ++ value' :: after) := by
  induction front generalizing values with
  | nil =>
      obtain ⟨value, hvalue, h⟩ := bind_eq_ok_iff.mp h
      obtain ⟨after, hafter, h⟩ := bind_eq_ok_iff.mp h
      obtain rfl := Except.ok.inj h
      refine ⟨[], value, after, rfl, rfl, hvalue, fun item' value' hvalue' => ?_⟩
      exact bind_eq_ok_iff.mpr ⟨value', hvalue', bind_eq_ok_iff.mpr ⟨after, hafter, rfl⟩⟩
  | cons other front ih =>
      obtain ⟨first, hfirst, h⟩ := bind_eq_ok_iff.mp h
      obtain ⟨others, hothers, h⟩ := bind_eq_ok_iff.mp h
      obtain rfl := Except.ok.inj h
      obtain ⟨before, value, after, rfl, hlength, hvalue, hreplace⟩ := ih hothers
      refine ⟨first :: before, value, after, rfl, by simp [hlength], hvalue,
        fun item' value' hvalue' => ?_⟩
      exact bind_eq_ok_iff.mpr ⟨first, hfirst,
        bind_eq_ok_iff.mpr ⟨_, hreplace item' value' hvalue', rfl⟩⟩

theorem readEntries_replace
    {reader : Reader α}
    {route : Route}
    {front back : List (Content × Tree)}
    {key : Content}
    {tree : Tree}
    {entries : List (String × α)}
    (h : readEntries reader route (front ++ (key, tree) :: back) = .ok entries) :
    ∃ before name value after, entries = before ++ (name, value) :: after ∧
      before.length = front.length ∧ reader route tree = .ok value ∧
        ∀ tree' value', reader route tree' = .ok value' →
          readEntries reader route (front ++ (key, tree') :: back) =
            .ok (before ++ (name, value') :: after) := by
  induction front generalizing entries with
  | nil =>
      obtain ⟨name, hname, h⟩ := bind_eq_ok_iff.mp h
      obtain ⟨value, hvalue, h⟩ := bind_eq_ok_iff.mp h
      obtain ⟨after, hafter, h⟩ := bind_eq_ok_iff.mp h
      obtain rfl := Except.ok.inj h
      refine ⟨[], name, value, after, rfl, rfl, hvalue, fun tree' value' hvalue' => ?_⟩
      exact bind_eq_ok_iff.mpr ⟨name, hname, bind_eq_ok_iff.mpr ⟨value', hvalue',
        bind_eq_ok_iff.mpr ⟨after, hafter, rfl⟩⟩⟩
  | cons other front ih =>
      obtain ⟨name, hname, h⟩ := bind_eq_ok_iff.mp h
      obtain ⟨first, hfirst, h⟩ := bind_eq_ok_iff.mp h
      obtain ⟨others, hothers, h⟩ := bind_eq_ok_iff.mp h
      obtain rfl := Except.ok.inj h
      obtain ⟨before, name', value, after, rfl, hlength, hvalue, hreplace⟩ := ih hothers
      refine ⟨(name, first) :: before, name', value, after, rfl, by simp [hlength], hvalue,
        fun tree' value' hvalue' => ?_⟩
      exact bind_eq_ok_iff.mpr ⟨name, hname, bind_eq_ok_iff.mpr ⟨first, hfirst,
        bind_eq_ok_iff.mpr ⟨_, hreplace tree' value' hvalue', rfl⟩⟩⟩

theorem sound_list
    {reader : Reader α}
    {sites : Sites α}
    (h : Sound reader sites) :
    Sound (readList reader) (ItemSites sites) := by
  rintro tree path _ ⟨there, hsite⟩ route inner values old new hread hdown hold hnew
  rename_i items stop index child path site
  obtain ⟨front, back, rfl, rfl⟩ := exists_split there
  rw [Tree.valueAt?_list] at hold
  rw [Tree.replaceAt_list]
  obtain ⟨inside, henter, hread⟩ := bind_eq_ok_iff.mp hread
  have hdown := Route.down_of_enter hdown henter
  obtain ⟨found, hfound, hread⟩ := bind_eq_ok_iff.mp hread
  obtain ⟨⟨⟩, hstop, hread⟩ := bind_eq_ok_iff.mp hread
  obtain rfl := Except.ok.inj hread
  obtain ⟨before, value, after, rfl, hlength, hvalue, hreplace⟩ := readItems_replace hfound
  have hvalue' := h child path site hsite inside inner value old new hvalue hdown hold hnew.of_lift
  refine bind_eq_ok_iff.mpr ⟨inside, henter, bind_eq_ok_iff.mpr
    ⟨_, hreplace _ _ hvalue', bind_eq_ok_iff.mpr ⟨(), hstop, ?_⟩⟩⟩
  rw [Site.put_lift (List.modify_id _ _), ← hlength, modify_split]
  rfl

/-- The entries under names of which one gets another value. -/
theorem sound_entries
    {reader : Reader α}
    {members : List (Content × Tree)}
    {index : Nat}
    {key : Content}
    {child old new : Tree}
    {path : List Nat}
    {site : Site α}
    {route inner : Route}
    {entries : List (String × α)}
    (there : members[index]? = some (key, child))
    (hsite : SoundAt reader child path site)
    (hread : readEntries reader route members = .ok entries)
    (hdown : route.down path.length = .ok inner)
    (hold : child.valueAt? path = some old)
    (hnew : site.Admits inner old new) :
    ∃ entries',
      readEntries reader route (members.set index (key, child.replaceAt path new)) = .ok entries' ∧
      Listing.ofEntries entries' =
        (site.lift (Listing.changeAt (memberKeys members) index)).put new
          (Listing.ofEntries entries) := by
  obtain ⟨front, back, rfl, rfl⟩ := exists_split there
  have hnames := names_readEntries hread
  obtain ⟨before, name, value, after, rfl, hlength, hvalue, hreplace⟩ := readEntries_replace hread
  have hvalue' := hsite route inner value old new hvalue hdown hold hnew
  rw [set_split]
  refine ⟨_, hreplace _ _ hvalue', ?_⟩
  rw [Site.put_lift (Listing.changeAt_id _ _ _), ← hnames, ← hlength, Listing.ofEntries_change]

theorem sound_listing
    {reader : Reader α}
    {sites : Sites α}
    (h : Sound reader sites) :
    Sound (readListing reader) (EntrySites sites) := by
  rintro tree path _ ⟨there, hsite⟩ route inner listing old new hread hdown hold hnew
  rename_i members stop index key child path site
  obtain ⟨inside, henter, hread⟩ := bind_eq_ok_iff.mp hread
  have hdown := Route.down_of_enter hdown henter
  obtain ⟨entries, hentries, hread⟩ := bind_eq_ok_iff.mp hread
  obtain ⟨⟨⟩, hstop, hread⟩ := bind_eq_ok_iff.mp hread
  obtain rfl := Except.ok.inj hread
  rw [Tree.valueAt?_member there] at hold
  obtain ⟨entries', hentries', hlisting⟩ :=
    sound_entries there (h child path site hsite) hentries hdown hold hnew.of_lift
  rw [Tree.replaceAt_member there, ← hlisting]
  exact bind_eq_ok_iff.mpr ⟨inside, henter, bind_eq_ok_iff.mpr
    ⟨entries', hentries', bind_eq_ok_iff.mpr ⟨(), hstop, rfl⟩⟩⟩

/-! ## Records -/

/-- A part of a value that can be looked up and set. -/
structure Lens (σ α : Type) where
  get : σ → α
  set : α → σ → σ
  get_set : ∀ part value, get (set part value) = part
  set_get : ∀ value, set (get value) value = value
  set_set : ∀ part other value, set part (set other value) = set part value

/-- Changes a part of a value. -/
def Lens.modify (lens : Lens σ α) (update : α → α) (value : σ) : σ :=
  lens.set (update (lens.get value)) value

@[simp]
theorem Lens.modify_id
    (lens : Lens σ α)
    (value : σ) :
    lens.modify id value = value :=
  lens.set_get value

/-- The places in a part of a value. -/
inductive PartSites (lens : Lens σ α) (sites : Sites α) : Sites σ
  | part {tree : Tree} {path : List Nat} {site : Site α} (h : sites tree path site) :
      PartSites lens sites tree path (site.lift lens.modify)

/-- A declared key, whether it is optional, and the places in its value. -/
structure Row (σ : Type) where
  key : String
  optional : Bool
  sites : Sites σ

/-- The keys of rows. -/
def rowKeys (rows : List (Row σ)) : List String :=
  rows.map Row.key

/-- The keys of rows that are optional. -/
def optionalKeys (rows : List (Row σ)) : List String :=
  rowKeys (rows.filter Row.optional)

/-- The places in a record: the object itself, and those in the values of its declared keys, which
may also stand in a list. -/
inductive RecordSites (rows : List (Row σ)) : Sites σ
  | here (members : List (Content × Tree)) (stop : ObjectStop) :
      RecordSites rows (.object members stop) [] (.object (rowKeys rows) (optionalKeys rows))
  | member {members : List (Content × Tree)} {stop : ObjectStop} {index : Nat} {child : Tree}
      {path : List Nat} {site : Site σ} {row : Row σ}
      (declared : row ∈ rows)
      (there : members[index]? = some (.ok row.key, child))
      (h : row.sites child path site) :
      RecordSites rows (.object members stop) (index :: path) site
  | element {items : List Tree} {stop : ListStop} {index : Nat} {child : Tree}
      {path : List Nat} {site : Site σ} {row : Row σ}
      (declared : rows[index]? = some row)
      (there : items[index]? = some child)
      (h : row.sites child path site) :
      RecordSites rows (.list items stop) (index :: path) site

theorem RecordSites.root
    {rows : List (Row σ)}
    (tree : Tree)
    (site : Site σ)
    (h : RecordSites rows tree [] site) :
    ∃ declared optional, site = .object declared optional := by
  cases h
  exact ⟨_, _, rfl⟩

/-- After an edit in the value of a declared key, the new value is set over the old one, and gives
what the site says. -/
def RecordField.SoundAt
    (field : RecordField σ)
    (tree : Tree)
    (path : List Nat)
    (site : Site σ) :
    Prop :=
  ∀ route inner step old new,
    field.update route tree = .ok step → route.down path.length = .ok inner →
      tree.valueAt? path = some old → site.Admits inner old new →
        ∃ step', field.update route (tree.replaceAt path new) = .ok step' ∧
          ∀ value, step' (step value) = step' value ∧
            (step value = value → step' value = site.put new value)

/-- A declared key is read as its row says. -/
structure RecordField.Fits (initial : σ) (field : RecordField σ) (row : Row σ) : Prop where
  key : field.key = row.key
  absent : row.optional = true →
    ∀ route, ∃ step, field.update route .null = .ok step ∧ step initial = initial
  again : ∀ route tree step, field.update route tree = .ok step →
    ∀ value, step (step value) = step value
  sound : ∀ tree path site, row.sites tree path site → field.SoundAt tree path site

/-- A part that may be absent: a site in it as one of the whole. -/
def Site.under (lens : Lens σ (Option α)) (site : Site α) : Site σ :=
  (site.lift Option.map).lift lens.modify

/-- What is read under a key is set as a part that may be absent. -/
theorem RecordField.soundAt_under
    {field : RecordField σ}
    {reader : Reader α}
    {tree : Tree}
    {path : List Nat}
    {site : Site α}
    (lens : Lens σ (Option α))
    (hupdate : ∀ route tree, tree.isNull = false →
      field.update route tree = (reader route tree).map fun value => lens.set (some value))
    (hroot : path = [] → ∃ declared optional, site = .object declared optional)
    (hsite : Json.SoundAt reader tree path site) :
    field.SoundAt tree path (site.under lens) := by
  intro route inner step old new hstep hdown hold hnew
  have hnew := hnew.of_lift.of_lift
  obtain ⟨hnull, hnull'⟩ := isNull_replaceAt hroot hold hnew
  rw [hupdate route tree hnull] at hstep
  obtain ⟨part, hpart, rfl⟩ := map_eq_ok_iff.mp hstep
  have hpart' := hsite route inner part old new hpart hdown hold hnew
  rw [hupdate route _ hnull', hpart']
  refine ⟨_, rfl, fun value => ⟨lens.set_set _ _ value, fun hvalue => ?_⟩⟩
  have hput : (site.lift Option.map).put new (some part) = some (site.put new part) :=
    Site.put_lift Option.map_id_apply site new
  rw [Site.under, Site.put_lift (lens.modify_id value), Lens.modify, ← hvalue, lens.get_set,
    lens.set_set, hput]
  exact lens.set_set _ _ value

/-- A part of a record under its key. -/
theorem RecordField.fits_of
    {initial : σ}
    {key : String}
    {absence : Absence}
    {reader : Reader α}
    {sites : Sites α}
    {optional : Bool}
    (lens : Lens σ α)
    (hsites : Sound reader sites)
    (hnull : optional = true →
      ∀ route, ∃ value, reader route .null = .ok value ∧ lens.set value initial = initial) :
    (RecordField.of key absence reader lens.set).Fits initial
      ⟨key, optional, PartSites lens sites⟩ := by
  refine ⟨rfl, fun hoptional route => ?_, ?_, ?_⟩
  · obtain ⟨value, hvalue, hset⟩ := hnull hoptional route
    exact ⟨_, RecordField.update_eq_ok_iff.mpr ⟨value, hvalue, rfl⟩, hset⟩
  · intro route tree step hstep value
    obtain ⟨part, -, rfl⟩ := RecordField.update_eq_ok_iff.mp hstep
    exact lens.set_set part part value
  · rintro tree path _ ⟨hsite⟩ route inner step old new hstep hdown hold hnew
    rename_i site
    obtain ⟨part, hpart, rfl⟩ := RecordField.update_eq_ok_iff.mp hstep
    have hpart' := hsites tree path site hsite route inner part old new hpart hdown hold hnew.of_lift
    refine ⟨_, RecordField.update_eq_ok_iff.mpr ⟨_, hpart', rfl⟩, fun value => ⟨?_, fun hvalue => ?_⟩⟩
    · exact lens.set_set _ part value
    · rw [Site.put_lift (lens.modify_id value), Lens.modify, ← hvalue, lens.get_set, lens.set_set]

/-- A text or another value without places under its key. -/
theorem RecordField.fits_plain
    {initial : σ}
    {key : String}
    {absence : Absence}
    {reader : Reader α}
    {set : α → σ → σ}
    {optional : Bool}
    (hset : ∀ part other value, set part (set other value) = set part value)
    (hnull : optional = true →
      ∀ route, ∃ value, reader route .null = .ok value ∧ set value initial = initial) :
    (RecordField.of key absence reader set).Fits initial ⟨key, optional, Sites.none⟩ := by
  refine ⟨rfl, fun hoptional route => ?_, ?_, fun _ _ _ h => h.elim⟩
  · obtain ⟨value, hvalue, hinitial⟩ := hnull hoptional route
    exact ⟨_, RecordField.update_eq_ok_iff.mpr ⟨value, hvalue, rfl⟩, hinitial⟩
  · intro route tree step hstep value
    obtain ⟨part, -, rfl⟩ := RecordField.update_eq_ok_iff.mp hstep
    exact hset part part value

section Fitting

variable {initial : σ} {fields : List (RecordField σ)} {rows : List (Row σ)}

theorem rowKeys_of_fits
    (h : List.Forall₂ (RecordField.Fits initial) fields rows) :
    rowKeys rows = fieldKeys fields := by
  induction h with
  | nil => rfl
  | cons hfits _ ih =>
      rw [rowKeys, fieldKeys, List.map_cons, List.map_cons, hfits.key]
      exact congrArg _ ih

theorem field_at
    (h : List.Forall₂ (RecordField.Fits initial) fields rows)
    {index : Nat}
    {row : Row σ}
    (hrow : rows[index]? = some row) :
    ∃ field, fields[index]? = some field ∧ field.Fits initial row := by
  induction h generalizing index with
  | nil => simp at hrow
  | @cons field first _ _ hfits _ ih =>
      cases index with
      | zero =>
          obtain rfl : first = row := by simpa using hrow
          exact ⟨field, by simp, hfits⟩
      | succ index => simpa using ih (by simpa using hrow)

/-- The declared key of a row. -/
theorem field_of_row
    (h : List.Forall₂ (RecordField.Fits initial) fields rows)
    (hkeys : (fieldKeys fields).Nodup)
    {row : Row σ}
    (hrow : row ∈ rows) :
    ∃ field, field.Fits initial row ∧
      fields.find? (fun field => field.key == row.key) = some field := by
  obtain ⟨index, hindex⟩ := List.getElem?_of_mem hrow
  obtain ⟨field, hfield, hfits⟩ := field_at h hindex
  obtain ⟨front, back, rfl, -⟩ := exists_split hfield
  exact ⟨field, hfits, hfits.key ▸ find?_key hkeys⟩

/-- A new member that says nothing is read without effect. -/
theorem readMembers_harmless
    {route : Route}
    {stop : ObjectStop}
    {front back : List (Content × Tree)}
    {key : String}
    {tree : Tree}
    {value : σ}
    (h : List.Forall₂ (RecordField.Fits initial) fields rows)
    (hkeys : (fieldKeys fields).Nodup)
    (hcommute : fields.Pairwise RecordField.CommutesWith)
    (hread : Record.readMembers fields route stop (front ++ back) [] initial = .ok value)
    (hpass : passOver tree = .ok ())
    (hharmless : key ∉ rowKeys rows ∨
      key ∈ optionalKeys rows ∧ key ∉ memberKeys (front ++ back) ∧ tree = .null) :
    Record.readMembers fields route stop (front ++ (.ok key, tree) :: back) [] initial =
      .ok value := by
  rcases hharmless with hundeclared | ⟨hoptional, hfresh, rfl⟩
  · rw [rowKeys_of_fits h] at hundeclared
    exact (readMembers_undeclared_iff hundeclared).mpr ⟨hpass, hread⟩
  · obtain ⟨row, hrow, rfl⟩ := List.mem_map.mp hoptional
    rw [List.mem_filter] at hrow
    obtain ⟨field, hfits, hfield⟩ := field_of_row h hkeys hrow.1
    obtain ⟨step, hstep, hinitial⟩ := hfits.absent hrow.2 route
    have hmem := List.mem_of_find?_eq_some hfield
    have hpush := readMembers_push hcommute hmem hstep (.inr (hfits.key ▸ hfresh)) hread
    rw [hinitial, hread] at hpush
    have hinsert := readMembers_insert hcommute hfield hstep hfresh (by simp) hread
    rwa [← Except.ok.inj hpush] at hinsert

/-- After an edit in the value of a member, the members are read as the site says. -/
theorem readMembers_sound
    {route inner : Route}
    {stop : ObjectStop}
    {front back : List (Content × Tree)}
    {child old new : Tree}
    {path : List Nat}
    {site : Site σ}
    {row : Row σ}
    {value : σ}
    (h : List.Forall₂ (RecordField.Fits initial) fields rows)
    (hkeys : (fieldKeys fields).Nodup)
    (hcommute : fields.Pairwise RecordField.CommutesWith)
    (hrow : row ∈ rows)
    (hsite : row.sites child path site)
    (hread : Record.readMembers fields route stop (front ++ (.ok row.key, child) :: back) []
      initial = .ok value)
    (hdown : route.down path.length = .ok inner)
    (hold : child.valueAt? path = some old)
    (hnew : site.Admits inner old new) :
    Record.readMembers fields route stop
      (front ++ (.ok row.key, child.replaceAt path new) :: back) [] initial =
        .ok (site.put new value) := by
  obtain ⟨field, hfits, hfield⟩ := field_of_row h hkeys hrow
  obtain ⟨step, hstep, hreplace⟩ := readMembers_replace hcommute hfield hread
  have hagain := hreplace child step hstep (hfits.again route child step hstep)
  have hvalue : step value = value := Except.ok.inj (hagain.symm.trans hread)
  obtain ⟨step', hstep', hput⟩ :=
    hfits.sound child path site hsite route inner step old new hstep hdown hold hnew
  rw [← (hput value).2 hvalue]
  exact hreplace _ step' hstep' fun record => (hput record).1

end Fitting

/-- Records are read soundly if their declared keys are read as the rows say, and set each their
own. -/
theorem Record.sound
    {record : Record σ}
    {rows : List (Row σ)}
    (h : List.Forall₂ (RecordField.Fits record.initial) record.fields rows)
    (hkeys : (fieldKeys record.fields).Nodup)
    (hcommute : record.fields.Pairwise RecordField.CommutesWith) :
    Sound record.read (RecordSites rows) := by
  intro tree path site hsite route inner value old new hread hdown hold hnew
  cases hsite with
  | here members stop =>
      obtain rfl := Except.ok.inj hdown
      obtain rfl := Option.some.inj hold
      rw [Tree.replaceAt_nil]
      obtain ⟨inside, henter, hread⟩ := bind_eq_ok_iff.mp hread
      generalize htree : Tree.object members stop = tree at hnew
      cases hnew with
      | object enter readable harmless =>
          cases htree
          obtain rfl := Except.ok.inj (henter.symm.trans enter)
          exact bind_eq_ok_iff.mpr ⟨inside, henter, readMembers_harmless h hkeys hcommute hread
            (passOver_of_readAny readable) harmless⟩
  | member declared there hsite =>
      obtain ⟨front, back, rfl, rfl⟩ := exists_split there
      rw [Tree.valueAt?_object] at hold
      rw [Tree.replaceAt_object]
      obtain ⟨inside, henter, hread⟩ := bind_eq_ok_iff.mp hread
      have hdown := Route.down_of_enter hdown henter
      exact bind_eq_ok_iff.mpr ⟨inside, henter, readMembers_sound h hkeys hcommute declared hsite
        hread hdown hold hnew⟩
  | element declared there hsite =>
      obtain ⟨front, back, rfl, rfl⟩ := exists_split there
      rw [Tree.valueAt?_list] at hold
      rw [Tree.replaceAt_list]
      obtain ⟨inside, henter, hread⟩ := bind_eq_ok_iff.mp hread
      have hdown := Route.down_of_enter hdown henter
      obtain ⟨field, hfield, hfits⟩ := field_at h declared
      obtain ⟨step, hstep, hreplace⟩ := readElements_replace hcommute hfield hread
      have hagain := hreplace _ step hstep (hfits.again inside _ step hstep)
      have hvalue : step value = value := Except.ok.inj (hagain.symm.trans hread)
      obtain ⟨step', hstep', hput⟩ :=
        hfits.sound _ _ site hsite inside inner step old new hstep hdown hold hnew
      rw [← (hput value).2 hvalue]
      exact bind_eq_ok_iff.mpr ⟨inside, henter,
        hreplace _ step' hstep' fun record => (hput record).1⟩

end Json
end CqlDelta
