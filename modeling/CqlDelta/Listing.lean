/-!
# Named entries in document order

A listing holds entries under names, in the order in which the names first appeared. Putting an
entry under a name that is already there replaces it in its place.

Main statements: `names_put`, `names_ofEntries` and `nodup_names_ofEntries`, on the names,
`get?_put` and `get?_ofEntries`, on the entries, and `ofEntries_of_nodup`: entries under distinct
names are a listing as they are.
-/

namespace CqlDelta

/-- Entries under names, in order. -/
abbrev Listing (α : Type) := List (String × α)

namespace Listing

variable {α : Type}

/-- The names, in order. -/
def names (listing : Listing α) : List String :=
  listing.map Prod.fst

/-- The entry under a name. -/
def get? (name : String) : Listing α → Option α
  | [] => none
  | (key, entry) :: rest => if key = name then some entry else get? name rest

/-- Puts an entry under a name: in the place of the old one, or at the end. -/
def put (name : String) (entry : α) : Listing α → Listing α
  | [] => [(name, entry)]
  | (key, old) :: rest =>
      if key = name then (key, entry) :: rest else (key, old) :: put name entry rest

/-- The listing of a sequence of entries, in which a later entry replaces an earlier one. -/
def ofEntries (entries : List (String × α)) : Listing α :=
  entries.foldl (fun listing entry => put entry.1 entry.2 listing) []

@[simp]
theorem names_nil : names ([] : Listing α) = [] :=
  rfl

@[simp]
theorem names_cons (name : String) (entry : α) (rest : Listing α) :
    names ((name, entry) :: rest) = name :: names rest :=
  rfl

/-- Putting keeps the names that are there, and adds a new one at the end. -/
theorem names_put (name : String) (entry : α) (listing : Listing α) :
    names (put name entry listing) =
      if name ∈ names listing then names listing else names listing ++ [name] := by
  induction listing with
  | nil => simp [put]
  | cons head rest ih =>
      obtain ⟨key, old⟩ := head
      by_cases h : key = name
      · simp [put, h]
      · have h' : name ≠ key := fun e => h e.symm
        by_cases hmem : name ∈ names rest <;> simp [put, h, h', ih, hmem]

/-- What is put under a name is found there, and nothing else changes. -/
theorem get?_put (name other : String) (entry : α) (listing : Listing α) :
    get? other (put name entry listing) =
      if name = other then some entry else get? other listing := by
  induction listing with
  | nil => simp [put, get?]
  | cons head rest ih =>
      obtain ⟨key, old⟩ := head
      by_cases h : key = name
      · subst h
        by_cases ho : key = other <;> simp [put, get?, ho]
      · by_cases ho : key = other
        · subst ho
          have h' : name ≠ key := fun e => h e.symm
          simp [put, get?, h, h']
        · simp [put, get?, h, ho, ih]

theorem nodup_names_put
    (name : String)
    (entry : α)
    {listing : Listing α}
    (h : (names listing).Nodup) :
    (names (put name entry listing)).Nodup := by
  rw [names_put]
  split
  · exact h
  · rename_i hmem
    refine List.nodup_append.mpr ⟨h, by simp, ?_⟩
    intro a ha b hb
    rw [List.mem_singleton] at hb
    exact fun e => hmem (hb ▸ e ▸ ha)

/-- The names of a sequence's listing are distinct. -/
theorem nodup_names_ofEntries (entries : List (String × α)) :
    (names (ofEntries entries)).Nodup := by
  have general (listing : Listing α) (h : (names listing).Nodup) :
      (names (entries.foldl (fun listing entry => put entry.1 entry.2 listing) listing)).Nodup := by
    induction entries generalizing listing with
    | nil => exact h
    | cons entry more ih => exact ih _ (nodup_names_put entry.1 entry.2 h)
  exact general [] (by simp)

/-- The names of a sequence's listing are those of the sequence, in the order in which they first
appear. -/
theorem names_ofEntries (entries : List (String × α)) :
    names (ofEntries entries) = (names entries).eraseDups := by
  -- A name that is there in front is passed over wherever it comes again.
  have general (front : Listing α) :
      names (entries.foldl (fun listing entry => put entry.1 entry.2 listing) front) =
        names front ++ ((names entries).filter (· ∉ names front)).eraseDups := by
    induction entries generalizing front with
    | nil => simp
    | cons entry more ih =>
        rw [List.foldl_cons, ih, names_put, names_cons]
        by_cases hmem : entry.1 ∈ names front
        · simp [hmem]
        · rw [if_neg hmem, List.filter_cons_of_pos (by simpa using hmem), List.eraseDups_cons,
            List.filter_filter, List.append_assoc, List.singleton_append]
          refine congrArg (fun rest => names front ++ entry.1 :: List.eraseDups rest) ?_
          exact List.filter_congr fun name _ => by simp [and_comm, Bool.beq_eq_decide_eq]
  rw [ofEntries, general, names_nil, List.nil_append]
  exact congrArg List.eraseDups (List.filter_eq_self.mpr (by simp))

/-- Under a name of a sequence's listing stands what comes last under it. -/
theorem get?_ofEntries (name : String) (entries : List (String × α)) :
    get? name (ofEntries entries) = ((entries.filter (·.1 = name)).getLast?).map Prod.snd := by
  have general (front : Listing α) :
      get? name (entries.foldl (fun listing entry => put entry.1 entry.2 listing) front) =
        (((entries.filter (·.1 = name)).getLast?).map Prod.snd).or (get? name front) := by
    induction entries generalizing front with
    | nil => simp
    | cons entry more ih =>
        rw [List.foldl_cons, ih, get?_put, List.filter_cons]
        by_cases hname : entry.1 = name
        · simp only [hname, if_true, decide_true, List.getLast?_cons]
          cases (more.filter (·.1 = name)).getLast? <;> simp
        · simp [hname]
  rw [ofEntries, general]
  simp [get?]

/-- Putting brings in no other entry. -/
theorem mem_put
    {name : String}
    {new : α}
    {listing : Listing α}
    {entry : String × α}
    (h : entry ∈ put name new listing) :
    entry = (name, new) ∨ entry ∈ listing := by
  induction listing with
  | nil => simpa [put] using h
  | cons head rest ih =>
      rw [put] at h
      split at h
      · rename_i hname
        subst hname
        rcases List.mem_cons.mp h with rfl | hrest
        · exact .inl rfl
        · exact .inr (List.mem_cons_of_mem _ hrest)
      · rcases List.mem_cons.mp h with rfl | hrest
        · exact .inr (by simp)
        · rcases ih hrest with rfl | hold
          · exact .inl rfl
          · exact .inr (List.mem_cons_of_mem _ hold)

/-- The entries of a sequence's listing are among the sequence. -/
theorem mem_of_mem_ofEntries
    {entries : List (String × α)}
    {entry : String × α}
    (h : entry ∈ ofEntries entries) :
    entry ∈ entries := by
  have general : ∀ (more : List (String × α)) (front : Listing α),
      entry ∈ more.foldl (fun listing entry => put entry.1 entry.2 listing) front →
      entry ∈ front ∨ entry ∈ more := by
    intro more
    induction more with
    | nil => exact fun front h => .inl h
    | cons first more ih =>
        intro front h
        rcases ih _ h with hfront | hmore
        · rcases mem_put hfront with rfl | hold
          · exact .inr (by simp)
          · exact .inl hold
        · exact .inr (List.mem_cons_of_mem _ hmore)
  rcases general entries [] h with hnone | hentries
  · simp at hnone
  · exact hentries

theorem mem_of_get?
    {listing : Listing α}
    {name : String}
    {entry : α}
    (h : get? name listing = some entry) :
    (name, entry) ∈ listing := by
  induction listing with
  | nil => simp [get?] at h
  | cons head rest ih =>
      obtain ⟨key, first⟩ := head
      rw [get?] at h
      split at h
      · rename_i hkey
        obtain rfl := Option.some.inj h
        simp [hkey]
      · exact List.mem_cons_of_mem _ (ih h)

/-- Under distinct names every entry is found. -/
theorem get?_of_mem
    {listing : Listing α}
    {name : String}
    {entry : α}
    (hnames : (names listing).Nodup)
    (h : (name, entry) ∈ listing) :
    get? name listing = some entry := by
  induction listing with
  | nil => simp at h
  | cons head rest ih =>
      obtain ⟨key, first⟩ := head
      rw [names_cons, List.nodup_cons] at hnames
      rw [get?]
      rcases List.mem_cons.mp h with heq | hrest
      · obtain ⟨rfl, rfl⟩ := Prod.mk.inj heq
        rw [if_pos rfl]
      · have hname : key ≠ name := by
          rintro rfl
          exact hnames.1 (List.mem_map_of_mem hrest)
        rw [if_neg hname, ih hnames.2 hrest]

theorem put_of_not_mem
    {name : String}
    {listing : Listing α}
    (h : name ∉ names listing)
    (entry : α) :
    put name entry listing = listing ++ [(name, entry)] := by
  induction listing with
  | nil => rfl
  | cons head rest ih =>
      obtain ⟨key, old⟩ := head
      rw [names_cons, List.mem_cons, not_or] at h
      rw [put, if_neg (fun e => h.1 e.symm), ih h.2, List.cons_append]

/-- Entries under distinct names are a listing as they are. -/
theorem ofEntries_of_nodup
    {listing : Listing α}
    (h : (names listing).Nodup) :
    ofEntries listing = listing := by
  have general : ∀ back front : Listing α, (names (front ++ back)).Nodup →
      back.foldl (fun listing entry => put entry.1 entry.2 listing) front = front ++ back := by
    intro back
    induction back with
    | nil => simp
    | cons entry more ih =>
        intro front h
        have hentry : entry.1 ∉ names front := by
          intro hmem
          rw [names, List.map_append, List.map_cons] at h
          exact (List.nodup_append.mp h).2.2 entry.1 hmem entry.1 (by simp) rfl
        rw [List.foldl_cons, put_of_not_mem hentry, ih]
        · simp
        · simpa using h
  exact general listing [] h

/-- Entries are a listing as they are just if their names are distinct. -/
theorem ofEntries_eq_self_iff {entries : List (String × α)} :
    ofEntries entries = entries ↔ (names entries).Nodup :=
  ⟨fun h => h ▸ nodup_names_ofEntries entries, ofEntries_of_nodup⟩

end Listing
end CqlDelta
