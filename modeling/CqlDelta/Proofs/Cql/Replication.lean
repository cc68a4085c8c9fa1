import CqlDelta.Cql.Rendering
import CqlDelta.Proofs.Text.Cutting
import CqlDelta.Proofs.Text.Delimiting

/-!
# Replication maps

The replication of a keyspace is written as a map of the query language. A key, and a value that is
a string, stand between marks; a factor stands as it is. Read back with the rules of string literals,
in which a doubled mark is one character, an entry gives back what it was written from just if no
mark stands in its key and its string: the marks of names are not doubled when they are written
(`entries_are_read_back_iff`). The main statement,
`replication_is_read_back_unless_names_hold_marks`, says this for whole clauses.
-/

namespace CqlDelta
namespace Cql

open Delta Text

/-! ## Maps of the query language -/

/-- The value of an entry. -/
inductive MapValue where
  | text (content : String)
  | plain (content : String)
deriving DecidableEq

/-- An entry of a map. -/
structure MapEntry where
  key : String
  value : MapValue
deriving DecidableEq

/-- The text behind a given one. -/
def behind? (front cs : List Char) : Option (List Char) :=
  if front.isPrefixOf cs then some (cs.drop front.length) else none

/-- Reads a plain value: it goes up to a comma, or up to the closing brace and the line break in
front of that. -/
def readPlain : List Char → List Char × List Char
  | [] => ([], [])
  | c :: rest =>
      if c = ',' ∨ c = '\x7d' ∨ c = '\n' ∧ rest.head? = some '\x7d' then ([], c :: rest)
      else (c :: (readPlain rest).1, (readPlain rest).2)

/-- Reads a value, and what follows it. -/
def readMapValue (cs : List Char) : Option (MapValue × List Char) :=
  if cs.head? = some literalMark then
    (readEnclosed literalMark cs).map fun found => (.text (.ofList found.1), found.2)
  else
    some (.plain (.ofList (readPlain cs).1), (readPlain cs).2)

/-- Reads an entry, and what follows it. -/
def readMapEntry (cs : List Char) : Option (MapEntry × List Char) := do
  let (key, rest) ← readEnclosed literalMark cs
  let source ← behind? " : ".toList rest
  let (value, rest) ← readMapValue source
  return (⟨.ofList key, value⟩, rest)

/-- The separator of entries. -/
def entrySeparator : List Char := [',', '\n', '\t']

/-- The end of a map. -/
def mapEnd : List Char := ['\n', '\x7d']

/-- A text is read as entries, up to the end of the map. -/
inductive ReadsEntries : List Char → List MapEntry → Prop
  | last {cs : List Char} {entry : MapEntry}
      (first : readMapEntry cs = some (entry, mapEnd)) :
      ReadsEntries cs [entry]
  | more {cs rest : List Char} {entry : MapEntry} {entries : List MapEntry}
      (first : readMapEntry cs = some (entry, entrySeparator ++ rest))
      (others : ReadsEntries rest entries) :
      ReadsEntries cs (entry :: entries)

/-- A replication clause is read as a map. -/
def ReadsReplication (clause : String) (entries : List MapEntry) : Prop :=
  ∃ body, clause.toList = "WITH REPLICATION = \x7b\n\t".toList ++ body ∧ ReadsEntries body entries

theorem ReadsEntries.unique
    {cs : List Char}
    {entries others : List MapEntry}
    (h : ReadsEntries cs entries)
    (hothers : ReadsEntries cs others) :
    entries = others := by
  induction h generalizing others with
  | last first =>
      cases hothers with
      | last first' => simp_all
      | more first' _ => simp_all [mapEnd, entrySeparator]
  | more first _ ih =>
      cases hothers with
      | last first' => simp_all [mapEnd, entrySeparator]
      | more first' others' =>
          obtain ⟨rfl, hrest⟩ := Prod.mk.inj (Option.some.inj (first.symm.trans first'))
          rw [ih (List.append_cancel_left hrest ▸ others')]

/-- A clause is read in one way at most. -/
theorem ReadsReplication.unique
    {clause : String}
    {entries others : List MapEntry}
    (h : ReadsReplication clause entries)
    (hothers : ReadsReplication clause others) :
    entries = others := by
  obtain ⟨body, hclause, hbody⟩ := h
  obtain ⟨body', hclause', hbody'⟩ := hothers
  obtain rfl := List.append_cancel_left (hclause.symm.trans hclause')
  exact hbody.unique hbody'

/-! ## Written entries -/

/-- The text of a value. No mark is doubled. -/
def MapValue.written : MapValue → String
  | .text content => s!"'{content}'"
  | .plain content => content

/-- The text of an entry. -/
def MapEntry.written (entry : MapEntry) : String :=
  s!"'{entry.key}' : {entry.value.written}"

/-- Whether a text holds no comma, no brace and no mark. -/
def IsPlain (content : String) : Prop :=
  ∀ c ∈ content.toList, c ≠ ',' ∧ c ≠ '\x7b' ∧ c ≠ '\x7d' ∧ c ≠ literalMark ∧ c ≠ identifierMark

/-- A value that is not a string can be told from what follows it. -/
def MapValue.Delimited : MapValue → Prop
  | .text _ => True
  | .plain content => IsPlain content

/-- No mark stands in a key or in a string. -/
def MapEntry.Unmarked (entry : MapEntry) : Prop :=
  literalMark ∉ entry.key.toList ∧
    ∀ content, entry.value = .text content → literalMark ∉ content.toList

/-- What follows an entry. -/
inductive FollowsEntry : List Char → Prop
  | separator (rest : List Char) : FollowsEntry (entrySeparator ++ rest)
  | mapEnd : FollowsEntry mapEnd

theorem FollowsEntry.head
    {rest : List Char}
    (h : FollowsEntry rest) :
    rest.head? ≠ some literalMark ∧ readPlain rest = ([], rest) := by
  cases h with
  | separator rest =>
      exact ⟨by simp [entrySeparator, literalMark], by simp [entrySeparator, readPlain]⟩
  | mapEnd => exact ⟨by decide, by decide⟩

/-- A plain value is read up to what follows the entry. -/
theorem readPlain_append
    {cs rest : List Char}
    (hcs : ∀ c ∈ cs, c ≠ ',' ∧ c ≠ '\x7d')
    (hrest : FollowsEntry rest) :
    readPlain (cs ++ rest) = (cs, rest) := by
  induction cs with
  | nil => exact hrest.head.2
  | cons c cs ih =>
      rw [List.forall_mem_cons] at hcs
      have hbrace : (cs ++ rest).head? ≠ some '\x7d' := by
        cases cs with
        | nil => cases hrest <;> simp [entrySeparator, mapEnd]
        | cons d cs => simpa using (hcs.2 d (by simp)).2
      have hgoes : ¬(c = ',' ∨ c = '\x7d' ∨ c = '\n' ∧ (cs ++ rest).head? = some '\x7d') := by
        rintro (hcomma | hend | ⟨-, hend⟩)
        · exact hcs.1.1 hcomma
        · exact hcs.1.2 hend
        · exact hbrace hend
      rw [List.cons_append, readPlain, if_neg hgoes, ih hcs.2]

theorem readMapValue_written_iff
    {value : MapValue}
    {rest : List Char}
    (behind : List Char)
    (hvalue : value.Delimited)
    (hrest : FollowsEntry rest) :
    readMapValue (value.written.toList ++ rest) = some (value, behind) ↔
      behind = rest ∧ ∀ content, value = .text content → literalMark ∉ content.toList := by
  cases value with
  | text content =>
      have hwritten : (MapValue.text content).written.toList ++ rest =
          literalMark :: (content.toList ++ literalMark :: rest) := by
        simp [MapValue.written, literalMark, toString]
      have hread := readEnclosed_unescaped_iff content.toList behind hrest.head.1
      rw [hwritten, readMapValue, List.head?_cons, if_pos rfl, Option.map_eq_some_iff]
      simp only [MapValue.text.injEq, forall_eq', ← hread]
      constructor
      · rintro ⟨⟨found, more⟩, hfound, heq⟩
        simp only [Prod.mk.injEq, MapValue.text.injEq] at heq
        obtain ⟨hcontent, rfl⟩ := heq
        rw [hfound, ← hcontent, String.toList_ofList]
      · exact fun hfound => ⟨_, hfound, by rw [String.ofList_toList]⟩
  | plain content =>
      have hplain : IsPlain content := hvalue
      have hread := readPlain_append (fun c hc => ⟨(hplain c hc).1, (hplain c hc).2.2.1⟩) hrest
      have hmark : (content.toList ++ rest).head? ≠ some literalMark := by
        cases hcs : content.toList with
        | nil => exact hrest.head.1
        | cons c cs =>
            have hc := (hplain c (by simp [hcs])).2.2.2.1
            simpa using hc
      rw [MapValue.written, readMapValue, if_neg hmark, hread]
      simp [eq_comm]

theorem behind?_append (front rest : List Char) : behind? front (front ++ rest) = some rest := by
  simp [behind?]

/-- A written entry is read back, up to what follows it, just if no mark stands in its texts. -/
theorem readMapEntry_written_iff
    {entry : MapEntry}
    {rest : List Char}
    (behind : List Char)
    (hentry : entry.value.Delimited)
    (hrest : FollowsEntry rest) :
    readMapEntry (entry.written.toList ++ rest) = some (entry, behind) ↔
      behind = rest ∧ entry.Unmarked := by
  obtain ⟨key, value⟩ := entry
  have hwritten : (MapEntry.mk key value).written.toList ++ rest =
      literalMark :: (key.toList ++ literalMark ::
        (" : ".toList ++ (value.written.toList ++ rest))) := by
    simp [MapEntry.written, literalMark, toString]
  have hspace (source : List Char) : (" : ".toList ++ source).head? ≠ some literalMark := by
    simp [literalMark]
  have hvalue := readMapValue_written_iff behind hentry hrest
  rw [hwritten, readMapEntry]
  simp only [Option.bind_eq_bind, Option.bind_eq_some_iff, Prod.exists, Option.pure_def,
    Option.some.injEq, Prod.mk.injEq, MapEntry.mk.injEq, MapEntry.Unmarked]
  constructor
  · rintro ⟨found, more, hkey, source, hsource, value', behind', hread, ⟨hname, rfl⟩, rfl⟩
    obtain rfl : found = key.toList := by rw [← hname, String.toList_ofList]
    obtain ⟨rfl, hmark⟩ := (readEnclosed_unescaped_iff _ _ (hspace _)).mp hkey
    rw [behind?_append, Option.some.injEq] at hsource
    subst hsource
    obtain ⟨hbehind, hstring⟩ := hvalue.mp hread
    exact ⟨hbehind, hmark, hstring⟩
  · rintro ⟨hbehind, hmark, hstring⟩
    have hkey := (readEnclosed_unescaped_iff _ _ (hspace (value.written.toList ++ rest))).mpr
      ⟨rfl, hmark⟩
    exact ⟨_, _, hkey, _, behind?_append _ _, value, behind, hvalue.mpr ⟨hbehind, hstring⟩,
      ⟨String.ofList_toList, rfl⟩, rfl⟩

/-- Written entries are read back just if no mark stands in their texts. -/
theorem entries_are_read_back_iff
    {entries : List MapEntry}
    (hne : entries ≠ [])
    (h : ∀ entry ∈ entries, entry.value.Delimited) :
    ReadsEntries
        (joinWith entrySeparator (entries.map fun entry => entry.written.toList) ++ mapEnd)
        entries ↔
      ∀ entry ∈ entries, entry.Unmarked := by
  induction entries with
  | nil => exact absurd rfl hne
  | cons entry entries ih =>
      rw [List.forall_mem_cons] at h
      rw [List.forall_mem_cons]
      cases entries with
      | nil =>
          have hread := readMapEntry_written_iff mapEnd h.1 .mapEnd
          rw [List.map_singleton, joinWith]
          constructor
          · rintro (hfirst | ⟨hfirst, hothers⟩)
            · exact ⟨(hread.mp hfirst).2, by simp⟩
            · cases hothers
          · exact fun hunmarked => .last (hread.mpr ⟨rfl, hunmarked.1⟩)
      | cons next more =>
          have hmore := ih (by simp) h.2
          have hread (rest : List Char) :=
            readMapEntry_written_iff (entrySeparator ++ rest) h.1 (.separator rest)
          rw [List.map_cons, joinWith_cons _ _ (by simp), List.append_assoc, List.append_assoc]
          constructor
          · rintro (_ | ⟨hfirst, hothers⟩)
            have hfollows := readMapEntry_written_iff _ h.1 (.separator _) |>.mp hfirst
            rw [List.append_cancel_left hfollows.1] at hothers
            exact ⟨hfollows.2, hmore.mp hothers⟩
          · exact fun hunmarked =>
              .more ((hread _).mpr ⟨rfl, hunmarked.1⟩) (hmore.mpr hunmarked.2)

/-! ## Settings -/

/-- The entry of a data center. -/
def centerEntry (center : DataCenter) : MapEntry :=
  ⟨center.name, .plain (factorText center.factor)⟩

/-- What the replication clause of settings says. -/
def Settings.replication (settings : Settings) : List MapEntry :=
  ⟨"class", .text settings.strategyName⟩ ::
    if settings.strategyName = dataCenterStrategy then
      settings.dataCenters.map centerEntry
    else
      [⟨"replication_factor", .plain (factorText settings.factor)⟩]

/-- The factors of settings can be told from what follows them. -/
def Settings.PlainFactors (settings : Settings) : Prop :=
  (∀ content, settings.factor = some (.text content) → IsPlain content) ∧
    ∀ center ∈ settings.dataCenters,
      ∀ content, center.factor = some (.text content) → IsPlain content

theorem isPlain_toString (n : Nat) : IsPlain (toString n) := by
  intro c hc
  have hdigit : c.isDigit = true := by
    refine Nat.isDigit_of_mem_toDigits (n := n) (b := 10) (by omega) (by omega) ?_
    simpa [Nat.toString_eq_ofList_toDigits] using hc
  refine ⟨?_, ?_, ?_, ?_, ?_⟩ <;> rintro rfl <;> exact absurd hdigit (by decide)

theorem isPlain_factorText
    {factor : Option Factor}
    (h : ∀ content, factor = some (.text content) → IsPlain content) :
    IsPlain (factorText factor) := by
  rcases factor with _ | n | content
  · exact isPlain_toString 1
  · exact isPlain_toString n.toNat
  · exact h content rfl

theorem entries_eq_written (settings : Settings) :
    settings.entries = settings.replication.map MapEntry.written := by
  rw [Settings.entries, Settings.replication, List.map_cons]
  split
  · rw [List.map_map]
    rfl
  · rfl

theorem replicationClause_toList (settings : Settings) :
    settings.replicationClause.toList =
      "WITH REPLICATION = \x7b\n\t".toList ++
        (joinWith entrySeparator (settings.replication.map fun entry => entry.written.toList) ++
          mapEnd) := by
  have hseparator : ",\n\t".toList = entrySeparator := by decide
  have hend : "\n\x7d".toList = mapEnd := by decide
  have hpieces : settings.entries.map String.toList =
      settings.replication.map fun entry => entry.written.toList := by
    rw [entries_eq_written, List.map_map]
    exact List.map_congr_left fun _ _ => rfl
  unfold Settings.replicationClause
  simp only [String.toList_append, toList_intercalate_eq_joinWith, hseparator, hend, hpieces,
    List.append_assoc]

/-- The entries of settings with plain factors can be told from what follows them. -/
theorem Settings.PlainFactors.delimited
    {settings : Settings}
    (h : settings.PlainFactors) :
    ∀ entry ∈ settings.replication, entry.value.Delimited := by
  rw [Settings.replication, List.forall_mem_cons]
  refine ⟨trivial, ?_⟩
  split
  · rw [List.forall_mem_map]
    exact fun center hcenter => isPlain_factorText (h.2 center hcenter)
  · rw [List.forall_mem_singleton]
    exact isPlain_factorText h.1

/-- No mark stands in the entries just if none stands in the names. -/
theorem replication_unmarked_iff (settings : Settings) :
    (∀ entry ∈ settings.replication, entry.Unmarked) ↔
      literalMark ∉ settings.strategyName.toList ∧
        (settings.strategyName = dataCenterStrategy →
          ∀ center ∈ settings.dataCenters, literalMark ∉ center.name.toList) := by
  have hclass : (MapEntry.mk "class" (.text settings.strategyName)).Unmarked ↔
      literalMark ∉ settings.strategyName.toList := by
    simp [MapEntry.Unmarked, literalMark]
  have hplain (key content : String) :
      (MapEntry.mk key (.plain content)).Unmarked ↔ literalMark ∉ key.toList := by
    simp [MapEntry.Unmarked]
  rw [Settings.replication, List.forall_mem_cons, hclass]
  split
  next hstrategy =>
    rw [List.forall_mem_map]
    simp only [centerEntry, hplain, hstrategy, true_imp_iff]
  next hstrategy =>
    rw [List.forall_mem_singleton, hplain]
    simp [hstrategy, literalMark]

/-- The replication clause of settings is read back as the strategy and, in order, a factor for each
data center, or else the only factor, just if no mark stands in the strategy and in the names of the
data centers that are written. In any case it is read in one way at most. -/
theorem replication_is_read_back_unless_names_hold_marks
    (settings : Settings)
    (hfactors : settings.PlainFactors) :
    (ReadsReplication settings.replicationClause settings.replication ↔
      literalMark ∉ settings.strategyName.toList ∧
        (settings.strategyName = dataCenterStrategy →
          ∀ center ∈ settings.dataCenters, literalMark ∉ center.name.toList)) ∧
      ∀ entries others,
        ReadsReplication settings.replicationClause entries →
        ReadsReplication settings.replicationClause others →
        entries = others := by
  refine ⟨?_, fun entries others h hothers => h.unique hothers⟩
  have hne : settings.replication ≠ [] := List.cons_ne_nil _ _
  rw [← replication_unmarked_iff, ← entries_are_read_back_iff hne hfactors.delimited]
  constructor
  · rintro ⟨body, hclause, hbody⟩
    rw [replicationClause_toList] at hclause
    rwa [List.append_cancel_left hclause]
  · exact fun hbody => ⟨_, replicationClause_toList settings, hbody⟩

/-- Two data centers with a number and a text as their factors. -/
theorem replication_of_two_data_centers_is_read_back :
    ReadsReplication
      (Settings.replicationClause
        { strategy := "NetworkTopologyStrategy",
          dataCenters := [⟨"dc \"1\"", some (.number 3)⟩, ⟨"a, \x7bb\x7d", some (.text "2")⟩] })
      [ ⟨"class", .text "NetworkTopologyStrategy"⟩,
        ⟨"dc \"1\"", .plain "3"⟩,
        ⟨"a, \x7bb\x7d", .plain "2"⟩ ] := by
  refine (replication_is_read_back_unless_names_hold_marks
    { strategy := "NetworkTopologyStrategy",
      dataCenters := [⟨"dc \"1\"", some (.number 3)⟩, ⟨"a, \x7bb\x7d", some (.text "2")⟩] }
    ⟨by simp, ?_⟩).1.mpr ?_
  · simp [IsPlain, literalMark, identifierMark]
  · decide

/-- The clause of a data center with a mark in its name is no map at all, and that of another one
is a map of two data centers. -/
theorem marked_data_center_names_break_the_map :
    (¬∃ entries, ReadsReplication
      (Settings.replicationClause
        { strategy := "NetworkTopologyStrategy",
          dataCenters := [⟨"o'hare", some (.number 3)⟩] })
      entries) ∧
    ReadsReplication
      (Settings.replicationClause
        { strategy := "NetworkTopologyStrategy",
          dataCenters := [⟨"a' : 1,\n\t'b", some (.number 3)⟩] })
      [ ⟨"class", .text "NetworkTopologyStrategy"⟩,
        ⟨"a", .plain "1"⟩,
        ⟨"b", .plain "3"⟩ ] := by
  constructor
  · rintro ⟨entries, body, hclause, hbody⟩
    have hbody_eq : body =
        "'class' : 'NetworkTopologyStrategy',\n\t'o'hare' : 3\n\x7d".toList :=
      List.append_cancel_left (hclause.symm.trans (by decide))
    have hclass : readMapEntry body =
        some (⟨"class", .text "NetworkTopologyStrategy"⟩,
          entrySeparator ++ "'o'hare' : 3\n\x7d".toList) := by
      rw [hbody_eq]
      decide
    have hname : readMapEntry "'o'hare' : 3\n\x7d".toList = none := by decide
    rcases hbody with hfirst | ⟨hfirst, hothers⟩
    · rw [hclass] at hfirst
      simp [entrySeparator, mapEnd] at hfirst
    · rw [hclass, Option.some.injEq, Prod.mk.injEq] at hfirst
      rw [← List.append_cancel_left hfirst.2] at hothers
      rcases hothers with hnone | ⟨hnone, -⟩ <;> exact nomatch hname.symm.trans hnone
  · have hclass : readMapEntry
        "'class' : 'NetworkTopologyStrategy',\n\t'a' : 1,\n\t'b' : 3\n\x7d".toList =
          some (⟨"class", .text "NetworkTopologyStrategy"⟩,
            entrySeparator ++ "'a' : 1,\n\t'b' : 3\n\x7d".toList) := by decide
    have hfirst : readMapEntry "'a' : 1,\n\t'b' : 3\n\x7d".toList =
        some (⟨"a", .plain "1"⟩, entrySeparator ++ "'b' : 3\n\x7d".toList) := by decide
    have hlast : readMapEntry "'b' : 3\n\x7d".toList =
        some (⟨"b", .plain "3"⟩, mapEnd) := by decide
    exact ⟨_, by decide, .more hclass (.more hfirst (.last hlast))⟩

end Cql
end CqlDelta
