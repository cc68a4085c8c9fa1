import CqlDelta.Program.Disk
import CqlDelta.Proofs.Json.Routes

/-!
# Written files

A text that is written to a path is found there and changes nothing else: every other place of the
disk holds what it held before (`differsOnlyAt_of_write`), and reading the path gives the text
(`read_of_write`). Both rest on the way to the place: it leads through directories, and none of
them is the place itself (`WritesTo`).
-/

namespace CqlDelta
namespace Program

open Json

theorem fromUTF8?_toUTF8
    (text : String) :
    String.fromUTF8? text.toUTF8 = some text := by
  have hvalid : text.toUTF8.IsValidUTF8 := text.isValidUTF8
  rw [String.fromUTF8?, dif_pos hvalid]
  rfl

namespace Disk

variable {disk : Disk} {steps other : Steps} {entry : DiskEntry}

/-! ## Putting an entry -/

/-- Something is at the working directory, at every entry, and everywhere above them. -/
theorem at?_ne_none_iff :
    disk.at? steps ≠ none ↔
      steps <+: disk.home ∨ ∃ found ∈ disk.entries, steps <+: found.1 := by
  rw [at?]
  cases hfind : disk.entries.find? fun found => found.1 == steps with
  | some found =>
      have hfound : found.1 = steps := by simpa using List.find?_some hfind
      simp only [ne_eq, reduceCtorEq, not_false_eq_true, true_iff]
      exact .inr ⟨found, List.mem_of_find?_eq_some hfind, hfound ▸ List.prefix_rfl⟩
  | none =>
      have hplace : (steps.isPrefixOf disk.home ||
            disk.entries.any fun found => steps.isPrefixOf found.1) = true ↔
          steps <+: disk.home ∨ ∃ found ∈ disk.entries, steps <+: found.1 := by
        simp only [Bool.or_eq_true, List.any_eq_true, List.isPrefixOf_iff_prefix]
      rw [← hplace]
      cases steps.isPrefixOf disk.home || disk.entries.any fun found => steps.isPrefixOf found.1
      · simp
      · simp

/-- Above something that is there everything is there. -/
theorem at?_ne_none_of_prefix
    (hbegins : other <+: steps)
    (h : disk.at? steps ≠ none) :
    disk.at? other ≠ none := by
  rw [at?_ne_none_iff] at h ⊢
  rcases h with hhome | ⟨found, hfound, hbelow⟩
  · exact .inl (hbegins.trans hhome)
  · exact .inr ⟨found, hfound, hbegins.trans hbelow⟩

/-- What is there without an entry of its own is a directory. -/
theorem at?_of_find?_eq_none
    (h : (disk.entries.find? fun found => found.1 == steps) = none) :
    disk.at? steps = none ∨ disk.at? steps = some .directory := by
  rw [at?, h]
  simp only
  split
  · exact .inr rfl
  · exact .inl rfl

theorem at?_put_self
    (disk : Disk)
    (steps : Steps)
    (entry : DiskEntry) :
    (disk.put steps entry).at? steps = some entry := by
  simp [at?, put]

theorem find?_put_of_ne
    (h : other ≠ steps) :
    (disk.put steps entry).entries.find? (fun found => found.1 == other) =
      disk.entries.find? fun found => found.1 == other := by
  have hhead : ((steps, entry).1 == other) = false := by simpa using Ne.symm h
  rw [put, List.find?_cons_of_neg (by simp [hhead]), List.find?_filter]
  refine congrArg (List.find? · disk.entries) (funext fun found => ?_)
  by_cases hfound : found.1 = other
  · simp [hfound, h]
  · simp [hfound]

/-- Something is at another place after an entry is put if and only if it was there before, unless
the place is above the entry. -/
theorem at?_put_ne_none_iff
    (habove : other <+: steps → disk.at? other ≠ none) :
    (disk.put steps entry).at? other ≠ none ↔ disk.at? other ≠ none := by
  rw [at?_ne_none_iff]
  constructor
  · rintro (hhome | ⟨found, hfound, hbegins⟩)
    · exact at?_ne_none_iff.mpr (.inl hhome)
    · rw [put, List.mem_cons] at hfound
      rcases hfound with rfl | hfound
      · exact habove hbegins
      · exact at?_ne_none_iff.mpr (.inr ⟨found, (List.mem_filter.mp hfound).1, hbegins⟩)
  · intro h
    rcases at?_ne_none_iff.mp h with hhome | ⟨found, hfound, hbegins⟩
    · exact .inl hhome
    · by_cases hsteps : found.1 = steps
      · exact .inr ⟨(steps, entry), by simp [put], hsteps ▸ hbegins⟩
      · exact .inr ⟨found, by simp [put, hfound, hsteps], hbegins⟩

/-- An entry that is put somewhere leaves every other place as it was, if all above it was there. -/
theorem at?_put_of_ne
    (hne : other ≠ steps)
    (habove : other <+: steps → disk.at? other ≠ none) :
    (disk.put steps entry).at? other = disk.at? other := by
  have hthere : (disk.put steps entry).at? other ≠ none ↔ disk.at? other ≠ none :=
    at?_put_ne_none_iff habove
  cases hfind : disk.entries.find? fun found => found.1 == other with
  | some found => rw [at?, at?, find?_put_of_ne hne, hfind]
  | none =>
      have hafter : (disk.put steps entry).at? other = none ∨
          (disk.put steps entry).at? other = some .directory :=
        at?_of_find?_eq_none ((find?_put_of_ne hne).trans hfind)
      rcases at?_of_find?_eq_none hfind with hbefore | hbefore
      · rcases hafter with hafter | hafter
        · rw [hafter, hbefore]
        · simp [hafter, hbefore] at hthere
      · rcases hafter with hafter | hafter
        · simp [hafter, hbefore] at hthere
        · rw [hafter, hbefore]

/-! ## The way to a place -/

theorem follow_append
    (disk : Disk)
    (here first second : Steps) :
    disk.follow here (first ++ second) =
      (disk.follow here first).bind fun there => disk.follow there second := by
  induction first generalizing here with
  | nil => rfl
  | cons piece more ih =>
      rw [List.cons_append, follow, follow]
      cases disk.at? here with
      | none => rfl
      | some found =>
          cases found with
          | file bytes => rfl
          | directory =>
              simp only [ih]
              cases staysHere piece with
              | true => rfl
              | false =>
                  cases goesUp piece with
                  | true => rfl
                  | false => cases checkName piece <;> rfl

/-- Following an empty piece stays in a directory. -/
theorem follow_empty_iff
    {here there : Steps} :
    disk.follow here [[]] = .ok there ↔ there = here ∧ disk.at? here = some .directory := by
  rw [follow]
  cases disk.at? here with
  | none => simp
  | some found =>
      cases found with
      | file bytes => simp
      | directory => simp [staysHere, follow, eq_comm]

/-- A way through directories is not touched by what is put in the place of no directory. -/
theorem follow_put
    (hsteps : disk.at? steps ≠ some .directory)
    (helsewhere : ∀ other, other ≠ steps → (disk.put steps entry).at? other = disk.at? other)
    {here there pieces : Steps}
    (h : disk.follow here pieces = .ok there) :
    (disk.put steps entry).follow here pieces = .ok there := by
  induction pieces generalizing here with
  | nil => exact h
  | cons piece more ih =>
      have hdirectory : disk.at? here = some .directory := by
        rw [follow] at h
        split at h <;> first | assumption | simp at h
      have hhere : here ≠ steps := fun heq => hsteps (heq ▸ hdirectory)
      rw [follow, helsewhere here hhere, hdirectory]
      rw [follow, hdirectory] at h
      simp only at h ⊢
      split at h
      · rename_i hstays
        rw [if_pos hstays]
        exact ih h
      · rename_i hstays
        rw [if_neg hstays]
        split at h
        · rename_i hup
          rw [if_pos hup]
          exact ih h
        · rename_i hup
          rw [if_neg hup]
          obtain ⟨checked, hchecked, hmore⟩ := bind_eq_ok_iff.mp h
          exact bind_eq_ok_iff.mpr ⟨checked, hchecked, ih hmore⟩

/-! ## Writing -/

/-- A path can be written to: all pieces but the last lead to a directory, and there the last one is
a name that no directory has. -/
inductive WritesTo (disk : Disk) (path : String) : Steps → Prop
  | intro {front above : Steps} {last : List Char}
      (pieces : checkedPieces path = .ok (front ++ [last]))
      (leads : disk.follow (disk.start path) front = .ok above)
      (inside : disk.at? above = some .directory)
      (moves : staysHere last = false)
      (descends : goesUp last = false)
      (short : checkName last = .ok ())
      (free : disk.at? (above ++ [last]) ≠ some .directory) :
      WritesTo disk path (above ++ [last])

theorem withoutSlashes_eq_self
    {pieces : Steps}
    (h : pieces.length ≤ (withoutSlashes pieces).length) :
    withoutSlashes pieces = pieces := by
  have hsuffix := List.dropWhile_suffix List.isEmpty (l := pieces.reverse)
  have hlength : pieces.reverse.length ≤ (pieces.reverse.dropWhile List.isEmpty).length := by
    simpa [withoutSlashes] using h
  rw [withoutSlashes, hsuffix.eq_of_length_le hlength, List.reverse_reverse]

theorem writesTo_of_target
    {path : String}
    (h : disk.target path = .ok steps) :
    WritesTo disk path steps := by
  obtain ⟨pieces, hpieces, h⟩ := bind_eq_ok_iff.mp h
  simp only at h
  split at h
  · simp at h
  · rename_i last hlast
    obtain ⟨above, habove, h⟩ := bind_eq_ok_iff.mp h
    split at h
    · simp at h
    · rename_i hname
      simp only [Bool.or_eq_true, decide_eq_true_eq, not_or, Bool.not_eq_true, Nat.not_lt] at hname
      obtain ⟨⟨hmoves, hdescends⟩, hlength⟩ := hname
      obtain ⟨checked, hshort, hplace⟩ := bind_eq_ok_iff.mp h
      rw [withoutSlashes_eq_self hlength] at habove hlast
      obtain ⟨front, rfl⟩ := List.getLast?_eq_some_iff.mp hlast
      rw [List.dropLast_concat, follow_append] at habove
      obtain ⟨there, hleads, hinside⟩ := bind_eq_ok_iff.mp habove
      obtain ⟨rfl, hdirectory⟩ := follow_empty_iff.mp hinside
      split at hplace
      · simp at hplace
      · rename_i hfree
        obtain rfl := Except.ok.inj hplace
        exact .intro hpieces hleads hdirectory hmoves hdescends hshort hfree

/-- Of two disks the second holds a file at some steps, and is elsewhere as the first. -/
structure DiffersOnlyAt (steps : Steps) (bytes : ByteArray) (before after : Disk) : Prop where
  home : after.home = before.home
  written : after.at? steps = some (.file bytes)
  elsewhere : ∀ other, other ≠ steps → after.at? other = before.at? other

theorem WritesTo.differsOnlyAt
    {path : String}
    (h : WritesTo disk path steps)
    (bytes : ByteArray) :
    DiffersOnlyAt steps bytes disk (disk.put steps (.file bytes)) where
  home := rfl
  written := at?_put_self disk steps _
  elsewhere := by
    obtain ⟨pieces, leads, inside, moves, descends, short, free⟩ := h
    refine fun other hne => at?_put_of_ne hne fun hbegins => ?_
    rw [List.prefix_concat_iff] at hbegins
    rcases hbegins with heq | habove
    · exact absurd heq hne
    · exact at?_ne_none_of_prefix habove (by simp [inside])

/-- After a file is put where a path can be written to, the path leads there. -/
theorem WritesTo.resolve_put
    {path : String}
    (h : WritesTo disk path steps)
    (bytes : ByteArray) :
    (disk.put steps (.file bytes)).resolve path = .ok steps := by
  have helsewhere := (h.differsOnlyAt bytes).elsewhere
  obtain ⟨pieces, leads, inside, moves, descends, short, free⟩ := h
  rename_i front above last
  have hne : above ≠ above ++ [last] := by simp
  have hfront := follow_put free helsewhere leads
  have hlast : (disk.put (above ++ [last]) (.file bytes)).follow above [last] =
      .ok (above ++ [last]) := by
    rw [follow, helsewhere above hne, inside]
    simp only [moves, descends, short, Bool.false_eq_true, if_false]
    rfl
  refine bind_eq_ok_iff.mpr ⟨_, pieces, ?_⟩
  show (disk.put (above ++ [last]) (.file bytes)).follow (disk.start path) (front ++ [last]) = _
  rw [follow_append, hfront]
  exact hlast

variable {path text : String} {written : Disk}

theorem write_eq_ok_iff :
    disk.write path text = .ok written ↔
      ∃ steps, disk.target path = .ok steps ∧ written = disk.put steps (.file text.toUTF8) := by
  rw [write, bind_eq_ok_iff]
  refine exists_congr fun steps => and_congr_right fun _ => ?_
  exact ⟨fun h => (Except.ok.inj h).symm, fun h => congrArg Except.ok h.symm⟩

/-- Writing changes nothing but the file at its target. -/
theorem differsOnlyAt_of_write
    (h : disk.write path text = .ok written) :
    ∃ steps, disk.target path = .ok steps ∧ DiffersOnlyAt steps text.toUTF8 disk written := by
  obtain ⟨steps, htarget, rfl⟩ := write_eq_ok_iff.mp h
  exact ⟨steps, htarget, (writesTo_of_target htarget).differsOnlyAt _⟩

/-- A text that is written to a path is read from it. -/
theorem read_of_write
    (h : disk.write path text = .ok written) :
    written.read path = .ok text := by
  obtain ⟨steps, htarget, rfl⟩ := write_eq_ok_iff.mp h
  have hresolve := (writesTo_of_target htarget).resolve_put text.toUTF8
  have hbytes : (disk.put steps (.file text.toUTF8)).bytesAt path = .ok text.toUTF8 := by
    refine bind_eq_ok_iff.mpr ⟨steps, hresolve, ?_⟩
    rw [at?_put_self]
  refine bind_eq_ok_iff.mpr ⟨_, hbytes, ?_⟩
  rw [fromUTF8?_toUTF8]

end Disk
end Program
end CqlDelta
