import CqlDelta.Text.Blank
import CqlDelta.Text.Lines
import CqlDelta.Text.Quoted
import Mathlib.Data.List.Basic
import Mathlib.Data.List.Infix

/-!
# The characters of cut and joined texts

Cutting a text into lines or at separators, joining and indenting, trimming and doubling marks move
characters around but bring in few of their own. This module says so for each of them, as far as the
rest of the theory of texts needs it.
-/

namespace CqlDelta
namespace Text

/-! ## Lines -/

section Filtering

variable {p : Char → Bool}

theorem filter_joinWith
    {separator : List Char}
    (hseparator : separator.filter p = [])
    (pieces : List (List Char)) :
    (joinWith separator pieces).filter p = pieces.flatMap (List.filter p) := by
  induction pieces with
  | nil => rfl
  | cons piece more ih =>
      cases more with
      | nil => simp [joinWith]
      | cons next more => simp [joinWith, hseparator, ih]

/-- Cutting a text into lines keeps all characters that do not end lines. -/
theorem filter_lines
    (hbreak : p '\n' = false)
    (hreturn : p '\r' = false)
    (cs : List Char) :
    (lines cs).flatMap (List.filter p) = cs.filter p := by
  fun_induction lines cs with
  | case1 => rfl
  | case2 rest ih => simpa [hbreak] using ih
  | case3 rest ih => simpa [hbreak, hreturn] using ih
  | case4 c rest _ _ hlines ih =>
      rw [hlines, List.flatMap_nil] at ih
      rw [List.flatMap_singleton, List.filter_cons, List.filter_cons, ← ih]
      rfl
  | case5 c rest _ _ line more hlines ih =>
      rw [hlines, List.flatMap_cons] at ih
      rw [List.flatMap_cons, List.filter_cons, List.filter_cons, ← ih]
      split <;> rfl

/-- Indenting a text keeps all characters that neither end lines nor indent them. -/
theorem filter_indentLines
    (hbreak : p '\n' = false)
    (hreturn : p '\r' = false)
    (htab : p '\t' = false)
    (cs : List Char) :
    (indentLines cs).filter p = cs.filter p := by
  have hline (line : List Char) : ('\t' :: line).filter p = line.filter p := by simp [htab]
  rw [indentLines, filter_joinWith (by simp [hbreak]), List.flatMap_map]
  simp only [hline]
  exact filter_lines hbreak hreturn cs

end Filtering

/-- The lines of a text hold no line breaks. -/
theorem not_mem_of_mem_lines (cs : List Char) : ∀ line ∈ lines cs, '\n' ∉ line := by
  fun_induction lines cs with
  | case1 => simp
  | case2 rest ih => simpa using ih
  | case3 rest ih => simpa using ih
  | case4 c rest hc _ hlines ih => simpa using Ne.symm hc
  | case5 c rest hc _ line more hlines ih =>
      rw [hlines, List.forall_mem_cons] at ih
      refine List.forall_mem_cons.mpr ⟨?_, ih.2⟩
      simpa [ih.1] using Ne.symm hc

theorem lines_ne_nil {cs : List Char} (h : cs ≠ []) : lines cs ≠ [] := by
  fun_cases lines cs with
  | case1 => exact absurd rfl h
  | _ => simp

/-! ## Pieces -/

theorem subset_joinWith
    {separator piece : List Char}
    {pieces : List (List Char)}
    (h : piece ∈ pieces) :
    piece ⊆ joinWith separator pieces := by
  induction pieces with
  | nil => simp at h
  | cons first more ih =>
      cases more with
      | nil =>
          obtain rfl := List.mem_singleton.mp h
          exact List.Subset.refl _
      | cons next more =>
          show piece ⊆ first ++ separator ++ joinWith separator (next :: more)
          rcases List.mem_cons.mp h with rfl | hmore
          · exact fun c hc => by simp [hc]
          · exact fun c hc => by simp [ih hmore hc]

theorem toList_intercalate_eq_joinWith (separator : String) (pieces : List String) :
    (separator.intercalate pieces).toList =
      joinWith separator.toList (pieces.map String.toList) := by
  induction pieces with
  | nil => simp [joinWith]
  | cons piece more ih =>
      cases more with
      | nil => simp [joinWith]
      | cons next more =>
          rw [String.intercalate_cons_cons, String.toList_append, String.toList_append, ih]
          rfl

/-- Joined texts are the first one, and every other one behind a separator. -/
theorem intercalate_cons_eq_join (separator first : String) (more : List String) :
    separator.intercalate (first :: more) =
      first ++ String.join (more.map fun piece => separator ++ piece) := by
  induction more generalizing first with
  | nil => simp
  | cons next more ih =>
      rw [String.intercalate_cons_cons, ih]
      simp [String.append_assoc]

theorem joinWith_cons
    (separator piece : List Char)
    {more : List (List Char)}
    (h : more ≠ []) :
    joinWith separator (piece :: more) = piece ++ separator ++ joinWith separator more := by
  cases more with
  | nil => exact absurd rfl h
  | cons next more => rfl

/-- What holds of pieces and of their separator, and is kept when texts are put together, holds of
the joined pieces. -/
theorem intercalate_induction
    {P : String → Prop}
    (hempty : P "")
    (happend : ∀ {front back}, P front → P back → P (front ++ back))
    {separator : String}
    {pieces : List String}
    (hseparator : P separator)
    (hpieces : ∀ piece ∈ pieces, P piece) :
    P (separator.intercalate pieces) := by
  induction pieces with
  | nil => exact hempty
  | cons piece more ih =>
      rw [List.forall_mem_cons] at hpieces
      cases more with
      | nil =>
          rw [String.intercalate_singleton]
          exact hpieces.1
      | cons next more =>
          rw [String.intercalate_cons_cons]
          exact happend (happend hpieces.1 hseparator) (ih hpieces.2)

/-- A piece of a text holds only characters of the text. -/
theorem subset_of_mem_splitAt
    {separator cs piece : List Char}
    (hseparator : separator ≠ [])
    (h : piece ∈ splitAt separator cs) :
    piece ⊆ cs := by
  rw [← joinWith_splitAt hseparator cs]
  exact subset_joinWith h

/-! ## Separators -/

/-- A separator between two texts is the first one in the whole: none starts earlier. -/
def FirstBehind (separator front back : List Char) : Prop :=
  ∀ before after : List Char,
    before ++ separator ++ after = front ++ separator ++ back → front.length ≤ before.length

section Separators

variable {separator front back : List Char} {c : Char}

theorem firstBehind_nil : FirstBehind separator [] back :=
  fun _ _ _ => Nat.zero_le _

theorem firstBehind_cons_iff :
    FirstBehind separator (c :: front) back ↔
      ¬separator.isPrefixOf (c :: (front ++ separator ++ back)) = true ∧
        FirstBehind separator front back := by
  rw [List.isPrefixOf_iff_prefix]
  constructor
  · intro h
    constructor
    · rintro ⟨after, hafter⟩
      have hlength := h [] after (by simpa using hafter)
      simp at hlength
    · intro before after hwhole
      have hlength := h (c :: before) after (by simpa using hwhole)
      simpa using hlength
  · rintro ⟨hnot, h⟩ before after hwhole
    cases before with
    | nil => exact absurd ⟨after, hwhole⟩ hnot
    | cons d before => exact Nat.succ_le_succ (h before after (List.cons.inj hwhole).2)

/-- A separator with a first character of its own cannot start in a text and end behind it. -/
theorem firstBehind_of_absent
    {mark : Char}
    {tail : List Char}
    (hmark : mark ∉ tail)
    (hfront : ¬(mark :: tail) <:+: front)
    (back : List Char) :
    FirstBehind (mark :: tail) front back := by
  intro before after hwhole
  by_contra hlength
  rw [List.append_assoc, List.append_assoc] at hwhole
  rcases List.append_eq_append_iff.mp hwhole with ⟨more, rfl, hmore⟩ | ⟨more, rfl, -⟩
  · rcases List.append_eq_append_iff.mp hmore with ⟨inner, hinner, -⟩ | ⟨inner, hinner, hrest⟩
    · exact hfront ⟨before, inner, by rw [hinner, List.append_assoc]⟩
    · cases more with
      | nil => simp at hlength
      | cons d more =>
          obtain ⟨rfl, htail⟩ := List.cons.inj hinner
          cases inner with
          | nil => exact hfront ⟨before, [], by simp [htail]⟩
          | cons e inner =>
              -- What overlaps the end of the text starts with the first character once more.
              obtain ⟨rfl, -⟩ := List.cons.inj hrest
              exact hmark (htail ▸ by simp)
  · simp at hlength

/-- A text is cut at its first separator. -/
theorem cutAt_append
    (hseparator : separator ≠ [])
    (h : FirstBehind separator front back) :
    cutAt separator (front ++ separator ++ back) = some (front, back) := by
  induction front with
  | nil =>
      cases separator with
      | nil => exact absurd rfl hseparator
      | cons mark tail => simp [cutAt]
  | cons c front ih =>
      obtain ⟨hnot, hfront⟩ := firstBehind_cons_iff.mp h
      rw [List.cons_append, List.cons_append, cutAt, if_neg hnot, ih hfront]
      rfl

theorem firstBehind_iff (hseparator : separator ≠ []) :
    FirstBehind separator front back ↔
      cutAt separator (front ++ separator ++ back) = some (front, back) := by
  refine ⟨cutAt_append hseparator, fun hcut => ?_⟩
  induction front with
  | nil => exact firstBehind_nil
  | cons c front ih =>
      rw [List.cons_append, List.cons_append, cutAt] at hcut
      split at hcut
      · simp at hcut
      · rename_i hnot
        obtain ⟨parts, hparts, heq⟩ := Option.map_eq_some_iff.mp hcut
        obtain ⟨hfront, hback⟩ := Prod.mk.inj heq
        obtain rfl : parts = (front, back) := Prod.ext (List.cons.inj hfront).2 hback
        exact firstBehind_cons_iff.mpr ⟨hnot, ih hparts⟩

/-- Whether a separator is the first one does not depend on what stands behind it. -/
theorem FirstBehind.other
    (h : FirstBehind separator front back)
    (other : List Char) :
    FirstBehind separator front other := by
  intro before after hwhole
  by_contra hlength
  have hprefix : before ++ separator <+: front ++ separator := by
    refine List.prefix_of_prefix_length_le ⟨after, hwhole⟩ (List.prefix_append _ other) ?_
    simp only [List.length_append]
    omega
  obtain ⟨more, hmore⟩ := hprefix
  exact hlength (h before (more ++ back) (by rw [← List.append_assoc, hmore]))

/-- A text that holds a separator is cut, at the first one. -/
theorem exists_cut_of_infix
    (hseparator : separator ≠ [])
    {cs : List Char}
    (h : separator <:+: cs) :
    ∃ front back, cutAt separator cs = some (front, back) ∧ FirstBehind separator front back := by
  obtain ⟨front, back, hcut⟩ : ∃ front back, cutAt separator cs = some (front, back) := by
    induction cs with
    | nil => exact absurd (List.infix_nil.mp h) hseparator
    | cons c rest ih =>
        rw [cutAt]
        split
        · exact ⟨_, _, rfl⟩
        · rename_i hprefix
          rw [List.infix_cons_iff, ← List.isPrefixOf_iff_prefix] at h
          obtain ⟨front, back, hcut⟩ := ih (h.resolve_left hprefix)
          exact ⟨c :: front, back, by rw [hcut]; rfl⟩
  exact ⟨front, back, hcut, (firstBehind_iff hseparator).mpr (append_of_cutAt hcut ▸ hcut)⟩

/-- What is passed over has no part in the pieces. -/
theorem splitSkipping_passed
    (separator : List Char)
    (passed : Nat)
    (cs : List Char) :
    splitSkipping separator passed cs = splitSkipping separator 0 (cs.drop passed) := by
  induction cs generalizing passed with
  | nil => simp [splitSkipping]
  | cons c rest ih =>
      cases passed with
      | zero => rfl
      | succ passed => exact ih passed

/-- The text before the first separator is the first piece. -/
theorem splitAt_append
    (hseparator : separator ≠ [])
    (h : FirstBehind separator front back) :
    splitAt separator (front ++ separator ++ back) = front :: splitAt separator back := by
  induction front with
  | nil =>
      cases separator with
      | nil => exact absurd rfl hseparator
      | cons mark tail => simp [splitAt, splitSkipping, splitSkipping_passed _ tail.length]
  | cons c front ih =>
      obtain ⟨hnot, hfront⟩ := firstBehind_cons_iff.mp h
      rw [splitAt] at ih
      rw [List.cons_append, List.cons_append, splitAt, splitSkipping, if_neg hnot, ih hfront]
      rfl

/-- A text without the separator is not cut. -/
theorem splitAt_of_absent
    {cs : List Char}
    (h : ¬separator <:+: cs) :
    splitAt separator cs = [cs] := by
  induction cs with
  | nil => rfl
  | cons c rest ih =>
      rw [List.infix_cons_iff, not_or, ← List.isPrefixOf_iff_prefix] at h
      rw [splitAt] at ih
      rw [splitAt, splitSkipping, if_neg h.1, ih h.2]
      rfl

/-- Cutting joined pieces gives them back. -/
theorem splitAt_joinWith
    {mark : Char}
    {tail : List Char}
    (hmark : mark ∉ tail)
    {pieces : List (List Char)}
    (hne : pieces ≠ [])
    (hpieces : ∀ piece ∈ pieces, ¬(mark :: tail) <:+: piece) :
    splitAt (mark :: tail) (joinWith (mark :: tail) pieces) = pieces := by
  induction pieces with
  | nil => exact absurd rfl hne
  | cons piece more ih =>
      rw [List.forall_mem_cons] at hpieces
      cases more with
      | nil => exact splitAt_of_absent hpieces.1
      | cons next more =>
          rw [joinWith_cons _ _ (by simp),
            splitAt_append (by simp) (firstBehind_of_absent hmark hpieces.1 _),
            ih (by simp) hpieces.2]

end Separators

/-! ## Indenting -/

/-- A text before a line break is a line, unless a carriage return ends it. -/
theorem lines_append_break
    {front : List Char}
    (hbreak : '\n' ∉ front)
    (hreturn : front.getLast? ≠ some '\r')
    (rest : List Char) :
    lines (front ++ '\n' :: rest) = front :: lines rest := by
  induction front with
  | nil => simp [lines]
  | cons c front ih =>
      rw [List.mem_cons, not_or] at hbreak
      have hline : lines (front ++ '\n' :: rest) = front :: lines rest := by
        refine ih hbreak.2 fun hlast => hreturn ?_
        rw [List.getLast?_cons, hlast]
        rfl
      -- A carriage return starts no line end here: what follows it is not the break.
      have hnext : ∀ more, c = '\r' → front ++ '\n' :: rest ≠ '\n' :: more := by
        rintro more rfl hmore
        cases front with
        | nil => simp at hreturn
        | cons d front =>
            obtain rfl : d = '\n' := (List.cons.inj hmore).1
            simp at hbreak
      rw [List.cons_append, lines, hline]
      · exact Ne.symm hbreak.1
      · exact hnext

/-- A text without line breaks is one line. -/
theorem lines_of_not_mem
    {cs : List Char}
    (hne : cs ≠ [])
    (hbreak : '\n' ∉ cs) :
    lines cs = [cs] := by
  induction cs with
  | nil => exact absurd rfl hne
  | cons c cs ih =>
      rw [List.mem_cons, not_or] at hbreak
      have hnext : ∀ more, c = '\r' → cs ≠ '\n' :: more := by
        rintro more - rfl
        simp at hbreak
      rw [lines]
      · cases cs with
        | nil => rfl
        | cons d more => rw [ih (by simp) hbreak.2]
      · exact Ne.symm hbreak.1
      · exact hnext

/-- Indenting joined lines puts a tab before each of them. -/
theorem indentLines_joinWith
    {mark : Char}
    (hmark : mark ≠ '\n')
    (hreturn : mark ≠ '\r')
    {pieces : List (List Char)}
    (hpieces : ∀ piece ∈ pieces, piece ≠ [] ∧ '\n' ∉ piece) :
    indentLines (joinWith [mark, '\n'] pieces) =
      joinWith [mark, '\n'] (pieces.map ('\t' :: ·)) := by
  induction pieces with
  | nil => rfl
  | cons piece more ih =>
      rw [List.forall_mem_cons] at hpieces
      cases more with
      | nil =>
          show indentLines piece = '\t' :: piece
          rw [indentLines, lines_of_not_mem hpieces.1.1 hpieces.1.2]
          rfl
      | cons next more =>
          -- The first line of the rest is not empty, so that the rest has lines of its own.
          have hrest : joinWith [mark, '\n'] (next :: more) ≠ [] := fun hnil =>
            (hpieces.2 next List.mem_cons_self).1
              (List.eq_nil_of_subset_nil (hnil ▸ subset_joinWith List.mem_cons_self))
          have hline : '\n' ∉ piece ++ [mark] := by simp [hpieces.1.2, hmark.symm]
          have hlast : (piece ++ [mark]).getLast? ≠ some '\r' := by simpa using hreturn
          have hlines : lines (joinWith [mark, '\n'] (piece :: next :: more)) =
              (piece ++ [mark]) :: lines (joinWith [mark, '\n'] (next :: more)) := by
            rw [← lines_append_break hline hlast]
            simp [joinWith]
          rw [indentLines, hlines, List.map_cons,
            joinWith_cons _ _ (by simpa using lines_ne_nil hrest), ← indentLines, ih hpieces.2]
          simp [joinWith]

/-! ## Trimming -/

/-- What is trimmed is blank. -/
theorem exists_blanks_around_trim (cs : List Char) :
    ∃ front back : List Char,
      (∀ c ∈ front, isBlank c = true) ∧ (∀ c ∈ back, isBlank c = true) ∧
        front ++ (trim cs ++ back) = cs := by
  obtain ⟨back, hback, hend⟩ := trimEnd_append_blanks (trimStart cs)
  refine ⟨cs.takeWhile isBlank, back, fun c hc => ?_, hback, ?_⟩
  · exact List.all_eq_true.mp List.all_takeWhile c hc
  · rw [trim, hend, trimStart, List.takeWhile_append_dropWhile]

theorem trim_subset (cs : List Char) : trim cs ⊆ cs := by
  obtain ⟨front, back, -, -, hcs⟩ := exists_blanks_around_trim cs
  intro c hc
  rw [← hcs]
  simp [hc]

/-- A trimmed text ends with a character that is not blank. -/
theorem isBlank_of_getLast?_trimEnd
    {cs : List Char}
    {last : Char}
    (h : (trimEnd cs).getLast? = some last) :
    isBlank last = false := by
  induction cs with
  | nil => simp [trimEnd] at h
  | cons c cs ih =>
      rw [trimEnd] at h
      cases hkept : trimEnd cs with
      | nil =>
          cases hc : isBlank c with
          | true => simp [hkept, hc] at h
          | false =>
              simp only [hkept, hc, Bool.false_eq_true, if_false, List.getLast?_singleton,
                Option.some.injEq] at h
              exact h ▸ hc
      | cons d kept =>
          simp only [hkept, List.getLast?_cons_cons] at h
          exact ih (by rw [hkept, h])

/-- Nothing is cut behind a character that is not blank. -/
theorem trimEnd_concat
    (cs : List Char)
    {last : Char}
    (hlast : isBlank last = false) :
    trimEnd (cs ++ [last]) = cs ++ [last] := by
  induction cs with
  | nil => simp [trimEnd, hlast]
  | cons c cs ih =>
      rw [List.cons_append, trimEnd, ih]
      cases cs <;> rfl

/-- A trimmed text starts with a character that is not blank. -/
theorem isBlank_of_head?_trim
    {cs : List Char}
    {first : Char}
    (h : (trim cs).head? = some first) :
    isBlank first = false := by
  obtain ⟨back, -, hend⟩ := trimEnd_append_blanks (trimStart cs)
  have hhead : (trimStart cs).head? = some first := by
    rw [← hend, ← trim, List.head?_append, h]
    rfl
  have hnot := List.head?_dropWhile_not isBlank cs
  rw [← trimStart, hhead] at hnot
  exact hnot

/-- Nothing is cut from a text with no blank at either end. -/
theorem trim_eq_self
    {cs : List Char}
    (hfirst : ∀ c ∈ cs.head?, isBlank c = false)
    (hlast : ∀ c ∈ cs.getLast?, isBlank c = false) :
    trim cs = cs := by
  cases cs with
  | nil => rfl
  | cons c rest =>
      have hstart : trimStart (c :: rest) = c :: rest :=
        List.dropWhile_cons_of_neg (by simpa using hfirst c rfl)
      obtain ⟨front, last, hcs⟩ := (List.eq_nil_or_concat' (c :: rest)).resolve_left (by simp)
      rw [trim, hstart]
      rw [hcs] at hlast ⊢
      exact trimEnd_concat front (hlast last (by simp))

theorem trim_trim (cs : List Char) : trim (trim cs) = trim cs :=
  trim_eq_self (fun _ => isBlank_of_head?_trim) (fun _ => isBlank_of_getLast?_trimEnd)

theorem trim_enclose
    {mark : Char}
    (hmark : isBlank mark = false)
    (cs : List Char) :
    trim (enclose mark cs) = enclose mark cs := by
  refine trim_eq_self ?_ ?_
  · simp [enclose, hmark]
  · simp [enclose, hmark, List.getLast?_cons]

/-! ## Doubling -/

/-- Doubling marks brings in no other characters. -/
theorem double_subset (mark : Char) (cs : List Char) : double mark cs ⊆ cs := by
  induction cs with
  | nil => exact List.Subset.refl _
  | cons c cs ih =>
      have hmore := List.Subset.trans ih (List.subset_cons_self c cs)
      rw [double]
      split
      · rename_i hc
        have hmark : mark ∈ c :: cs := by simp [hc]
        exact List.cons_subset.mpr ⟨hmark, List.cons_subset.mpr ⟨hmark, hmore⟩⟩
      · exact List.cons_subset.mpr ⟨by simp, hmore⟩

/-- Takes every doubled mark for one, from the left. -/
def undouble (mark : Char) : List Char → List Char
  | [] => []
  | [c] => [c]
  | c :: d :: rest =>
      if c = mark ∧ d = mark then mark :: undouble mark rest else c :: undouble mark (d :: rest)

theorem undouble_double (mark : Char) (cs : List Char) : undouble mark (double mark cs) = cs := by
  induction cs with
  | nil => rfl
  | cons c cs ih =>
      rw [double]
      split
      · rename_i hc
        rw [undouble, if_pos ⟨rfl, rfl⟩, ih, hc]
      · rename_i hc
        cases hcs : double mark cs with
        | nil =>
            rw [hcs] at ih
            rw [← ih]
            rfl
        | cons d more => rw [undouble, if_neg (fun h => hc h.1), ← hcs, ih]

end Text
end CqlDelta
