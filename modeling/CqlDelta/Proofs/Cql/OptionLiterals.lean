import CqlDelta.Cql.Options
import Mathlib.Data.List.TakeWhile

/-!
# Written option values

The value of an option is written as a literal of the query language: a string, a map, a number or a
truth value. A trimmed value that is one already is written as it stands, and what is none becomes a
string. Two kinds of values are taken for literals although they are none: texts between marks with
a mark inside that is not doubled, and the words for numbers without digits behind a minus sign.
They are the only ones whose written form is no literal
(`option_values_are_literals_unless_mistaken`).
-/

namespace CqlDelta
namespace Cql

open Text

/-! ## Decimals -/

/-- A run of digits, possibly empty. -/
def Digits (cs : List Char) : Prop :=
  ∀ c ∈ cs, c.isDigit = true

/-- A text that no digit starts. -/
def StartsNoDigit (cs : List Char) : Prop :=
  ∀ c ∈ cs.head?, c.isDigit = false

/-- The exponent of a decimal, if it has one. -/
inductive Exponent : List Char → Prop
  | absent : Exponent []
  | present {mark : Char} {sign digits : List Char}
      (marked : mark = 'e' ∨ mark = 'E')
      (signed : sign = [] ∨ sign = ['+'] ∨ sign = ['-'])
      (run : Digits digits)
      (filled : digits ≠ []) :
      Exponent (mark :: (sign ++ digits))

/-- A finite decimal without a sign. It has a digit before its point or behind it. -/
inductive UnsignedDecimal : List Char → Prop
  | whole {digits exponent : List Char}
      (run : Digits digits)
      (filled : digits ≠ [])
      (scaled : Exponent exponent) :
      UnsignedDecimal (digits ++ exponent)
  | pointed {front back exponent : List Char}
      (before : Digits front)
      (behind : Digits back)
      (filled : front ≠ [] ∨ back ≠ [])
      (scaled : Exponent exponent) :
      UnsignedDecimal (front ++ '.' :: (back ++ exponent))

theorem Digits.dropWhile_append
    {digits rest : List Char}
    (h : Digits digits)
    (hrest : StartsNoDigit rest) :
    (digits ++ rest).dropWhile Char.isDigit = rest := by
  rw [List.dropWhile_append_of_pos h]
  cases rest with
  | nil => rfl
  | cons c rest => exact List.dropWhile_cons_of_neg (by simpa using hrest c rfl)

theorem digits_takeWhile (cs : List Char) : Digits (cs.takeWhile Char.isDigit) :=
  fun _ hc => List.all_eq_true.mp List.all_takeWhile _ hc

theorem startsNoDigit_dropWhile (cs : List Char) : StartsNoDigit (cs.dropWhile Char.isDigit) := by
  intro c hc
  have hhead := List.head?_dropWhile_not Char.isDigit cs
  rw [Option.mem_def.mp hc] at hhead
  exact hhead

/-- Just a run of digits that is not empty is skipped, up to its end. -/
theorem skipDigits?_eq_some_iff {cs rest : List Char} :
    skipDigits? cs = some rest ↔
      ∃ digits, Digits digits ∧ digits ≠ [] ∧ StartsNoDigit rest ∧ cs = digits ++ rest := by
  constructor
  · intro h
    cases cs with
    | nil => simp [skipDigits?] at h
    | cons c more =>
        rw [skipDigits?] at h
        split at h
        · rename_i hc
          obtain rfl := Option.some.inj h
          refine ⟨c :: more.takeWhile Char.isDigit, ?_, by simp, startsNoDigit_dropWhile more, ?_⟩
          · exact List.forall_mem_cons.mpr ⟨hc, digits_takeWhile more⟩
          · rw [List.cons_append, List.takeWhile_append_dropWhile]
        · simp at h
  · rintro ⟨digits, hrun, hfilled, hrest, rfl⟩
    cases digits with
    | nil => exact absurd rfl hfilled
    | cons c digits =>
        obtain ⟨hc, hmore⟩ := List.forall_mem_cons.mp hrun
        rw [List.cons_append, skipDigits?, if_pos hc, Digits.dropWhile_append hmore hrest]

theorem Digits.skipDigits?_append
    {digits rest : List Char}
    (h : Digits digits)
    (hfilled : digits ≠ [])
    (hrest : StartsNoDigit rest) :
    skipDigits? (digits ++ rest) = some rest :=
  skipDigits?_eq_some_iff.mpr ⟨digits, h, hfilled, hrest, rfl⟩

theorem skipDigits?_eq_none {cs : List Char} (h : StartsNoDigit cs) : skipDigits? cs = none := by
  cases cs with
  | nil => rfl
  | cons c rest => simp [skipDigits?, h c rfl]

theorem exists_sign_before_skipSign (cs : List Char) :
    ∃ sign, (sign = [] ∨ sign = ['+'] ∨ sign = ['-']) ∧ sign ++ skipSign cs = cs := by
  rw [skipSign.eq_def]
  split
  · exact ⟨['+'], by simp, rfl⟩
  · exact ⟨['-'], by simp, rfl⟩
  · exact ⟨[], by simp, rfl⟩

theorem skipSign_append
    {sign digits : List Char}
    (hsign : sign = [] ∨ sign = ['+'] ∨ sign = ['-'])
    (hdigits : Digits digits) :
    skipSign (sign ++ digits) = digits := by
  rcases hsign with rfl | rfl | rfl
  · rw [List.nil_append, skipSign.eq_def]
    split
    · exact absurd (hdigits '+' (by simp)) (by decide)
    · exact absurd (hdigits '-' (by simp)) (by decide)
    · rfl
  · rfl
  · rfl

theorem isExponentOrEmpty_iff {cs : List Char} : isExponentOrEmpty cs = true ↔ Exponent cs := by
  constructor
  · intro h
    cases cs with
    | nil => exact .absent
    | cons mark rest =>
        simp only [isExponentOrEmpty, Bool.and_eq_true, Bool.or_eq_true, decide_eq_true_eq,
          Option.any_eq_true, List.isEmpty_iff] at h
        obtain ⟨hmark, _, hdigits, rfl⟩ := h
        obtain ⟨digits, hrun, hfilled, -, hrest⟩ := skipDigits?_eq_some_iff.mp hdigits
        obtain ⟨sign, hsign, hwhole⟩ := exists_sign_before_skipSign rest
        rw [hrest, List.append_nil] at hwhole
        exact hwhole ▸ .present hmark hsign hrun hfilled
  · intro h
    cases h with
    | absent => rfl
    | @present mark sign digits marked signed run filled =>
        have hdigits : skipDigits? digits = some [] := by
          simpa using @Digits.skipDigits?_append digits [] run filled (by simp [StartsNoDigit])
        simp [isExponentOrEmpty, marked, skipSign_append signed run, hdigits]

theorem Exponent.startsNoDigit {cs : List Char} (h : Exponent cs) : StartsNoDigit cs := by
  intro c hc
  cases h with
  | absent => simp at hc
  | present hmark =>
      obtain rfl := Option.some.inj hc
      rcases hmark with rfl | rfl <;> decide

theorem not_exponent_point {rest : List Char} : ¬Exponent ('.' :: rest) := by
  intro h
  cases h with
  | present hmark => rcases hmark with h | h <;> exact absurd h (by decide)

/-- The test for decimals accepts decimals and nothing else. -/
theorem isUnsignedDecimal_iff {cs : List Char} :
    isUnsignedDecimal cs = true ↔ UnsignedDecimal cs := by
  have hnone : Digits [] := by simp [Digits]
  rw [isUnsignedDecimal.eq_def]
  constructor
  · intro h
    split at h
    · rename_i rest hskip
      obtain ⟨front, hfront, hfilled, -, rfl⟩ := skipDigits?_eq_some_iff.mp hskip
      rw [← @List.takeWhile_append_dropWhile _ Char.isDigit rest]
      exact .pointed hfront (digits_takeWhile rest) (.inl hfilled) (isExponentOrEmpty_iff.mp h)
    · rename_i rest _ hskip
      obtain ⟨digits, hrun, hfilled, -, rfl⟩ := skipDigits?_eq_some_iff.mp hskip
      exact .whole hrun hfilled (isExponentOrEmpty_iff.mp h)
    · split at h
      · obtain ⟨exponent, hskip, hexponent⟩ := (Option.any_eq_true _ _).mp h
        obtain ⟨back, hback, hfilled, -, rfl⟩ := skipDigits?_eq_some_iff.mp hskip
        exact .pointed hnone hback (.inr hfilled) (isExponentOrEmpty_iff.mp hexponent)
      · simp at h
  · intro h
    cases h with
    | @whole digits exponent run filled scaled =>
        rw [run.skipDigits?_append filled scaled.startsNoDigit]
        split
        · rename_i hpoint
          exact absurd (Option.some.inj hpoint ▸ scaled) not_exponent_point
        · rename_i hrest
          exact Option.some.inj hrest ▸ isExponentOrEmpty_iff.mpr scaled
        · contradiction
    | @pointed front back exponent before behind filled scaled =>
        have hexponent := isExponentOrEmpty_iff.mpr scaled
        have hpoint : StartsNoDigit ('.' :: (back ++ exponent)) := by simp [StartsNoDigit]
        -- Nothing is skipped before a leading point: then the digits behind it are tested.
        by_cases hempty : front = []
        · subst hempty
          have hskip := behind.skipDigits?_append (by simpa using filled) scaled.startsNoDigit
          rw [List.nil_append, skipDigits?_eq_none hpoint]
          simpa [hskip] using hexponent
        · rw [before.skipDigits?_append hempty hpoint]
          simpa [behind.dropWhile_append scaled.startsNoDigit] using hexponent

/-! ## Literals -/

/-- The spellings of truth values, up to the case of letters. -/
def truthWords : List (List Char) :=
  [['t', 'r', 'u', 'e'], ['f', 'a', 'l', 's', 'e']]

/-- The spellings of numbers without digits, up to the case of letters. -/
def numberWords : List (List Char) :=
  [['i', 'n', 'f'], ['i', 'n', 'f', 'i', 'n', 'i', 't', 'y'], ['n', 'a', 'n']]

/-- A complete literal of the query language. -/
inductive Literal : List Char → Prop
  | string (content : List Char) :
      Literal (enclose literalMark content)
  | map (content : List Char) :
      Literal ('\x7b' :: (content ++ ['\x7d']))
  | number {sign decimal : List Char}
      (signed : sign = [] ∨ sign = ['-'])
      (finite : UnsignedDecimal decimal) :
      Literal (sign ++ decimal)
  | truth {word : List Char}
      (spelled : word.map Char.toLower ∈ truthWords) :
      Literal word

/-- A value that is taken for a literal although it is none: a text between marks that does not
double each mark in it, or a word for a number without digits behind a minus sign. -/
inductive Mistaken : List Char → Prop
  | string {content : List Char}
      (loose : ∀ inner, content ≠ double literalMark inner) :
      Mistaken (literalMark :: (content ++ [literalMark]))
  | number {word : List Char}
      (spelled : word.map Char.toLower ∈ numberWords) :
      Mistaken ('-' :: word)

theorem isBetween_iff
    {first last : Char}
    {cs : List Char} :
    isBetween first last cs = true ↔ ∃ content, cs = first :: (content ++ [last]) := by
  cases cs with
  | nil => simp [isBetween]
  | cons c rest =>
      simp only [isBetween, Bool.and_eq_true, decide_eq_true_eq, beq_iff_eq,
        List.getLast?_eq_some_iff, List.cons.injEq, exists_and_left]

theorem isTruthValue_iff {cs : List Char} :
    isTruthValue cs = true ↔ cs.map Char.toLower ∈ truthWords := by
  simp [isTruthValue, truthWords]

theorem isNumberWord_iff {cs : List Char} :
    isNumberWord cs = true ↔ cs.map Char.toLower ∈ numberWords := by
  simp [isNumberWord, numberWords, or_assoc]

/-- A decimal starts with a digit or its point. -/
theorem UnsignedDecimal.exists_head {cs : List Char} (h : UnsignedDecimal cs) :
    ∃ c rest, cs = c :: rest ∧ (c.isDigit = true ∨ c = '.') := by
  cases h with
  | @whole digits exponent run filled scaled =>
      cases digits with
      | nil => exact absurd rfl filled
      | cons c digits => exact ⟨c, digits ++ exponent, rfl, .inl (run c List.mem_cons_self)⟩
  | @pointed front back exponent before behind filled scaled =>
      cases front with
      | nil => exact ⟨'.', back ++ exponent, rfl, .inr rfl⟩
      | cons c front => exact ⟨c, _, rfl, .inl (before c List.mem_cons_self)⟩

theorem toLower_of_isDigit {c : Char} (h : c.isDigit = true) : c.toLower = c := by
  have hnot : ¬(c.val ≥ 'A'.val ∧ c.val ≤ 'Z'.val) := by
    intro hletter
    simp only [Char.isDigit, Bool.and_eq_true, decide_eq_true_eq] at h
    exact absurd (UInt32.le_trans hletter.1 h.2) (by decide)
  exact dif_neg hnot

/-- No word for a number without digits is a decimal. -/
theorem not_unsignedDecimal_of_word
    {word : List Char}
    (h : word.map Char.toLower ∈ numberWords) :
    ¬UnsignedDecimal word := by
  intro hdecimal
  obtain ⟨c, rest, rfl, hc⟩ := hdecimal.exists_head
  have hlower : c.toLower = c := by
    rcases hc with hdigit | rfl
    · exact toLower_of_isDigit hdigit
    · rfl
  have hletter : c = 'i' ∨ c = 'n' := by
    rw [List.map_cons, hlower] at h
    simp only [numberWords, List.mem_cons, List.cons.injEq, List.not_mem_nil, or_false] at h
    rcases h with ⟨hc, -⟩ | ⟨hc, -⟩ | ⟨hc, -⟩
    · exact .inl hc
    · exact .inl hc
    · exact .inr hc
  rcases hc with hdigit | rfl
  · rcases hletter with rfl | rfl <;> exact absurd hdigit (by decide)
  · rcases hletter with h | h <;> exact absurd h (by decide)

theorem isNumeric_iff {cs : List Char} :
    isNumeric cs = true ↔
      (∃ sign decimal, (sign = [] ∨ sign = ['-']) ∧ UnsignedDecimal decimal ∧
          cs = sign ++ decimal) ∨
        ∃ word, word.map Char.toLower ∈ numberWords ∧ cs = '-' :: word := by
  rw [isNumeric.eq_def]
  constructor
  · intro h
    split at h
    · rename_i rest
      rw [Bool.or_eq_true, isUnsignedDecimal_iff, isNumberWord_iff] at h
      rcases h with hdecimal | hword
      · exact .inl ⟨['-'], rest, .inr rfl, hdecimal, rfl⟩
      · exact .inr ⟨rest, hword, rfl⟩
    · exact .inl ⟨[], cs, .inl rfl, isUnsignedDecimal_iff.mp h, rfl⟩
  · rintro (⟨sign, decimal, rfl | rfl, hdecimal, rfl⟩ | ⟨word, hword, rfl⟩)
    · split
      · obtain ⟨c, rest, hcs, hc⟩ := hdecimal.exists_head
        obtain ⟨rfl, -⟩ := List.cons.inj hcs
        exact absurd hc (by decide)
      · exact isUnsignedDecimal_iff.mpr hdecimal
    · simp [isUnsignedDecimal_iff.mpr hdecimal]
    · simp [isNumberWord_iff.mpr hword]

/-- The test for literals accepts those and what is mistaken for one. -/
theorem isLiteral_iff {cs : List Char} : isLiteral cs = true ↔ Literal cs ∨ Mistaken cs := by
  rw [isLiteral, Bool.or_eq_true, Bool.or_eq_true, Bool.or_eq_true, isBetween_iff, isBetween_iff,
    isNumeric_iff, isTruthValue_iff]
  constructor
  · rintro (((⟨content, rfl⟩ | ⟨content, rfl⟩) | hnumber) | htruth)
    · by_cases hdoubled : ∃ inner, content = double literalMark inner
      · obtain ⟨inner, rfl⟩ := hdoubled
        exact .inl (.string inner)
      · exact .inr (.string (not_exists.mp hdoubled))
    · exact .inl (.map content)
    · rcases hnumber with ⟨sign, decimal, hsign, hdecimal, rfl⟩ | ⟨word, hword, rfl⟩
      · exact .inl (.number hsign hdecimal)
      · exact .inr (.number hword)
    · exact .inl (.truth htruth)
  · rintro (h | h)
    · cases h with
      | string content => exact .inl (.inl (.inl ⟨_, rfl⟩))
      | map content => exact .inl (.inl (.inr ⟨_, rfl⟩))
      | number signed finite => exact .inl (.inr (.inl ⟨_, _, signed, finite, rfl⟩))
      | truth spelled => exact .inr spelled
    · cases h with
      | string loose => exact .inl (.inl (.inl ⟨_, rfl⟩))
      | number spelled => exact .inl (.inr (.inr ⟨_, spelled, rfl⟩))

/-- The first character of a literal tells what kind of literal it is. -/
theorem Literal.kind
    {c : Char}
    {rest : List Char}
    (h : Literal (c :: rest)) :
    (c = literalMark ∧ ∃ content, rest = double literalMark content ++ [literalMark]) ∨
      c = '\x7b' ∨
      (c.isDigit = true ∨ c = '.') ∨
      (c = '-' ∧ UnsignedDecimal rest) ∨
      (c.toLower = 't' ∨ c.toLower = 'f') := by
  generalize hcs : c :: rest = cs at h
  cases h with
  | string content =>
      obtain ⟨rfl, rfl⟩ := List.cons.inj hcs
      exact .inl ⟨rfl, content, rfl⟩
  | map content => exact .inr (.inl (List.cons.inj hcs).1)
  | @number sign decimal signed finite =>
      rcases signed with rfl | rfl
      · obtain ⟨d, more, rfl, hd⟩ := finite.exists_head
        obtain ⟨rfl, -⟩ := List.cons.inj hcs
        exact .inr (.inr (.inl hd))
      · obtain ⟨rfl, rfl⟩ := List.cons.inj hcs
        exact .inr (.inr (.inr (.inl ⟨rfl, finite⟩)))
  | truth spelled =>
      rw [← hcs, List.map_cons] at spelled
      simp only [truthWords, List.mem_cons, List.cons.injEq, List.not_mem_nil, or_false] at spelled
      exact .inr (.inr (.inr (.inr (spelled.imp And.left And.left))))

/-- What is mistaken for a literal is none. -/
theorem Mistaken.not_literal {cs : List Char} (h : Mistaken cs) : ¬Literal cs := by
  intro hliteral
  cases h with
  | string loose =>
      rcases hliteral.kind with ⟨-, inner, hinner⟩ | hmap | hnumber | ⟨hminus, -⟩ | htruth
      · exact loose inner (List.append_cancel_right hinner)
      · exact absurd hmap (by decide)
      · exact absurd hnumber (by decide)
      · exact absurd hminus (by decide)
      · exact absurd htruth (by decide)
  | number spelled =>
      rcases hliteral.kind with ⟨hmark, -⟩ | hmap | hnumber | ⟨-, hdecimal⟩ | htruth
      · exact absurd hmark (by decide)
      · exact absurd hmap (by decide)
      · exact absurd hnumber (by decide)
      · exact not_unsignedDecimal_of_word spelled hdecimal
      · exact absurd htruth (by decide)

/-- A string ends at its last mark. -/
theorem readEnclosed_string
    {cs content : List Char}
    (h : cs = enclose literalMark content) :
    readEnclosed literalMark cs = some (content, []) := by
  rw [h, ← List.append_nil (enclose literalMark content)]
  exact readEnclosed_append literalMark content [] (by simp)

/-- The written form of an option's value is a literal, unless the trimmed value is mistaken for
one. A value that is a literal already, or mistaken for one, is written as it stands, and any other
becomes a string. Where a string is written, reading from its first mark stops behind its last
one. -/
theorem option_values_are_literals_unless_mistaken (value : String) :
    let trimmed := trim value.toList
    let written := (optionValue value).toList
    (Literal written ↔ ¬Mistaken trimmed) ∧
    (Literal trimmed ∨ Mistaken trimmed → written = trimmed) ∧
    (¬Literal trimmed → ¬Mistaken trimmed → written = enclose literalMark trimmed) ∧
    ∀ content, written = enclose literalMark content →
      readEnclosed literalMark written = some (content, []) := by
  intro trimmed written
  have hkept (h : Literal trimmed ∨ Mistaken trimmed) : written = trimmed := by
    simp [written, optionValue, isLiteral_iff.mpr h, trimmed]
  have hquoted (h : ¬(Literal trimmed ∨ Mistaken trimmed)) :
      written = enclose literalMark trimmed := by
    simp [written, optionValue, isLiteral_iff.not.mpr h, trimmed]
  refine ⟨⟨?sound, ?complete⟩, hkept, ?string, fun content => readEnclosed_string⟩
  case sound =>
    intro hliteral hmistaken
    rw [hkept (.inr hmistaken)] at hliteral
    exact hmistaken.not_literal hliteral
  case complete =>
    intro hmistaken
    by_cases hliteral : Literal trimmed
    · rwa [hkept (.inl hliteral)]
    · rw [hquoted (not_or.mpr ⟨hliteral, hmistaken⟩)]
      exact .string trimmed
  case string => exact fun hliteral hmistaken => hquoted (not_or.mpr ⟨hliteral, hmistaken⟩)

theorem text_with_mark_becomes_string :
    let trimmed := trim " it's ".toList
    let written := (optionValue " it's ").toList
    ¬Literal trimmed ∧ ¬Mistaken trimmed ∧ written = "'it''s'".toList ∧ Literal written ∧
      readEnclosed literalMark written = some ("it's".toList, []) := by
  intro trimmed written
  obtain ⟨hliteral, hmistaken⟩ : ¬Literal trimmed ∧ ¬Mistaken trimmed :=
    not_or.mp (isLiteral_iff.not.mp (by decide +kernel))
  obtain ⟨hcomplete, -, hstring, hread⟩ := option_values_are_literals_unless_mistaken " it's "
  have hwritten := hstring hliteral hmistaken
  exact ⟨hliteral, hmistaken, by decide +kernel, hcomplete.mpr hmistaken, hread _ hwritten⟩

theorem loose_string_and_infinity_are_kept :
    (optionValue "'it's'" = "'it's'" ∧ ¬Literal "'it's'".toList) ∧
      (optionValue "-inf" = "-inf" ∧ ¬Literal "-inf".toList) := by
  have hloose : Mistaken "'it's'".toList := by
    refine @Mistaken.string "it's".toList fun inner hinner => ?_
    have hread := readEnclosed_append literalMark inner [] (by simp)
    rw [enclose, ← hinner] at hread
    revert hread
    simp [readEnclosed, readToMark, literalMark]
  have hinfinity : Mistaken "-inf".toList := .number (by decide)
  exact ⟨⟨by decide +kernel, hloose.not_literal⟩, ⟨by decide +kernel, hinfinity.not_literal⟩⟩

end Cql
end CqlDelta
