import CqlDelta.Text.Ranges

/-!
# Blank characters and trimming

The characters that count as blank around a table option are those of the Unicode property
`White_Space`: twenty-five code points in ten ranges. This module holds the table and the two
trims that the statement texts need.

Main statement: `trimEnd_append_blanks` (what is cut is blank).
-/

namespace CqlDelta
namespace Text

/-- The ranges of code points with the Unicode property `White_Space`. -/
def blankRanges : List (Nat × Nat) :=
  [ (0x0009, 0x000D), (0x0020, 0x0020), (0x0085, 0x0085), (0x00A0, 0x00A0),
    (0x1680, 0x1680), (0x2000, 0x200A), (0x2028, 0x2029), (0x202F, 0x202F),
    (0x205F, 0x205F), (0x3000, 0x3000) ]

/-- A character is blank if one of the ranges holds it. -/
def isBlank (c : Char) : Bool :=
  inRanges blankRanges c.toNat

/-- Drops the blank characters at the front. -/
def trimStart (cs : List Char) : List Char :=
  cs.dropWhile isBlank

/-- Drops the blank characters at the end. -/
def trimEnd : List Char → List Char
  | [] => []
  | c :: cs =>
      match trimEnd cs with
      | [] => if isBlank c then [] else [c]
      | kept => c :: kept

/-- Drops the blank characters at both ends. -/
def trim (cs : List Char) : List Char :=
  trimEnd (trimStart cs)

/-- What `trimEnd` cuts is a run of blank characters. -/
theorem trimEnd_append_blanks (cs : List Char) :
    ∃ blanks : List Char,
      (∀ c ∈ blanks, isBlank c = true) ∧ trimEnd cs ++ blanks = cs := by
  induction cs with
  | nil => exact ⟨[], by simp, rfl⟩
  | cons c cs ih =>
      obtain ⟨blanks, hblank, hcs⟩ := ih
      cases hkept : trimEnd cs with
      | nil =>
          rw [hkept, List.nil_append] at hcs
          by_cases hc : isBlank c = true
          · refine ⟨c :: cs, ?_, by simp [trimEnd, hkept, hc]⟩
            intro d hd
            rcases List.mem_cons.mp hd with rfl | hd
            · exact hc
            · exact hblank d (hcs ▸ hd)
          · exact ⟨cs, hcs ▸ hblank, by simp [trimEnd, hkept, hc]⟩
      | cons d ds =>
          rw [hkept] at hcs
          refine ⟨blanks, hblank, ?_⟩
          rw [trimEnd, hkept, List.cons_append, hcs]

end Text
end CqlDelta
