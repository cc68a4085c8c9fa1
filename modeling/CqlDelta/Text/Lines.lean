/-!
# Lines, separators and indentation

A text is cut into lines, or at every occurrence of a fixed separator. A line ends at a line feed,
and a carriage return right before it belongs to the line's end; a final line feed opens no further
line. The main statement, `joinWith_splitAt`, says that cutting at a separator loses nothing.
-/

namespace CqlDelta
namespace Text

/-- The lines of a text, without their ends. -/
def lines : List Char → List (List Char)
  | [] => []
  | '\n' :: rest => [] :: lines rest
  | '\r' :: '\n' :: rest => [] :: lines rest
  | c :: rest =>
      match lines rest with
      | [] => [[c]]
      | line :: more => (c :: line) :: more

/-- Joins pieces with a separator between each two. -/
def joinWith (separator : List Char) : List (List Char) → List Char
  | [] => []
  | [piece] => piece
  | piece :: more => piece ++ separator ++ joinWith separator more

/-- Puts a tab before every line. -/
def indentLines (cs : List Char) : List Char :=
  joinWith ['\n'] ((lines cs).map ('\t' :: ·))

/-- Puts a tab before every line. -/
def indent (text : String) : String :=
  String.ofList (indentLines text.toList)

/-- Adds a character in front of the first piece. -/
def extendHead (c : Char) : List (List Char) → List (List Char)
  | [] => [[c]]
  | piece :: more => (c :: piece) :: more

/-- Cuts a text at every occurrence of a separator, from the left and without overlaps. The number
counts the characters of the current occurrence that are still to be passed over. -/
def splitSkipping (separator : List Char) : Nat → List Char → List (List Char)
  | _, [] => [[]]
  | passed + 1, _ :: rest => splitSkipping separator passed rest
  | 0, c :: rest =>
      if separator.isPrefixOf (c :: rest) then
        [] :: splitSkipping separator (separator.length - 1) rest
      else
        extendHead c (splitSkipping separator 0 rest)

/-- Cuts a text at every occurrence of a separator. -/
def splitAt (separator : List Char) (cs : List Char) : List (List Char) :=
  splitSkipping separator 0 cs

/-- The texts before and after the first occurrence of a separator. -/
def cutAt (separator : List Char) : List Char → Option (List Char × List Char)
  | [] => none
  | c :: rest =>
      if separator.isPrefixOf (c :: rest) then
        some ([], (c :: rest).drop separator.length)
      else
        (cutAt separator rest).map fun parts => (c :: parts.1, parts.2)

theorem splitSkipping_ne_nil (separator : List Char) (passed : Nat) (cs : List Char) :
    splitSkipping separator passed cs ≠ [] := by
  induction cs generalizing passed with
  | nil => simp [splitSkipping]
  | cons c rest ih =>
      cases passed with
      | zero =>
          rw [splitSkipping]
          split
          · simp
          · cases hrest : splitSkipping separator 0 rest <;> simp [extendHead]
      | succ passed => simpa [splitSkipping] using ih passed

theorem joinWith_extendHead
    (separator : List Char)
    (c : Char)
    {pieces : List (List Char)}
    (h : pieces ≠ []) :
    joinWith separator (extendHead c pieces) = c :: joinWith separator pieces := by
  cases pieces with
  | nil => exact absurd rfl h
  | cons piece more => cases more <;> simp [extendHead, joinWith]

theorem joinWith_nil_cons
    (separator : List Char)
    {pieces : List (List Char)}
    (h : pieces ≠ []) :
    joinWith separator ([] :: pieces) = separator ++ joinWith separator pieces := by
  cases pieces with
  | nil => exact absurd rfl h
  | cons piece more => simp [joinWith]

theorem joinWith_splitSkipping
    {separator : List Char}
    (hseparator : separator ≠ [])
    (passed : Nat)
    (cs : List Char) :
    joinWith separator (splitSkipping separator passed cs) = cs.drop passed := by
  induction cs generalizing passed with
  | nil => simp [splitSkipping, joinWith]
  | cons c rest ih =>
      cases passed with
      | succ passed => simpa [splitSkipping] using ih passed
      | zero =>
          rw [splitSkipping]
          split
          · rename_i hprefix
            rw [joinWith_nil_cons _ (splitSkipping_ne_nil _ _ _), ih]
            obtain ⟨tail, htail⟩ := List.isPrefixOf_iff_prefix.mp hprefix
            cases separator with
            | nil => exact absurd rfl hseparator
            | cons s more =>
                have hrest : rest = more ++ tail := by
                  simpa using (congrArg List.tail htail).symm
                have hhead : s = c := by simpa using congrArg List.head? htail
                simp [hrest, hhead]
          · rw [joinWith_extendHead _ _ (splitSkipping_ne_nil _ _ _), ih]
            simp

/-- Joining the pieces of a text gives the text back. -/
theorem joinWith_splitAt
    {separator : List Char}
    (hseparator : separator ≠ [])
    (cs : List Char) :
    joinWith separator (splitAt separator cs) = cs := by
  simp [splitAt, joinWith_splitSkipping hseparator]

/-- The two parts of a cut surround the separator. -/
theorem append_of_cutAt
    {separator cs before after : List Char}
    (h : cutAt separator cs = some (before, after)) :
    before ++ separator ++ after = cs := by
  induction cs generalizing before after with
  | nil => simp [cutAt] at h
  | cons c rest ih =>
      rw [cutAt] at h
      split at h
      · rename_i hprefix
        obtain ⟨tail, htail⟩ := List.isPrefixOf_iff_prefix.mp hprefix
        simp only [Option.some.injEq, Prod.mk.injEq] at h
        obtain ⟨rfl, rfl⟩ := h
        rw [← htail]
        simp
      · obtain ⟨⟨first, second⟩, hparts, heq⟩ := Option.map_eq_some_iff.mp h
        simp only [Prod.mk.injEq] at heq
        obtain ⟨rfl, rfl⟩ := heq
        simpa using ih hparts

end Text
end CqlDelta
