import CqlDelta.Text.Quoted

/-!
# Quoted texts delimit themselves

A scanner that starts at an opening mark reads on to the first mark that is not doubled. What it
reads from is the quoted form of what it has read, up to where it stops, and no mark stands there
(`readEnclosed_eq_some_iff`). So a quoted text says itself where it ends, whatever it quotes, before
everything but another mark: that one would be taken for the second half of a doubled one. The main
statement, `quoted_texts_delimit_themselves`, says this for identifiers and for string literals.
Between marks a text that is written as it stands is read back only if no mark stands in it
(`readEnclosed_unescaped_iff`).
-/

namespace CqlDelta
namespace Text

variable {mark : Char} {cs content rest : List Char}

/-- What was read up to a mark stands in front of it, with doubled marks, and no mark follows. -/
theorem double_of_readToMark
    {found : List Char × List Char}
    (h : readToMark mark cs = some found) :
    cs = double mark found.1 ++ mark :: found.2 ∧ found.2.head? ≠ some mark := by
  fun_induction readToMark mark cs generalizing found with
  | case1 => simp at h
  | case2 =>
      obtain rfl := Option.some.inj h
      exact ⟨rfl, by simp⟩
  | case3 => simp at h
  | case4 rest ih =>
      obtain ⟨inner, hinner, rfl⟩ := Option.map_eq_some_iff.mp h
      obtain ⟨hcs, hhead⟩ := ih hinner
      exact ⟨by simp [double, ← hcs], hhead⟩
  | case5 d rest hd =>
      obtain rfl := Option.some.inj h
      exact ⟨rfl, by simpa using hd⟩
  | case6 c d rest hc ih =>
      obtain ⟨inner, hinner, rfl⟩ := Option.map_eq_some_iff.mp h
      obtain ⟨hcs, hhead⟩ := ih hinner
      exact ⟨by simp [double, hc, ← hcs], hhead⟩

/-- A scanner reads a content just from the quoted form of this content, and stops behind it just if
no mark follows. -/
theorem readEnclosed_eq_some_iff :
    readEnclosed mark cs = some (content, rest) ↔
      cs = enclose mark content ++ rest ∧ rest.head? ≠ some mark := by
  constructor
  · intro h
    cases cs with
    | nil => simp [readEnclosed] at h
    | cons c cs =>
        rw [readEnclosed] at h
        split at h
        next hc =>
          obtain ⟨hcs, hhead⟩ := double_of_readToMark h
          refine ⟨?_, hhead⟩
          rw [hc, hcs, enclose, List.cons_append, List.append_assoc]
          rfl
        next => simp at h
  · rintro ⟨rfl, hhead⟩
    exact readEnclosed_append mark content rest hhead

/-! ## Marks that are not doubled -/

/-- A text with its marks doubled, and marks in front of it, comes together with the text as it is
only if there is no mark at all: otherwise it would be ahead by one mark at least, up to the end. -/
theorem eq_zero_and_not_mem
    {more : List Char}
    (hmore : more.head? ≠ some mark)
    (ahead : Nat)
    (h : cs ++ mark :: more = List.replicate ahead mark ++ (double mark cs ++ mark :: rest)) :
    ahead = 0 ∧ mark ∉ cs := by
  induction cs generalizing ahead with
  | nil =>
      cases ahead with
      | zero => simp
      | succ ahead =>
          rw [List.replicate_succ, List.nil_append, List.cons_append, List.cons.injEq] at h
          refine absurd ?_ hmore
          rw [h.2]
          cases ahead <;> simp [double, List.replicate_succ]
  | cons c cs ih =>
      by_cases hc : c = mark
      · -- One mark here is two marks there.
        subst hc
        have hmarks (tail : List Char) : List.replicate ahead c ++ c :: c :: tail =
            c :: (List.replicate (ahead + 1) c ++ tail) := by
          rw [List.append_cons, List.append_cons, ← List.replicate_succ', ← List.replicate_succ',
            List.replicate_succ, List.cons_append]
        rw [double, if_pos rfl, List.cons_append, List.cons_append, List.cons_append, hmarks] at h
        exact absurd (ih (ahead + 1) (List.cons.inj h).2).1 (by omega)
      · cases ahead with
        | succ ahead =>
            rw [List.replicate_succ, List.cons_append, List.cons_append, List.cons.injEq] at h
            exact absurd h.1 hc
        | zero =>
            rw [double, if_neg hc] at h
            simp only [List.cons_append, List.replicate_zero, List.nil_append, List.cons.injEq,
              true_and] at h
            obtain ⟨-, hcs⟩ := ih 0 (by simpa using h)
            exact ⟨rfl, by simp [hcs, Ne.symm hc]⟩

theorem double_of_not_mem (h : mark ∉ cs) : double mark cs = cs := by
  induction cs with
  | nil => rfl
  | cons c cs ih =>
      rw [List.mem_cons, not_or] at h
      rw [double, if_neg (Ne.symm h.1), ih h.2]

/-- A text between marks, before anything that does not start with one, is read back just if there
is no mark in it. -/
theorem readEnclosed_unescaped_iff
    (cs behind : List Char)
    (hrest : rest.head? ≠ some mark) :
    readEnclosed mark (mark :: (cs ++ mark :: rest)) = some (cs, behind) ↔
      behind = rest ∧ mark ∉ cs := by
  have hquoted : enclose mark cs ++ behind = mark :: (double mark cs ++ mark :: behind) := by
    simp [enclose]
  rw [readEnclosed_eq_some_iff, hquoted, List.cons.injEq]
  constructor
  · rintro ⟨⟨-, heq⟩, -⟩
    obtain ⟨-, hcs⟩ := eq_zero_and_not_mem hrest 0 (by simpa using heq)
    rw [double_of_not_mem hcs] at heq
    exact ⟨(List.cons.inj (List.append_cancel_left heq)).2.symm, hcs⟩
  · rintro ⟨rfl, hcs⟩
    exact ⟨⟨rfl, by rw [double_of_not_mem hcs]⟩, hrest⟩

/-! ## Identifiers and string literals -/

/-- Read from its opening mark, a quoted text gives back what it quotes and stops where the text
behind it begins, just if that text does not start with the same mark. -/
theorem quoted_texts_delimit_themselves (text following : String) :
    (following.toList.head? ≠ some identifierMark ↔
        readEnclosed identifierMark (quoteIdentifier text ++ following).toList =
          some (text.toList, following.toList)) ∧
      (following.toList.head? ≠ some literalMark ↔
        readEnclosed literalMark (quoteLiteral text ++ following).toList =
          some (text.toList, following.toList)) := by
  have hscan (mark : Char) :
      following.toList.head? ≠ some mark ↔
        readEnclosed mark (String.ofList (enclose mark text.toList) ++ following).toList =
          some (text.toList, following.toList) := by
    rw [String.toList_append, String.toList_ofList, readEnclosed_eq_some_iff]
    exact (and_iff_right rfl).symm
  exact ⟨hscan identifierMark, hscan literalMark⟩

/-- Runs of marks at both ends, before a point. -/
example :
    readEnclosed identifierMark (quoteIdentifier "\"\"a\"" ++ ".\"b\"").toList =
      some ("\"\"a\"".toList, ".\"b\"".toList) := by
  decide

end Text
end CqlDelta
