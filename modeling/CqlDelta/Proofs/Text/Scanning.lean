import CqlDelta.Proofs.Text.Cutting
import CqlDelta.Proofs.Text.Delimiting

/-!
# Scanning quoted texts

A scanner passes over the quoted parts of a text, in which a doubled mark is content, and keeps what
stands outside (`outside?`). Only quotation marks and semicolons count for where a quoted part and a
statement end, so these signs of a text are enough to know whether it is sealed: scanning ends
outside again and has met no semicolon there. Sealed texts are put together to sealed texts; quoting
seals any text. The main statement, `isOneStatement_of_sealed`, says that a sealed text with a
semicolon behind it is one statement.
-/

namespace CqlDelta
namespace Text

/-- Whether a character opens a quoted part. -/
def isMark (c : Char) : Bool :=
  c = identifierMark || c = literalMark

/-- What stands behind a quoted part is shorter than the text. -/
theorem length_of_readToMark
    {mark : Char}
    {cs : List Char}
    {found : List Char × List Char}
    (h : readToMark mark cs = some found) :
    found.2.length < cs.length := by
  have hlength := congrArg List.length (double_of_readToMark h).1
  rw [List.length_append, List.length_cons] at hlength
  omega

/-- The characters of a text outside its quoted parts; nothing if the text ends inside one. -/
def outside? : List Char → Option (List Char)
  | [] => some []
  | c :: rest =>
      if isMark c then
        match _ : readToMark c rest with
        | none => none
        | some found => outside? found.2
      else
        (outside? rest).map (c :: ·)
termination_by cs => cs.length
decreasing_by
  · have := length_of_readToMark ‹readToMark c rest = some found›
    simp only [List.length_cons]
    omega
  · simp

/-- A text that a scanner takes for one statement: outside quoted parts it has one semicolon, which
is its last character. -/
def IsOneStatement (cs : List Char) : Prop :=
  ∃ body bare, cs = body ++ [';'] ∧ outside? cs = some (bare ++ [';']) ∧ ';' ∉ bare

/-! ## One character at a time -/

/-- Scans a text, from inside a quoted part if its mark is given. A doubled mark closes the part and
opens it again at once. -/
def scan : Option Char → List Char → Option (List Char)
  | none, [] => some []
  | some _, [] => none
  | none, c :: rest => if isMark c then scan (some c) rest else (scan none rest).map (c :: ·)
  | some mark, c :: rest => if c = mark then scan none rest else scan (some mark) rest

/-- From inside a quoted part scanning goes on behind its closing mark. -/
theorem scan_inside
    {mark : Char}
    (hmark : isMark mark = true)
    (cs : List Char) :
    scan (some mark) cs = (readToMark mark cs).bind fun found => scan none found.2 := by
  fun_induction readToMark mark cs with
  | case1 => rfl
  | case2 => simp [scan]
  | case3 c hc => simp [scan, hc]
  | case4 rest ih =>
      rw [scan, if_pos rfl, scan, if_pos hmark, ih, Option.bind_map]
      rfl
  | case5 d rest hd => simp [scan]
  | case6 c d rest hc ih =>
      rw [scan, if_neg hc, ih, Option.bind_map]
      rfl

theorem outside?_eq_scan (cs : List Char) :
    outside? cs = scan none cs := by
  fun_induction outside? cs with
  | case1 => rfl
  | case2 c rest hc hread => rw [scan, if_pos hc, scan_inside hc, hread, Option.bind_none]
  | case3 c rest hc found hread ih =>
      rw [scan, if_pos hc, scan_inside hc, hread, Option.bind_some, ih]
  | case4 c rest hc ih => rw [scan, if_neg hc, ih]

/-- Behind a text that is scanned to its end outside quoted parts, scanning goes on there. -/
theorem scan_append
    {start : Option Char}
    {front bare : List Char}
    (h : scan start front = some bare)
    (back : List Char) :
    scan start (front ++ back) = (scan none back).map (bare ++ ·) := by
  induction front generalizing start bare with
  | nil =>
      cases start with
      | some mark => simp [scan] at h
      | none =>
          obtain rfl := Option.some.inj h
          simp
  | cons c rest ih =>
      cases start with
      | some mark =>
          rw [List.cons_append, scan]
          rw [scan] at h
          split at h
          · rename_i hc
            rw [if_pos hc, ih h]
          · rename_i hc
            rw [if_neg hc, ih h]
      | none =>
          rw [List.cons_append, scan]
          rw [scan] at h
          split at h
          · rename_i hc
            rw [if_pos hc, ih h]
          · rename_i hc
            obtain ⟨bare, hbare, rfl⟩ := Option.map_eq_some_iff.mp h
            rw [if_neg hc, ih hbare, Option.map_map]
            rfl

/-! ## Signs -/

/-- Whether a character counts for where quoted parts and statements end. -/
def isSign (c : Char) : Bool :=
  isMark c || c = ';'

/-- The signs of a text, in order. -/
def signs (cs : List Char) : List Char :=
  cs.filter isSign

@[simp]
theorem signs_append (front back : List Char) : signs (front ++ back) = signs front ++ signs back :=
  List.filter_append front back

theorem signs_cons (c : Char) (rest : List Char) :
    signs (c :: rest) = if isSign c then c :: signs rest else signs rest :=
  List.filter_cons

theorem isSign_of_isMark {c : Char} (h : isMark c = true) : isSign c = true := by
  simp [isSign, h]

/-- Scanning only the signs of a text keeps the signs of what scanning the text keeps. -/
theorem scan_signs
    {start : Option Char}
    (hstart : ∀ mark ∈ start, isMark mark = true)
    (cs : List Char) :
    scan start (signs cs) = (scan start cs).map signs := by
  induction cs generalizing start with
  | nil => cases start <;> rfl
  | cons c rest ih =>
      rw [signs_cons]
      cases start with
      | some mark =>
          have hmark : isMark mark = true := hstart mark rfl
          by_cases hc : c = mark
          · subst hc
            rw [if_pos (isSign_of_isMark hmark), scan, if_pos rfl, scan, if_pos rfl]
            exact ih (by simp)
          · have hpassed : scan (some mark) (if isSign c then c :: signs rest else signs rest) =
                scan (some mark) (signs rest) := by
              split
              · rw [scan, if_neg hc]
              · rfl
            rw [hpassed, scan, if_neg hc]
            exact ih hstart
      | none =>
          cases hmark : isMark c with
          | true =>
              rw [if_pos (isSign_of_isMark hmark), scan, if_pos hmark, scan, if_pos hmark]
              exact ih (by simp [hmark])
          | false =>
              have hrest : scan none (signs rest) = (scan none rest).map signs := ih (by simp)
              cases hsign : isSign c <;>
                simp [scan, hmark, hrest, signs_cons, hsign, Option.map_map, Function.comp_def]

/-! ## Sealed texts -/

/-- Scanning a sealed text ends outside quoted parts and meets no semicolon there, whatever
follows. -/
def Sealed (text : String) : Prop :=
  ∀ rest, scan none (signs text.toList ++ rest) = scan none rest

/-- A sealed text with a semicolon behind it is one statement. -/
theorem isOneStatement_of_sealed
    {text : String}
    (h : Sealed text) :
    IsOneStatement (text.toList ++ [';']) := by
  have hsigns := h []
  rw [List.append_nil, scan_signs (by simp)] at hsigns
  obtain ⟨bare, hbare, hnone⟩ := Option.map_eq_some_iff.mp hsigns
  refine ⟨text.toList, bare, rfl, ?_, fun hmem => ?_⟩
  · rw [outside?_eq_scan, scan_append hbare]
    rfl
  · have hsign : ';' ∈ signs bare := List.mem_filter.mpr ⟨hmem, by decide⟩
    simp [hnone] at hsign

/-- A text without signs is sealed. -/
theorem sealed_of_no_signs (text : String) (h : signs text.toList = []) : Sealed text := by
  intro rest
  rw [h, List.nil_append]

/-- Texts with the same signs are sealed together. -/
theorem Sealed.of_signs_eq
    {text other : String}
    (h : Sealed text)
    (hsigns : signs other.toList = signs text.toList) :
    Sealed other := by
  intro rest
  rw [hsigns, h]

theorem Sealed.append
    {front back : String}
    (hfront : Sealed front)
    (hback : Sealed back) :
    Sealed (front ++ back) := by
  intro rest
  rw [String.toList_append, signs_append, List.append_assoc, hfront, hback]

theorem sealed_join
    {separator : String}
    {pieces : List String}
    (hseparator : Sealed separator)
    (hpieces : ∀ piece ∈ pieces, Sealed piece) :
    Sealed (separator.intercalate pieces) :=
  intercalate_induction (sealed_of_no_signs _ rfl) Sealed.append hseparator hpieces

/-! ## Quoting -/

/-- Inside a quoted part scanning passes over any text with doubled marks, up to the closing
mark. -/
theorem scan_double
    {mark : Char}
    (hmark : isMark mark = true)
    (cs rest : List Char) :
    scan (some mark) (signs (double mark cs) ++ mark :: rest) = scan none rest := by
  have hsign := isSign_of_isMark hmark
  induction cs with
  | nil => simp [double, signs, scan]
  | cons c cs ih =>
      rw [double]
      split
      · simp [signs_cons, hsign, scan, hmark, ih]
      · rename_i hc
        rw [signs_cons]
        split
        · rw [List.cons_append, scan, if_neg hc, ih]
        · exact ih

theorem sealed_enclose
    {mark : Char}
    (hmark : isMark mark = true)
    (cs : List Char) :
    Sealed (String.ofList (enclose mark cs)) := by
  intro rest
  have hsign := isSign_of_isMark hmark
  have hsigns : signs (enclose mark cs) = mark :: (signs (double mark cs) ++ [mark]) := by
    simp [enclose, hsign, signs]
  rw [String.toList_ofList, hsigns, List.cons_append, List.append_assoc, scan, if_pos hmark]
  exact scan_double hmark cs rest

theorem sealed_quoteIdentifier (name : String) : Sealed (quoteIdentifier name) :=
  sealed_enclose rfl name.toList

theorem sealed_quoteLiteral (value : String) : Sealed (quoteLiteral value) :=
  sealed_enclose rfl value.toList

/-! ## Indenting and trimming -/

/-- Indenting a text keeps its signs. -/
theorem Sealed.indent {text : String} (h : Sealed text) : Sealed (indent text) :=
  h.of_signs_eq (by
    rw [Text.indent, String.toList_ofList]
    exact filter_indentLines rfl rfl rfl text.toList)

/-- No sign is blank. -/
theorem isBlank_of_isSign {c : Char} (h : isSign c = true) : isBlank c = false := by
  simp only [isSign, isMark, Bool.or_eq_true, decide_eq_true_eq] at h
  rcases h with (rfl | rfl) | rfl <;> decide

theorem signs_eq_nil_of_blanks {blanks : List Char} (h : ∀ c ∈ blanks, isBlank c = true) :
    signs blanks = [] := by
  rw [signs, List.filter_eq_nil_iff]
  intro c hc hsign
  have hblank := h c hc
  rw [isBlank_of_isSign hsign] at hblank
  simp at hblank

/-- Trimming a text keeps its signs. -/
theorem signs_trim (cs : List Char) : signs (trim cs) = signs cs := by
  obtain ⟨front, back, hfront, hback, hcs⟩ := exists_blanks_around_trim cs
  conv_rhs => rw [← hcs]
  rw [signs_append, signs_append, signs_eq_nil_of_blanks hfront, signs_eq_nil_of_blanks hback,
    List.nil_append, List.append_nil]

end Text
end CqlDelta
