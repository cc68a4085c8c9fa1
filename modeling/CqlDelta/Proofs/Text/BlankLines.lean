import CqlDelta.Proofs.Text.Cutting
import Mathlib.Data.List.Infix

/-!
# Blank lines

A text that is cut at blank lines falls into paragraphs. A script of texts without empty lines, each
with a blank line behind it, falls into just these texts (`paragraphs_script`); no paragraph has a
blank line in it (`not_hasBlankLine_of_mem_paragraphs`).

Whether a line is empty is found by following the text (`follow?`). The state in which one part ends
is that in which the next one starts (`Leads.append`).
-/

namespace CqlDelta
namespace Text

/-- Two line breaks in a row. -/
def blankLine : List Char :=
  ['\n', '\n']

/-- The parts of a text between its blank lines; empty ones are left out. -/
def paragraphs (text : String) : List String :=
  ((splitAt blankLine text.toList).filter fun piece => !piece.isEmpty).map String.ofList

/-! ## Following a text -/

/-- Follows a text, from the start of a line if that is fresh, and says whether it ends at the start
of a line. There is no answer if a line is empty. -/
def follow? : Bool → List Char → Option Bool
  | fresh, [] => some fresh
  | fresh, c :: rest =>
      if c = '\n' then if fresh then none else follow? true rest else follow? false rest

/-- A text leads from one state to another. -/
def Leads (before : Bool) (text : String) (after : Bool) : Prop :=
  follow? before text.toList = some after

instance (before : Bool) (text : String) (after : Bool) : Decidable (Leads before text after) :=
  inferInstanceAs (Decidable (follow? before text.toList = some after))

theorem follow?_append
    (fresh : Bool)
    (front back : List Char) :
    follow? fresh (front ++ back) = (follow? fresh front).bind fun after => follow? after back := by
  induction front generalizing fresh with
  | nil => rfl
  | cons c front ih =>
      rw [List.cons_append, follow?, follow?]
      split
      · split
        · rfl
        · exact ih true
      · exact ih false

theorem Leads.append
    {before middle after : Bool}
    {front back : String}
    (hfront : Leads before front middle)
    (hback : Leads middle back after) :
    Leads before (front ++ back) after := by
  rw [Leads, String.toList_append, follow?_append, hfront, Option.bind_some, hback]

/-- A text stands on one line. -/
def OneLine (text : String) : Prop :=
  '\n' ∉ text.toList

instance (text : String) : Decidable (OneLine text) :=
  inferInstanceAs (Decidable ('\n' ∉ text.toList))

theorem follow?_of_not_mem
    {cs : List Char}
    (h : '\n' ∉ cs) :
    follow? false cs = some false := by
  induction cs with
  | nil => rfl
  | cons c cs ih =>
      rw [List.mem_cons, not_or] at h
      rw [follow?, if_neg (Ne.symm h.1), ih h.2]

theorem OneLine.leads {text : String} (h : OneLine text) : Leads false text false :=
  follow?_of_not_mem h

/-- No line of a text is empty. -/
def Unbroken (text : String) : Prop :=
  Leads true text false

instance (text : String) : Decidable (Unbroken text) :=
  inferInstanceAs (Decidable (Leads true text false))

theorem Unbroken.ne_empty {text : String} (h : Unbroken text) : text ≠ "" := by
  rintro rfl
  simp [Unbroken, Leads, follow?] at h

theorem OneLine.unbroken
    {text : String}
    (h : OneLine text)
    (hne : text ≠ "") :
    Unbroken text := by
  rw [Unbroken, Leads]
  rw [OneLine] at h
  cases hcs : text.toList with
  | nil => exact absurd (String.toList_eq_nil_iff.mp hcs) hne
  | cons c cs =>
      rw [hcs, List.mem_cons, not_or] at h
      rw [follow?, if_neg (Ne.symm h.1), follow?_of_not_mem h.2]

/-- Pieces that may follow a separator may be joined by it. -/
theorem follow?_joinWith
    {fresh : Bool}
    {separator : List Char}
    {pieces : List (List Char)}
    (hseparator : follow? false separator = some fresh)
    (hpieces : ∀ piece ∈ pieces, follow? fresh piece = some false)
    (hne : pieces ≠ []) :
    follow? fresh (joinWith separator pieces) = some false := by
  induction pieces with
  | nil => exact absurd rfl hne
  | cons piece more ih =>
      rw [List.forall_mem_cons] at hpieces
      cases more with
      | nil => exact hpieces.1
      | cons next more =>
          have hmore := ih hpieces.2 (by simp)
          simp [joinWith, follow?_append, hpieces.1, hseparator, hmore]

/-- Texts that may follow a separator may be joined by it. -/
theorem leads_intercalate
    {fresh : Bool}
    {separator : String}
    {pieces : List String}
    (hseparator : Leads false separator fresh)
    (hpieces : ∀ piece ∈ pieces, Leads fresh piece false)
    (hne : pieces ≠ []) :
    Leads fresh (separator.intercalate pieces) false := by
  rw [Leads, toList_intercalate_eq_joinWith]
  exact follow?_joinWith hseparator (List.forall_mem_map.mpr hpieces) (by simpa using hne)

/-! ## Texts on one line -/

theorem OneLine.append
    {front back : String}
    (hfront : OneLine front)
    (hback : OneLine back) :
    OneLine (front ++ back) := by
  rw [OneLine, String.toList_append, List.mem_append]
  exact fun hmem => hmem.elim hfront hback

theorem oneLine_intercalate
    {separator : String}
    {pieces : List String}
    (hseparator : OneLine separator)
    (hpieces : ∀ piece ∈ pieces, OneLine piece) :
    OneLine (separator.intercalate pieces) :=
  intercalate_induction (by decide) OneLine.append hseparator hpieces

/-- A text stands on one line if it has no characters that another one has not. -/
theorem OneLine.of_subset
    {text other : String}
    (h : OneLine text)
    (hsubset : other.toList ⊆ text.toList) :
    OneLine other :=
  fun hmem => h (hsubset hmem)

theorem not_mem_enclose
    {mark : Char}
    (hmark : mark ≠ '\n')
    {cs : List Char}
    (h : '\n' ∉ cs) :
    '\n' ∉ enclose mark cs := by
  have hdouble : '\n' ∉ double mark cs := fun hmem => h (double_subset mark cs hmem)
  simp [enclose, hmark.symm, hdouble]

theorem oneLine_quoteIdentifier {name : String} (h : OneLine name) :
    OneLine (quoteIdentifier name) := by
  rw [OneLine, quoteIdentifier, String.toList_ofList]
  exact not_mem_enclose (by decide) h

theorem oneLine_quoteLiteral {value : String} (h : OneLine value) :
    OneLine (quoteLiteral value) := by
  rw [OneLine, quoteLiteral, String.toList_ofList]
  exact not_mem_enclose (by decide) h

/-! ## Trimming -/

/-- Where a text goes on does not matter once it has a character. -/
theorem follow?_of_fresh
    {fresh after : Bool}
    {cs : List Char}
    (h : follow? fresh cs = some after)
    (hne : cs ≠ []) :
    follow? false cs = some after := by
  cases cs with
  | nil => exact absurd rfl hne
  | cons c cs =>
      rw [follow?] at h ⊢
      split at h
      · rename_i hc
        split at h
        · simp at h
        · rw [if_pos hc]
          exact h
      · rename_i hc
        rw [if_neg hc, h]

/-- Only behind a line break a text ends at the start of a line. -/
theorem getLast?_of_follow
    {cs : List Char}
    (h : follow? false cs = some true) :
    cs.getLast? = some '\n' := by
  rcases List.eq_nil_or_concat cs with rfl | ⟨front, last, rfl⟩
  · simp [follow?] at h
  · rw [List.concat_eq_append, follow?_append, Option.bind_eq_some_iff] at h
    obtain ⟨before, -, hlast⟩ := h
    rw [follow?] at hlast
    split at hlast
    · rename_i hbreak
      simp [hbreak]
    · simp [follow?] at hlast

theorem follow?_trim
    {cs : List Char}
    {after : Bool}
    (h : follow? false cs = some after) :
    follow? false (trim cs) = some false := by
  obtain ⟨front, back, -, -, hcs⟩ := exists_blanks_around_trim cs
  rw [← hcs, follow?_append, Option.bind_eq_some_iff] at h
  obtain ⟨before, -, h⟩ := h
  rw [follow?_append, Option.bind_eq_some_iff] at h
  obtain ⟨middle, hmiddle, -⟩ := h
  by_cases hne : trim cs = []
  · rw [hne]
    rfl
  · have htrim := follow?_of_fresh hmiddle hne
    cases middle with
    | false => exact htrim
    | true =>
        have hlast := isBlank_of_getLast?_trimEnd (getLast?_of_follow htrim)
        exact absurd hlast (by decide)

/-! ## Indenting -/

/-- Behind tabs no line is empty. -/
theorem unbroken_indent {text : String} (h : text ≠ "") : Unbroken (indent text) := by
  have hcs : text.toList ≠ [] := fun hnil => h (String.toList_eq_nil_iff.mp hnil)
  rw [Unbroken, Leads, indent, String.toList_ofList, indentLines]
  refine follow?_joinWith rfl (fun piece hpiece => ?_) (by simpa using lines_ne_nil hcs)
  obtain ⟨line, hline, rfl⟩ := List.mem_map.mp hpiece
  rw [follow?, if_neg (by decide)]
  exact follow?_of_not_mem (not_mem_of_mem_lines _ line hline)

/-! ## Cutting at blank lines -/

/-- No blank line starts inside a text without empty lines. -/
theorem not_prefix_of_follow
    {fresh : Bool}
    {c : Char}
    {cs : List Char}
    (h : follow? fresh (c :: cs) = some false)
    (rest : List Char) :
    ¬blankLine.isPrefixOf (c :: (cs ++ rest)) = true := by
  rw [follow?] at h
  split at h
  · rename_i hc
    split at h
    · simp at h
    · cases cs with
      | nil => simp [follow?] at h
      | cons d more =>
          have hd : '\n' ≠ d := by
            rintro rfl
            simp [follow?] at h
          simp [blankLine, hd]
  · rename_i hc
    simp [blankLine, Ne.symm hc]

/-- The first blank line in a text without empty lines and a blank line is the one behind it. -/
theorem firstBehind_of_follow
    {fresh : Bool}
    {cs : List Char}
    (h : follow? fresh cs = some false)
    (rest : List Char) :
    FirstBehind blankLine cs rest := by
  induction cs generalizing fresh with
  | nil => exact firstBehind_nil
  | cons c more ih =>
      have hnot := not_prefix_of_follow h (blankLine ++ rest)
      rw [← List.append_assoc] at hnot
      refine firstBehind_cons_iff.mpr ⟨hnot, ?_⟩
      rw [follow?] at h
      split at h
      · split at h
        · simp at h
        · exact ih h
      · exact ih h

/-- The texts of a script, each with a blank line behind it. -/
def scriptOf (texts : List String) : String :=
  String.join (texts.map fun text => text ++ "\n\n")

theorem toList_scriptOf_cons
    (text : String)
    (more : List String) :
    (scriptOf (text :: more)).toList = text.toList ++ (blankLine ++ (scriptOf more).toList) := by
  simp [scriptOf, blankLine, String.toList_join]

/-- A script of texts without empty lines falls into these texts. -/
theorem paragraphs_script
    {texts : List String}
    (h : ∀ text ∈ texts, Unbroken text) :
    paragraphs (scriptOf texts) = texts := by
  induction texts with
  | nil => rfl
  | cons text more ih =>
      rw [List.forall_mem_cons] at h
      have hne : text.toList ≠ [] := fun hnil => h.1.ne_empty (String.toList_eq_nil_iff.mp hnil)
      have hmore := ih h.2
      rw [paragraphs] at hmore ⊢
      rw [toList_scriptOf_cons, ← List.append_assoc,
        splitAt_append (by decide) (firstBehind_of_follow h.1 _), List.filter_cons_of_pos]
      · rw [List.map_cons, String.ofList_toList]
        exact congrArg (text :: ·) hmore
      · simpa using hne

/-- What is cut off first is a beginning of the text. -/
theorem head_splitSkipping_prefix
    (separator : List Char)
    {cs piece : List Char}
    {more : List (List Char)}
    (h : splitSkipping separator 0 cs = piece :: more) :
    piece <+: cs := by
  induction cs generalizing piece more with
  | nil =>
      obtain ⟨rfl, -⟩ := List.cons.inj h
      exact List.nil_prefix
  | cons c rest ih =>
      rw [splitSkipping] at h
      split at h
      · obtain ⟨rfl, -⟩ := List.cons.inj h
        exact List.nil_prefix
      · cases hrest : splitSkipping separator 0 rest with
        | nil => exact absurd hrest (splitSkipping_ne_nil _ _ _)
        | cons first others =>
            rw [hrest, extendHead] at h
            obtain ⟨rfl, -⟩ := List.cons.inj h
            exact List.cons_prefix_cons.mpr ⟨rfl, ih hrest⟩

/-- No piece of a text has the separator in it. -/
theorem not_infix_of_mem_splitSkipping
    {separator : List Char}
    (hseparator : separator ≠ [])
    (passed : Nat)
    (cs : List Char) :
    ∀ piece ∈ splitSkipping separator passed cs, ¬separator <:+: piece := by
  induction cs generalizing passed with
  | nil => simpa [splitSkipping] using hseparator
  | cons c rest ih =>
      cases passed with
      | succ passed => exact ih passed
      | zero =>
          rw [splitSkipping]
          split
          · exact List.forall_mem_cons.mpr ⟨by simpa using hseparator, ih _⟩
          · rename_i hprefix
            have hmore := ih 0
            cases hrest : splitSkipping separator 0 rest with
            | nil => exact absurd hrest (splitSkipping_ne_nil _ _ _)
            | cons first others =>
                rw [hrest, List.forall_mem_cons] at hmore
                refine List.forall_mem_cons.mpr ⟨fun hinfix => ?_, hmore.2⟩
                rcases List.infix_cons_iff.mp hinfix with hstarts | hinside
                · -- the separator would start here in the text already
                  have hfirst := head_splitSkipping_prefix separator hrest
                  have hwhole := hstarts.trans (List.cons_prefix_cons.mpr ⟨rfl, hfirst⟩)
                  exact hprefix (List.isPrefixOf_iff_prefix.mpr hwhole)
                · exact hmore.1 hinside

/-- A text has a blank line in it. -/
def HasBlankLine (text : String) : Prop :=
  blankLine <:+: text.toList

theorem HasBlankLine.append_right
    {text : String}
    (h : HasBlankLine text)
    (more : String) :
    HasBlankLine (text ++ more) := by
  rw [HasBlankLine, String.toList_append]
  exact h.trans (List.prefix_append _ _).isInfix

theorem not_hasBlankLine_of_mem_paragraphs
    {text piece : String}
    (h : piece ∈ paragraphs text) :
    ¬HasBlankLine piece := by
  obtain ⟨cs, hcs, rfl⟩ := List.mem_map.mp h
  rw [HasBlankLine, String.toList_ofList]
  exact not_infix_of_mem_splitSkipping (by decide) 0 text.toList cs (List.mem_filter.mp hcs).1

end Text
end CqlDelta
