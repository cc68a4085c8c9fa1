import CqlDelta.Json.Reader
import CqlDelta.Json.Value

/-!
# Written texts and numbers

What is written of a text or a number is read back, before any rest that cannot belong to it.
-/

namespace CqlDelta
namespace Json

/-! ## Quoted texts -/

/-- The piece as which a written character is read: a code if it is written as one. -/
def writtenPiece (c : Char) : Piece :=
  if (escapeChar c).length = 6 then .code c.toNat else .char c

theorem hexValue?_hexDigit
    {n : Nat}
    (h : n < 16) :
    hexValue? (hexDigit n) = some n := by
  have all : ∀ n : Fin 16, hexValue? (hexDigit n.val) = some n.val := by decide
  exact all ⟨n, h⟩

/-- The four digits of a control character's code give the character. -/
theorem hexCode?_control
    {n : Nat}
    (h : n < 0x20) :
    hexCode? '0' '0' (hexDigit (n / 16)) (hexDigit (n % 16)) = some n := by
  have hzero : hexValue? '0' = some 0 := by decide
  have hhigh := hexValue?_hexDigit (n := n / 16) (by omega)
  have hlow := hexValue?_hexDigit (n := n % 16) (by omega)
  simp only [hexCode?, hzero, hhigh, hlow, Option.pure_def, Option.bind_eq_bind, Option.bind_some]
  congr 1
  omega

theorem pieces_plain
    {c : Char}
    (hquote : c ≠ '\x22')
    (hslash : c ≠ '\\')
    (hcontrol : ¬ c.toNat < 0x20)
    (rest : List Char) :
    pieces (c :: rest) = addPiece (.char c) (pieces rest) := by
  rw [pieces, if_neg hcontrol]
  all_goals simp [hquote, hslash]

theorem pieces_escapeChar
    (c : Char)
    (rest : List Char) :
    pieces (escapeChar c ++ rest) = addPiece (writtenPiece c) (pieces rest) := by
  unfold writtenPiece escapeChar
  iterate 7
    split
    · subst c
      simp [pieces, escapedChar?]
  split
  · rename_i hcontrol
    simp [pieces, hexCode?_control hcontrol]
  · rename_i hquote hslash _ _ _ _ _ hcontrol
    exact pieces_plain hquote hslash hcontrol rest

theorem pieces_written
    (cs rest : List Char) :
    pieces (cs.flatMap escapeChar ++ '\x22' :: rest) = (cs.map writtenPiece, .quote rest) := by
  induction cs with
  | nil => rfl
  | cons c cs ih =>
      rw [List.flatMap_cons, List.append_assoc, pieces_escapeChar, ih]
      rfl

/-- A character that is written as a code is a control character. -/
theorem toNat_lt_of_coded
    {c : Char}
    (h : (escapeChar c).length = 6) :
    c.toNat < 0x20 := by
  refine Nat.lt_of_not_le fun hplain => ?_
  have hlength : (escapeChar c).length ≤ 2 := by
    unfold escapeChar
    repeat' split
    all_goals simp
    omega
  omega

theorem joinPieces_writtenPiece
    (c : Char)
    (found : List Piece)
    (close : Close) :
    joinPieces (writtenPiece c :: found) close = (joinPieces found close).map (c :: ·) := by
  unfold writtenPiece
  split
  · rename_i hcoded
    have hcontrol := toNat_lt_of_coded hcoded
    have hhigh : isHighSurrogate c.toNat = false := by
      simp [isHighSurrogate]
      omega
    have hlow : isLowSurrogate c.toNat = false := by
      simp [isLowSurrogate]
      omega
    rw [joinPieces.eq_def]
    simp [hhigh, hlow, Char.ofNat_toNat]
  · rfl

theorem joinPieces_written
    (cs rest : List Char) :
    joinPieces (cs.map writtenPiece) (.quote rest) = .ok cs := by
  induction cs with
  | nil => rfl
  | cons c cs ih =>
      rw [List.map_cons, joinPieces_writtenPiece, ih]
      rfl

/-- A written text reads back as itself, whatever follows it. -/
theorem readQuoted_written
    (content : String)
    (rest : List Char) :
    readQuoted (content.toList.flatMap escapeChar ++ '\x22' :: rest) = .ok (.ok content, rest) := by
  simp [readQuoted, pieces_written, joinPieces_written, Except.map]

/-! ## Numbers -/

/-- What cannot go on behind a number: no digit, no point and no mark of a power comes next. -/
def endsNumber (rest : List Char) : Prop :=
  ∀ c more, rest = c :: more → c.isDigit = false ∧ c ≠ '.' ∧ c ≠ 'e' ∧ c ≠ 'E'

/-- Only zero is written with a zero in front. -/
theorem head_toDigits_ne_zero
    {n : Nat}
    (h : 0 < n) :
    (Nat.toDigits 10 n).head? ≠ some '0' := by
  induction n using Nat.strongRecOn with
  | ind n ih =>
      by_cases hsmall : n < 10
      · rw [Nat.toDigits_of_lt_base hsmall]
        have all : ∀ d : Fin 10, 0 < d.val → [d.val.digitChar].head? ≠ some '0' := by decide
        exact all ⟨n, hsmall⟩ h
      · have hfront := ih (n / 10) (by omega) (by omega)
        rw [Nat.toDigits_of_base_le (by omega) (by omega)]
        cases hdigits : Nat.toDigits 10 (n / 10) with
        | nil => exact absurd hdigits Nat.toDigits_ne_nil
        | cons c more =>
            rw [hdigits] at hfront
            simpa using hfront

theorem readDigits_toDigits
    (n : Nat)
    {rest : List Char}
    (hrest : endsNumber rest) :
    readDigits (Nat.toDigits 10 n ++ rest) = (Nat.toDigits 10 n, rest) := by
  have hdigits : ∀ c ∈ Nat.toDigits 10 n, c.isDigit = true :=
    fun c hc => Nat.isDigit_of_mem_toDigits (by omega) (by omega) hc
  unfold readDigits
  rw [List.takeWhile_append_of_pos hdigits, List.dropWhile_append_of_pos hdigits]
  cases rest with
  | nil => simp
  | cons c more =>
      have hc := (hrest c more rfl).1
      simp [hc]

theorem readWhole_toDigits
    (n : Nat)
    {rest : List Char}
    (hrest : endsNumber rest) :
    readWhole (Nat.toDigits 10 n ++ rest) = .ok (Nat.toDigits 10 n, rest) := by
  have hread := readDigits_toDigits n hrest
  cases hdigits : Nat.toDigits 10 n with
  | nil => exact absurd hdigits Nat.toDigits_ne_nil
  | cons c more =>
      rw [hdigits] at hread
      have hc : c.isDigit = true := by
        refine Nat.isDigit_of_mem_toDigits (n := n) (b := 10) (by omega) (by omega) ?_
        simp [hdigits]
      by_cases hzero : c = '0'
      · -- a zero in front is the whole number
        have hn : n = 0 := by
          refine Nat.eq_zero_of_not_pos fun hpos => ?_
          have := head_toDigits_ne_zero hpos
          simp [hdigits, hzero] at this
        subst hn
        rw [Nat.toDigits_zero] at hdigits
        obtain ⟨rfl, rfl⟩ := List.cons.inj hdigits
        cases rest with
        | nil => rfl
        | cons d rest =>
            have hd := (hrest d rest rfl).1
            simp [readWhole, hd]
      · simp only [List.cons_append] at hread ⊢
        simp [readWhole, hzero, hc, hread]

/-- A written number is read as its numeral, before anything that ends a number. -/
theorem readNumber_toDigits
    (n : Nat)
    {rest : List Char}
    (hrest : endsNumber rest) :
    readNumber false (Nat.toDigits 10 n ++ rest) = ⟨.number (.ofNat n), some rest⟩ := by
  have hfraction : readFraction rest = .ok (none, rest) := by
    unfold readFraction
    split
    · rename_i more
      exact absurd rfl (hrest '.' more rfl).2.1
    · rfl
  have hpower : readPower rest = .ok (none, rest) := by
    cases rest with
    | nil => rfl
    | cons c more =>
        have hc := (hrest c more rfl).2.2
        simp [readPower, hc.1, hc.2]
  have hnumeral : readNumeral false (Nat.toDigits 10 n ++ rest) = .ok (.ofNat n, rest) := by
    simp [readNumeral, readWhole_toDigits n hrest, hfraction, hpower, Numeral.ofNat,
      bind, Except.bind, pure, Except.pure]
  simp [readNumber, hnumeral]

/-! ## Blanks -/

/-- A character that is no blank is not skipped. -/
def isToken (c : Char) : Bool :=
  c ≠ ' ' && c ≠ '\n' && c ≠ '\r' && c ≠ '\t'

theorem skipBlanks_cons
    {c : Char}
    (h : isToken c = true)
    (rest : List Char) :
    skipBlanks (c :: rest) = c :: rest := by
  simp only [isToken, Bool.and_eq_true, decide_eq_true_eq] at h
  simp [skipBlanks, h]

/-- Blanks are skipped, whatever follows. -/
theorem skipBlanks_append
    {blanks : List Char}
    (h : ∀ c ∈ blanks, isToken c = false)
    (rest : List Char) :
    skipBlanks (blanks ++ rest) = skipBlanks rest := by
  refine List.dropWhile_append_of_pos fun c hc => ?_
  have hblank := h c hc
  simp only [isToken] at hblank
  grind

theorem isToken_of_isDigit
    {c : Char}
    (h : c.isDigit = true) :
    isToken c = true := by
  simp only [isToken, Bool.and_eq_true, decide_eq_true_eq]
  refine ⟨⟨⟨?_, ?_⟩, ?_⟩, ?_⟩ <;> rintro rfl <;> simp at h

theorem readValue_digit
    {c : Char}
    (h : c.isDigit = true)
    (fuel : Nat)
    (rest : List Char) :
    readValue (fuel + 1) (c :: rest) = readNumber false (c :: rest) := by
  have htoken := isToken_of_isDigit h
  rw [readValue.eq_def]
  simp only [skipBlanks_cons htoken]
  split <;> simp_all

end Json
end CqlDelta
