import CqlDelta.Proofs.Json.Routes
import CqlDelta.Proofs.Json.WrittenText
import Mathlib.Data.List.TakeWhile

/-!
# Where tokens end

A literal, a number and a quoted text are read off the front of a text. How far they go, and what
they are, does not depend on what follows them, as long as what follows a number cannot belong to
it: `readLiteral_eq_some`, `readNumeral_front` and `readQuoted_front` cut the characters of the
token off the front and read them once more before another rest.
-/

namespace CqlDelta
namespace Json

/-! ## Literals -/

theorem readLiteral_append
    (value : Tree)
    (word rest : List Char) :
    readLiteral value word (word ++ rest) = ⟨value, some rest⟩ := by
  induction word with
  | nil => rfl
  | cons c word ih => rw [List.cons_append, readLiteral, if_pos rfl, ih]

/-- A literal is read to its end, or it is broken. -/
theorem readLiteral_eq_some
    {value : Tree}
    {word cs : List Char}
    (h : ∀ flaw, readLiteral value word cs ≠ .broken flaw) :
    ∃ rest, cs = word ++ rest ∧ readLiteral value word cs = ⟨value, some rest⟩ := by
  induction word generalizing cs with
  | nil => exact ⟨cs, rfl, by cases cs <;> rfl⟩
  | cons expected word ih =>
      cases cs with
      | nil => exact absurd rfl (h _)
      | cons c cs =>
          rw [readLiteral] at h ⊢
          split at h
          next heq =>
            obtain ⟨rest, rfl, hread⟩ := ih h
            exact ⟨rest, by rw [heq, List.cons_append], by rw [if_pos heq, hread]⟩
          next => exact absurd rfl (h _)

/-! ## Numbers -/

/-- No digit comes next. -/
def endsDigits (rest : List Char) : Prop :=
  ∀ c ∈ rest.head?, c.isDigit = false

theorem endsNumber.endsDigits
    {rest : List Char}
    (h : endsNumber rest) :
    endsDigits rest := by
  cases rest with
  | nil => simp [Json.endsDigits]
  | cons c more => simpa [Json.endsDigits] using (h c more rfl).1

/-- The digits at the front are the same before any rest that does not start with one. -/
theorem readDigits_front
    {cs digits rest : List Char}
    (h : readDigits cs = (digits, rest)) :
    cs = digits ++ rest ∧ (∀ c ∈ digits, c.isDigit = true) ∧
      ∀ rest', endsDigits rest' → readDigits (digits ++ rest') = (digits, rest') := by
  obtain ⟨rfl, rfl⟩ := Prod.mk.inj h
  have hdigits : ∀ c ∈ cs.takeWhile Char.isDigit, c.isDigit = true :=
    fun c hc => List.mem_takeWhile_imp hc
  refine ⟨List.takeWhile_append_dropWhile.symm, hdigits, fun rest' hrest' => ?_⟩
  rw [readDigits, List.takeWhile_append_of_pos hdigits, List.dropWhile_append_of_pos hdigits]
  cases rest' with
  | nil => simp
  | cons c more =>
      have hc : c.isDigit = false := hrest' c rfl
      simp [hc]

theorem readSomeDigits_front
    {cs digits rest : List Char}
    (h : readSomeDigits cs = .ok (digits, rest)) :
    cs = digits ++ rest ∧ (∃ c more, digits = c :: more ∧ c.isDigit = true) ∧
      ∀ rest', endsDigits rest' → readSomeDigits (digits ++ rest') = .ok (digits, rest') := by
  rw [readSomeDigits] at h
  split at h
  next => simp at h
  next hne =>
    have hfound := Except.ok.inj h
    obtain ⟨hcs, hdigits, hread⟩ := readDigits_front hfound
    cases digits with
    | nil => exact absurd hfound (hne rest)
    | cons c more =>
        refine ⟨hcs, ⟨c, more, rfl, hdigits c (by simp)⟩, fun rest' hrest' => ?_⟩
        rw [readSomeDigits, hread rest' hrest']

/-- The part of a number before the point. -/
theorem readWhole_front
    {cs whole rest : List Char}
    (h : readWhole cs = .ok (whole, rest)) :
    cs = whole ++ rest ∧ whole ≠ [] ∧
      ∀ rest', endsDigits rest' → readWhole (whole ++ rest') = .ok (whole, rest') := by
  cases cs with
  | nil => simp [readWhole] at h
  | cons c cs =>
      rw [readWhole.eq_def] at h
      dsimp only at h
      split at h
      next hzero =>
        have hwhole : whole = [c] ∧ rest = cs := by
          split at h
          next =>
            split at h
            · simp at h
            · obtain ⟨rfl, rfl⟩ := Prod.mk.inj (Except.ok.inj h)
              exact ⟨rfl, rfl⟩
          next =>
            obtain ⟨rfl, rfl⟩ := Prod.mk.inj (Except.ok.inj h)
            exact ⟨rfl, rfl⟩
        obtain ⟨rfl, rfl⟩ := hwhole
        refine ⟨rfl, by simp, fun rest' hrest' => ?_⟩
        cases rest' with
        | nil => simp [readWhole, hzero]
        | cons d more =>
            have hd : d.isDigit = false := hrest' d rfl
            simp [readWhole, hzero, hd]
      next hzero =>
        split at h
        next hdigit =>
          obtain ⟨hcs, -, hread⟩ := readDigits_front (Except.ok.inj h)
          have hwhole : ∃ more, whole = c :: more := by
            have hfirst : whole = (c :: cs).takeWhile Char.isDigit :=
              (congrArg Prod.fst (Except.ok.inj h)).symm
            exact ⟨_, hfirst.trans (List.takeWhile_cons_of_pos hdigit)⟩
          obtain ⟨more, rfl⟩ := hwhole
          refine ⟨hcs, by simp, fun rest' hrest' => ?_⟩
          have hread' := hread rest' hrest'
          rw [List.cons_append] at hread' ⊢
          rw [readWhole.eq_def]
          dsimp only
          rw [if_neg hzero, if_pos hdigit, hread']
        next => simp at h

/-- A fraction starts with its point. -/
theorem readFraction_front
    {cs rest : List Char}
    {fraction : Option (List Char)}
    (h : readFraction cs = .ok (fraction, rest)) :
    ∃ used, cs = used ++ rest ∧ (used = [] ∨ used.head? = some '.') ∧
      ∀ rest', endsDigits rest' → rest'.head? ≠ some '.' →
        readFraction (used ++ rest') = .ok (fraction, rest') := by
  unfold readFraction at h
  split at h
  next more =>
    obtain ⟨⟨digits, behind⟩, hdigits, heq⟩ := map_eq_ok_iff.mp h
    obtain ⟨rfl, rfl⟩ := Prod.mk.inj heq
    obtain ⟨rfl, -, hread⟩ := readSomeDigits_front hdigits
    refine ⟨'.' :: digits, rfl, .inr rfl, fun rest' hrest' _ => ?_⟩
    rw [List.cons_append, readFraction, hread rest' hrest']
    rfl
  next hpoint =>
    obtain ⟨rfl, rfl⟩ := Prod.mk.inj (Except.ok.inj h)
    refine ⟨[], rfl, .inl rfl, fun rest' _ hrest' => ?_⟩
    rw [List.nil_append, readFraction]
    rintro more rfl
    exact hrest' rfl

/-- The sign of a power. -/
theorem readPowerSign_front
    {cs rest : List Char}
    {negative : Bool}
    (h : readPowerSign cs = (negative, rest)) :
    ∃ used, cs = used ++ rest ∧
      ∀ c more, c.isDigit = true → readPowerSign (used ++ c :: more) = (negative, c :: more) := by
  unfold readPowerSign at h
  split at h
  next more =>
    obtain ⟨rfl, rfl⟩ := Prod.mk.inj h
    exact ⟨['+'], rfl, fun _ _ _ => rfl⟩
  next more =>
    obtain ⟨rfl, rfl⟩ := Prod.mk.inj h
    exact ⟨['-'], rfl, fun _ _ _ => rfl⟩
  next =>
    obtain ⟨rfl, rfl⟩ := Prod.mk.inj h
    refine ⟨[], rfl, fun c more hc => ?_⟩
    rw [List.nil_append, readPowerSign]
    · rintro rest heq
      obtain ⟨rfl, -⟩ := List.cons.inj heq
      simp at hc
    · rintro rest heq
      obtain ⟨rfl, -⟩ := List.cons.inj heq
      simp at hc

/-- A power starts with its mark. -/
theorem readPower_front
    {cs rest : List Char}
    {power : Option ExponentPart}
    (h : readPower cs = .ok (power, rest)) :
    ∃ used, cs = used ++ rest ∧ (used = [] ∨ used.head? = some 'e' ∨ used.head? = some 'E') ∧
      ∀ rest', endsNumber rest' → readPower (used ++ rest') = .ok (power, rest') := by
  have habsent (rest' : List Char) (hrest' : endsNumber rest') :
      readPower rest' = .ok (none, rest') := by
    cases rest' with
    | nil => rfl
    | cons c more =>
        have hc := (hrest' c more rfl).2.2
        simp [readPower, hc.1, hc.2]
  cases cs with
  | nil =>
      obtain ⟨rfl, rfl⟩ := Prod.mk.inj (Except.ok.inj h)
      exact ⟨[], rfl, .inl rfl, habsent⟩
  | cons c cs =>
      cases hcs : readPowerSign cs with | mk negative digits
      obtain ⟨sign, rfl, hsigned⟩ := readPowerSign_front hcs
      rw [readPower, hcs] at h
      split at h
      next hmark =>
        obtain ⟨⟨found, behind⟩, hfound, heq⟩ := map_eq_ok_iff.mp h
        obtain ⟨rfl, rfl⟩ := Prod.mk.inj heq
        obtain ⟨rfl, ⟨d, more, rfl, hd⟩, hread⟩ := readSomeDigits_front hfound
        refine ⟨c :: (sign ++ d :: more), by simp, .inr ?_, fun rest' hrest' => ?_⟩
        · simpa using hmark
        · have hread' := hread rest' hrest'.endsDigits
          have hsigned' := hsigned d (more ++ rest') hd
          rw [List.cons_append] at hread'
          rw [List.cons_append, List.append_assoc, List.cons_append, readPower, if_pos hmark,
            hsigned']
          simp only [hread']
          rfl
      next =>
        obtain ⟨rfl, rfl⟩ := Prod.mk.inj (Except.ok.inj h)
        exact ⟨[], rfl, .inl rfl, habsent⟩

/-- A numeral is read off the front, and is the same before any rest that ends a number. -/
theorem readNumeral_front
    {negative : Bool}
    {cs rest : List Char}
    {numeral : Numeral}
    (h : readNumeral negative cs = .ok (numeral, rest)) :
    ∃ used, cs = used ++ rest ∧ used ≠ [] ∧
      ∀ rest', endsNumber rest' → readNumeral negative (used ++ rest') = .ok (numeral, rest') := by
  obtain ⟨⟨whole, behind⟩, hwhole, h⟩ := bind_eq_ok_iff.mp h
  obtain ⟨⟨fraction, behind'⟩, hfraction, h⟩ := bind_eq_ok_iff.mp h
  obtain ⟨⟨power, behind''⟩, hpower, h⟩ := bind_eq_ok_iff.mp h
  obtain ⟨rfl, rfl⟩ := Prod.mk.inj (Except.ok.inj h)
  obtain ⟨rfl, hne, hwhole'⟩ := readWhole_front hwhole
  obtain ⟨point, rfl, hpoint, hfraction'⟩ := readFraction_front hfraction
  obtain ⟨mark, rfl, hmark, hpower'⟩ := readPower_front hpower
  refine ⟨whole ++ (point ++ mark), by simp, by simp [hne], fun rest' hrest' => ?_⟩
  have hbehind : endsDigits (mark ++ rest') ∧ (mark ++ rest').head? ≠ some '.' := by
    cases mark with
    | nil =>
        refine ⟨hrest'.endsDigits, fun hhead => ?_⟩
        obtain ⟨more, rfl⟩ := List.head?_eq_some_iff.mp hhead
        have hpoint := hrest' '.' more rfl
        exact hpoint.2.1 rfl
    | cons c mark =>
        simp only [List.head?_cons, Option.some.injEq, reduceCtorEq, false_or] at hmark
        rcases hmark with rfl | rfl <;> exact ⟨by simp [endsDigits], by simp⟩
  have hbehind' : endsDigits (point ++ (mark ++ rest')) := by
    cases point with
    | nil => exact hbehind.1
    | cons c point =>
        simp only [List.head?_cons, Option.some.injEq, reduceCtorEq, false_or] at hpoint
        subst hpoint
        simp [endsDigits]
  rw [List.append_assoc, List.append_assoc]
  simp only [readNumeral, hwhole' _ hbehind', hfraction' _ hbehind.1 hbehind.2,
    hpower' rest' hrest', ok_bind]
  rfl

/-! ## Quoted texts -/

theorem addPiece_eq_quote
    {piece : Piece}
    {behind : List Piece × Close}
    {found : List Piece}
    {rest : List Char}
    (h : addPiece piece behind = (found, .quote rest)) :
    ∃ more, found = piece :: more ∧ behind = (more, .quote rest) := by
  obtain ⟨rfl, hclose⟩ := Prod.mk.inj h
  exact ⟨behind.1, rfl, Prod.ext rfl hclose⟩

/-- The pieces of a text are cut off its front up to the closing quote. -/
theorem pieces_front
    {cs rest : List Char}
    {found : List Piece}
    (h : pieces cs = (found, .quote rest)) :
    ∃ used, cs = used ++ rest ∧
      ∀ rest', pieces (used ++ rest') = (found, .quote rest') := by
  fun_induction pieces cs generalizing found with
  | case1 => simp at h
  | case2 more =>
      simp only [Prod.mk.injEq, Close.quote.injEq] at h
      obtain ⟨rfl, rfl⟩ := h
      exact ⟨['\x22'], rfl, fun rest' => by simp [pieces]⟩
  | case3 => simp at h
  | case4 a b c d more unit hunit ih =>
      obtain ⟨behind, rfl, hmore⟩ := addPiece_eq_quote h
      obtain ⟨used, rfl, hread⟩ := ih hmore
      refine ⟨'\\' :: 'u' :: a :: b :: c :: d :: used, rfl, fun rest' => ?_⟩
      simp [pieces, hunit, hread rest', addPiece]
  | case5 => simp at h
  | case6 more =>
      have hclose := (Prod.mk.inj h).2
      rw [brokenCode] at hclose
      split at hclose <;> simp at hclose
  | case7 c more hcode hcode' plain hplain ih =>
      obtain ⟨behind, rfl, hmore⟩ := addPiece_eq_quote h
      obtain ⟨used, rfl, hread⟩ := ih hmore
      refine ⟨'\\' :: c :: used, rfl, fun rest' => ?_⟩
      have hc : c ≠ 'u' := by
        rintro rfl
        simp [escapedChar?] at hplain
      simp [pieces, hc, hplain, hread rest', addPiece]
  | case8 => simp at h
  | case9 => simp at h
  | case10 c more hquote hend hcode hcode' hescape hcontrol ih =>
      have hslash : c ≠ '\\' := by
        rintro rfl
        cases more with
        | nil => exact hend rfl rfl
        | cons d more => exact hescape d more rfl rfl
      obtain ⟨behind, rfl, hmore⟩ := addPiece_eq_quote h
      obtain ⟨used, rfl, hread⟩ := ih hmore
      refine ⟨c :: used, rfl, fun rest' => ?_⟩
      rw [List.cons_append, pieces_plain hquote hslash hcontrol, hread]
      rfl

/-- What follows the closing quote does not matter to the characters. -/
theorem joinPieces_quote
    (rest rest' : List Char) :
    ∀ found, joinPieces found (.quote rest) = joinPieces found (.quote rest')
  | [] => rfl
  | .char c :: more => by rw [joinPieces, joinPieces, joinPieces_quote rest rest' more]
  | [.code unit] => by simp [joinPieces, unpaired]
  | .code unit :: .char c :: more => by
      simp [joinPieces, joinPieces_quote rest rest' more]
  | .code unit :: .code second :: more => by
      have hmore := joinPieces_quote rest rest' more
      have hsecond := joinPieces_quote rest rest' (.code second :: more)
      rw [joinPieces.eq_def, joinPieces.eq_def]
      simp only [hmore, hsecond]

/-- A quoted text is read off the front, and is the same before any rest. -/
theorem readQuoted_front
    {cs rest : List Char}
    {content : Content}
    (h : readQuoted cs = .ok (content, rest)) :
    ∃ used, cs = used ++ rest ∧
      ∀ rest', readQuoted (used ++ rest') = .ok (content, rest') := by
  cases hpieces : pieces cs with | mk found close
  rw [readQuoted, hpieces] at h
  cases close with
  | quote behind =>
      obtain ⟨rfl, rfl⟩ := Prod.mk.inj (Except.ok.inj h)
      obtain ⟨used, rfl, hread⟩ := pieces_front hpieces
      refine ⟨used, rfl, fun rest' => ?_⟩
      rw [readQuoted, hread rest', joinPieces_quote behind rest']
  | _ => dsimp only at h; split at h <;> simp at h

end Json
end CqlDelta
