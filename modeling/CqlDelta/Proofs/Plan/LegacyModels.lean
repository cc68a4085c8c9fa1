import CqlDelta.Plan.Context
import Mathlib.Data.List.Induction
import Mathlib.Data.List.TakeWhile
import Mathlib.Data.Nat.Digits.Defs

/-!
# Legacy models

A model is legacy if the first version that it declares has a run of digits in it, and the number
that the first such run stands for is below a threshold. A run may have any length and any number of
zeros in front. A major version is kept in 32 bits, as a threshold is, so that a run whose number
does not fit them counts as no version at all; no threshold tells the difference
(`legacy_models_are_below_threshold`).
-/

namespace CqlDelta
namespace Plan

/-! ## The first run of digits -/

/-- The number that decimal digits stand for: the last one counts ones, the one in front of it tens,
and so on. -/
def decimalValue (digits : List Char) : Nat :=
  Nat.ofDigits 10 (digits.reverse.map fun c => c.toNat - '0'.toNat)

theorem decimalValue_concat (digits : List Char) (c : Char) :
    decimalValue (digits ++ [c]) = (c.toNat - '0'.toNat) + 10 * decimalValue digits := by
  simp [decimalValue, Nat.ofDigits_cons]

/-- Reading digits from the front gives the number that they stand for. -/
theorem ofDigitChars_eq_decimalValue (digits : List Char) :
    Nat.ofDigitChars 10 digits 0 = decimalValue digits := by
  induction digits using List.reverseRecOn with
  | nil => rfl
  | append_singleton digits c ih =>
      rw [decimalValue_concat, ← ih, Nat.ofDigitChars_eq_foldl, Nat.ofDigitChars_eq_foldl,
        List.foldl_append, List.foldl_cons, List.foldl_nil, Nat.add_comm]

/-- The first run of digits in a text: it goes on as far as it can, and no digit stands in front of
it. -/
structure FirstRun (text : String) (run : List Char) : Prop where
  around : ∃ front back, text.toList = front ++ run ++ back ∧
    (∀ c ∈ front, c.isDigit = false) ∧ ∀ c ∈ back.head?, c.isDigit = false
  nonempty : run ≠ []
  digits : ∀ c ∈ run, c.isDigit = true

theorem firstDigits_around
    {front run back : List Char}
    (hfront : ∀ c ∈ front, c.isDigit = false)
    (hrun : ∀ c ∈ run, c.isDigit = true)
    (hback : ∀ c ∈ back.head?, c.isDigit = false)
    (hne : run ≠ []) :
    firstDigits (front ++ run ++ back) = run := by
  have hskip : ∀ c ∈ front, (!c.isDigit) = true := fun c hc => by rw [hfront c hc, Bool.not_false]
  have hstop : back.takeWhile Char.isDigit = [] := by
    cases back with
    | nil => rfl
    | cons c rest => exact List.takeWhile_cons_of_neg (by simp [hback c rfl])
  cases run with
  | nil => exact absurd rfl hne
  | cons first more =>
      have hfirst : first.isDigit = true := hrun first (by simp)
      have hdrop : (first :: (more ++ back)).dropWhile (fun c => !c.isDigit) =
          first :: more ++ back := by
        simp [hfirst]
      rw [firstDigits, List.append_assoc, List.dropWhile_append_of_pos hskip, List.cons_append,
        hdrop, List.takeWhile_append_of_pos hrun, hstop, List.append_nil]

/-- What is taken for a version is the first run of digits, if there is one. -/
theorem firstRun_iff
    {text : String}
    {run : List Char} :
    FirstRun text run ↔ run ≠ [] ∧ firstDigits text.toList = run := by
  constructor
  · rintro ⟨⟨front, back, htext, hfront, hback⟩, hne, hrun⟩
    exact ⟨hne, htext ▸ firstDigits_around hfront hrun hback hne⟩
  · rintro ⟨hne, rfl⟩
    refine ⟨⟨text.toList.takeWhile (!·.isDigit),
      (text.toList.dropWhile (!·.isDigit)).dropWhile Char.isDigit, ?_, ?_, ?_⟩, hne, ?_⟩
    · rw [firstDigits, List.append_assoc, List.takeWhile_append_dropWhile,
        List.takeWhile_append_dropWhile]
    · exact fun c hc => by simpa using List.mem_takeWhile_imp hc
    · intro c hc
      have hhead := List.head?_dropWhile_not Char.isDigit (text.toList.dropWhile (!·.isDigit))
      rw [Option.mem_def.mp hc] at hhead
      exact hhead
    · exact fun c hc => List.mem_takeWhile_imp hc

/-- A major version is the number of the first run of digits, if that fits 32 bits. -/
theorem majorVersion?_eq_some_iff
    {version : String}
    {major : UInt32} :
    majorVersion? version = some major ↔
      ∃ run, FirstRun version run ∧ decimalValue run = major.toNat := by
  rw [majorVersion?]
  cases hdigits : firstDigits version.toList with
  | nil => simp [firstRun_iff, hdigits]
  | cons first more =>
      have honly (run : List Char) : FirstRun version run ↔ run = first :: more := by
        rw [firstRun_iff, hdigits]
        constructor
        · exact fun h => h.2.symm
        · rintro rfl
          exact ⟨by simp, rfl⟩
      simp only [honly, exists_eq_left, ofDigitChars_eq_decimalValue]
      split
      · rename_i hfits
        rw [Option.some_inj, ← UInt32.toNat_inj, UInt32.toNat_ofNat_of_lt' hfits]
      · rename_i hlarge
        refine iff_of_false (by simp) fun hmajor => hlarge ?_
        exact hmajor ▸ major.toNat_lt

/-! ## The first declared version -/

/-- The first declared version that is not empty. -/
structure FirstVersion (versions : List (Option String)) (version : String) : Prop where
  around : ∃ front back, versions = front ++ some version :: back ∧
    ∀ other ∈ front, other = none ∨ other = some ""
  nonempty : version ≠ ""

theorem version?_eq_some_iff
    {context : Context}
    {version : String} :
    context.version? = some version ↔ FirstVersion context.versions version := by
  have hkept (declared : Option String) (text : String) :
      (declared.filter fun text => !text.isEmpty) = some text ↔
        declared = some text ∧ text ≠ "" := by
    simp [Option.filter_eq_some_iff]
  have hpassed (declared : Option String) :
      (declared.filter fun text => !text.isEmpty) = none ↔
        declared = none ∨ declared = some "" := by
    cases declared <;> simp
  rw [Context.version?, List.findSome?_eq_some_iff]
  simp only [hkept, hpassed]
  constructor
  · rintro ⟨front, _, back, hversions, ⟨rfl, hne⟩, hfront⟩
    exact ⟨⟨front, back, hversions, hfront⟩, hne⟩
  · rintro ⟨⟨front, back, hversions, hfront⟩, hne⟩
    exact ⟨front, some version, back, hversions, ⟨rfl, hne⟩, hfront⟩

theorem FirstVersion.unique
    {context : Context}
    {version other : String}
    (h : FirstVersion context.versions version)
    (hother : FirstVersion context.versions other) :
    version = other :=
  Option.some.inj ((version?_eq_some_iff.mpr h).symm.trans (version?_eq_some_iff.mpr hother))

theorem FirstRun.unique
    {text : String}
    {run other : List Char}
    (h : FirstRun text run)
    (hother : FirstRun text other) :
    run = other :=
  (firstRun_iff.mp h).2.symm.trans (firstRun_iff.mp hother).2

/-! ## Below a threshold -/

theorem isLegacy_iff
    {context : Context}
    {threshold : UInt32} :
    context.isLegacy threshold = true ↔
      ∃ version run, FirstVersion context.versions version ∧ FirstRun version run ∧
        decimalValue run < threshold.toNat := by
  simp only [Context.isLegacy, Option.any_eq_true, Option.bind_eq_some_iff, decide_eq_true_eq,
    version?_eq_some_iff, majorVersion?_eq_some_iff, UInt32.lt_iff_toNat_lt]
  constructor
  · rintro ⟨major, ⟨version, hversion, run, hrun, hmajor⟩, hbelow⟩
    exact ⟨version, run, hversion, hrun, hmajor ▸ hbelow⟩
  · rintro ⟨version, run, hversion, hrun, hbelow⟩
    -- What is below a threshold fits 32 bits, since the threshold does.
    have hfits : decimalValue run < UInt32.size := Nat.lt_trans hbelow threshold.toNat_lt
    have hmajor := UInt32.toNat_ofNat_of_lt' hfits
    exact ⟨.ofNat (decimalValue run), ⟨version, hversion, run, hrun, hmajor.symm⟩,
      hmajor.symm ▸ hbelow⟩

/-- A model is legacy below a threshold just if its first version that is not empty has digits, and
their first run stands for a number below the threshold, however long the run is. A number that does
not fit 32 bits is below no threshold, and what is legacy below a threshold is so below any higher
one. -/
theorem legacy_models_are_below_threshold (context : Context) :
    (∀ threshold : UInt32,
      context.isLegacy threshold = true ↔
        ∃ version run, FirstVersion context.versions version ∧ FirstRun version run ∧
          decimalValue run < threshold.toNat) ∧
    (∀ version run, FirstVersion context.versions version → FirstRun version run →
      2 ^ 32 ≤ decimalValue run →
        ∀ threshold : UInt32, context.isLegacy threshold = false) ∧
    (∀ threshold higher : UInt32, threshold ≤ higher →
      context.isLegacy threshold = true → context.isLegacy higher = true) := by
  refine ⟨fun threshold => isLegacy_iff, ?large, ?monotone⟩
  case large =>
    intro version run hversion hrun hlarge threshold
    rw [Bool.eq_false_iff, ne_eq, isLegacy_iff]
    rintro ⟨version', run', hversion', hrun', hbelow⟩
    obtain rfl := hversion.unique hversion'
    obtain rfl := hrun.unique hrun'
    have hthreshold : threshold.toNat < 2 ^ 32 := threshold.toNat_lt
    omega
  case monotone =>
    intro threshold higher hle hlegacy
    obtain ⟨version, run, hversion, hrun, hbelow⟩ := isLegacy_iff.mp hlegacy
    have hhigher : threshold.toNat ≤ higher.toNat := UInt32.le_iff_toNat_le.mp hle
    exact isLegacy_iff.mpr ⟨version, run, hversion, hrun, by omega⟩

/-- A model that declares a version behind an empty one, with zeros in front. -/
def earlyModel : Context :=
  { versions := [none, some "", some "v0002.1", some "4.0"] }

/-- A model whose version does not fit 32 bits. -/
def distantModel : Context :=
  { versions := [some "r4294967296"] }

theorem early_model_is_legacy_and_distant_one_is_not :
    FirstVersion earlyModel.versions "v0002.1" ∧
      FirstRun "v0002.1" ['0', '0', '0', '2'] ∧ decimalValue ['0', '0', '0', '2'] = 2 ∧
      (3 : UInt32) ≤ 4 ∧ earlyModel.isLegacy 3 = true ∧ earlyModel.isLegacy 4 = true ∧
      FirstVersion distantModel.versions "r4294967296" ∧
      FirstRun "r4294967296" "4294967296".toList ∧
      decimalValue "4294967296".toList = 2 ^ 32 ∧
      distantModel.isLegacy 4294967295 = false := by
  have hversion : FirstVersion earlyModel.versions "v0002.1" :=
    ⟨⟨[none, some ""], [some "4.0"], rfl, by simp⟩, by decide⟩
  have hrun : FirstRun "v0002.1" ['0', '0', '0', '2'] := firstRun_iff.mpr (by decide)
  have hvalue : decimalValue ['0', '0', '0', '2'] = 2 := by decide
  have hdistant : FirstVersion distantModel.versions "r4294967296" :=
    ⟨⟨[], [], rfl, by simp⟩, by decide⟩
  have hlong : FirstRun "r4294967296" "4294967296".toList := firstRun_iff.mpr (by decide)
  have hlarge : decimalValue "4294967296".toList = 2 ^ 32 := by decide
  obtain ⟨hiff, -, hmonotone⟩ := legacy_models_are_below_threshold earlyModel
  have hlegacy := (hiff 3).mpr ⟨_, _, hversion, hrun, by rw [hvalue]; decide⟩
  exact ⟨hversion, hrun, hvalue, by decide, hlegacy, hmonotone 3 4 (by decide) hlegacy, hdistant,
    hlong, hlarge,
    (legacy_models_are_below_threshold distantModel).2.1 _ _ hdistant hlong hlarge.ge _⟩

end Plan
end CqlDelta
