import CqlDelta.Proofs.Json.Routes
import Mathlib.Data.List.Forall2
import Mathlib.Data.List.Perm.Basic

/-!
# Readings that agree

Two readings agree if both fail, or both succeed with results that are related. What fails first and
with which error is left out of it, since readings of the same members in another order meet the
errors in another order. A reading that collects one update for each member agrees with the one in
another order if the updates commute (`applyAll_perm`), and with one whose updates agree one by one
(`applyAll_agree`).
-/

namespace CqlDelta
namespace Json

variable {ε ε' ε'' α β γ δ σ τ : Type}

/-- Two readings agree: both fail, or both succeed with related results. -/
inductive Agree (R : α → β → Prop) : Except ε α → Except ε' β → Prop
  | failed (fault : ε) (fault' : ε') : Agree R (.error fault) (.error fault')
  | done {value : α} {value' : β} (h : R value value') : Agree R (.ok value) (.ok value')

namespace Agree

variable {R : α → β → Prop} {first : Except ε α} {second : Except ε' β}

theorem refl (reading : Except ε α) : Agree Eq reading reading := by
  cases reading with
  | error fault => exact .failed fault fault
  | ok value => exact .done rfl

/-- The related results are those of the readings. -/
theorem found
    (h : Agree R first second) :
    Agree (fun value value' => first = .ok value ∧ second = .ok value' ∧ R value value')
      first second := by
  cases h with
  | failed fault fault' => exact .failed fault fault'
  | done hrel => exact .done ⟨rfl, rfl, hrel⟩

theorem mono
    {S : α → β → Prop}
    (h : Agree R first second)
    (himp : ∀ value value', R value value' → S value value') :
    Agree S first second := by
  cases h with
  | failed fault fault' => exact .failed fault fault'
  | done hrel => exact .done (himp _ _ hrel)

theorem trans
    {S : β → γ → Prop}
    {third : Except ε'' γ}
    (h : Agree R first second)
    (hnext : Agree S second third) :
    Agree (fun value value'' => ∃ value', R value value' ∧ S value' value'') first third := by
  cases h with
  | failed fault fault' =>
      cases hnext with
      | failed _ fault'' => exact .failed fault fault''
  | done hrel =>
      cases hnext with
      | done hrel' => exact .done ⟨_, hrel, hrel'⟩

theorem trans_eq
    {third : Except ε'' β}
    (h : Agree R first second)
    (hnext : Agree Eq second third) :
    Agree R first third :=
  (h.trans hnext).mono fun _ _ ⟨_, hrel, heq⟩ => heq ▸ hrel

theorem mapError
    (h : Agree R first second)
    (reword : ε → ε'') :
    Agree R (first.mapError reword) second := by
  cases h with
  | failed fault fault' => exact .failed (reword fault) fault'
  | done hrel => exact .done hrel

/-- Readings that agree are read on in agreement. -/
theorem bind
    {S : γ → δ → Prop}
    {next : α → Except ε γ}
    {next' : β → Except ε' δ}
    (h : Agree R first second)
    (hnext : ∀ value value', R value value' → Agree S (next value) (next' value')) :
    Agree S (first >>= next) (second >>= next') := by
  cases h with
  | failed fault fault' => exact .failed fault fault'
  | done hrel => exact hnext _ _ hrel

theorem map
    {S : γ → δ → Prop}
    {f : α → γ}
    {g : β → δ}
    (h : Agree R first second)
    (hrel : ∀ value value', R value value' → S (f value) (g value')) :
    Agree S (first.map f) (second.map g) := by
  cases h with
  | failed fault fault' => exact .failed fault fault'
  | done h => exact .done (hrel _ _ h)

end Agree

/-! ## Updates -/

/-- Updates take related records to related records. -/
def Respects (R : σ → τ → Prop) (update : σ → σ) (update' : τ → τ) : Prop :=
  ∀ value value', R value value' → R (update value) (update' value')

/-- Applies updates in order, up to the first that is none. -/
def applyAll : List (Except ε (σ → σ)) → σ → Except ε σ
  | [], value => .ok value
  | update :: more, value => do
      let step ← update
      applyAll more (step value)

/-- Updates that agree one by one agree in a row. -/
theorem applyAll_agree
    {R : σ → τ → Prop}
    {updates : List (Except ε (σ → σ))}
    {updates' : List (Except ε' (τ → τ))}
    (h : List.Forall₂ (Agree (Respects R)) updates updates')
    {value : σ}
    {value' : τ}
    (hvalue : R value value') :
    Agree R (applyAll updates value) (applyAll updates' value') := by
  induction h generalizing value value' with
  | nil => exact .done hvalue
  | cons hupdate _ ih =>
      rw [applyAll, applyAll]
      exact hupdate.bind fun step step' hstep => ih (hstep value value' hvalue)

/-- Any two of the updates commute. -/
def Commuting (updates : List (Except ε (σ → σ))) : Prop :=
  ∀ update ∈ updates, ∀ update' ∈ updates, ∀ step step',
    update = .ok step → update' = .ok step' → ∀ value, step (step' value) = step' (step value)

theorem Commuting.perm
    {updates updates' : List (Except ε (σ → σ))}
    (h : Commuting updates)
    (hperm : updates.Perm updates') :
    Commuting updates' :=
  fun update hupdate update' hupdate' =>
    h update (hperm.mem_iff.mpr hupdate) update' (hperm.mem_iff.mpr hupdate')

theorem Commuting.tail
    {update : Except ε (σ → σ)}
    {updates : List (Except ε (σ → σ))}
    (h : Commuting (update :: updates)) :
    Commuting updates :=
  fun first hfirst second hsecond =>
    h first (List.mem_cons_of_mem _ hfirst) second (List.mem_cons_of_mem _ hsecond)

/-- Updates that commute can be applied in any order. -/
theorem applyAll_perm
    {updates updates' : List (Except ε (σ → σ))}
    (hperm : updates.Perm updates')
    (hcommute : Commuting updates)
    (value : σ) :
    Agree Eq (applyAll updates value) (applyAll updates' value) := by
  induction hperm generalizing value with
  | nil => exact .done rfl
  | cons update _ ih =>
      rw [applyAll, applyAll]
      refine (Agree.refl update).bind fun step _ hstep => ?_
      subst hstep
      exact ih hcommute.tail (step value)
  | swap first second more =>
      simp only [applyAll]
      cases hfirst : first with
      | error fault =>
          cases hsecond : second with
          | error fault' => exact .failed _ _
          | ok step' => exact .failed _ _
      | ok step =>
          cases hsecond : second with
          | error fault' => exact .failed _ _
          | ok step' =>
              have hswap :=
                hcommute second (by simp) first (by simp) step' step hsecond hfirst value
              simp only [ok_bind, hswap]
              exact .refl _
  | trans hfirst _ ih ih' =>
      exact (ih hcommute value).trans_eq (ih' (hcommute.perm hfirst) value)

end Json
end CqlDelta
