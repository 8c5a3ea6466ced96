import Mathlib.Data.List.Basic
import Mathlib.Tactic.Common

/-!
# Runs in lockstep

A partial step function on states, run on a list of inputs. `EachStep A` says
that `A` holds of every step of a run. When a relation `R` is kept as long as
the inputs are good, and no step with a bad input satisfies `A`, then all steps
of a run satisfy `A` iff all its inputs are good (`eachStep_iff`). Taken on the
pairs of states of two implementations, this says when they agree.
-/

namespace Interaction

variable {σ ξ : Type} {step : ξ → σ → Option σ}

/-- The state after the inputs, if every one of them can be taken. -/
def runSteps (step : ξ → σ → Option σ) : List ξ → σ → Option σ
  | [], s => some s
  | x :: xs, s => (step x s).bind (runSteps step xs)

/-- `A` holds of every step of the run of `xs` from `s`. -/
def EachStep (step : ξ → σ → Option σ) (A : σ → ξ → σ → Prop) (xs : List ξ) (s : σ) : Prop :=
  ∀ pre x post s₁ s₂, xs = pre ++ x :: post → runSteps step pre s = some s₁ →
    step x s₁ = some s₂ → A s₁ x s₂

theorem eachStep_nil {A : σ → ξ → σ → Prop} (s : σ) : EachStep step A [] s := by
  intro pre x post s₁ s₂ h
  simp at h

/-- A run that cannot take its first input has no step. -/
theorem eachStep_stuck {A : σ → ξ → σ → Prop} {x : ξ} {xs : List ξ} {s : σ} (h : step x s = none) :
    EachStep step A (x :: xs) s := by
  intro pre y post s₁ s₂ hxs hrun hy
  cases pre with
  | nil =>
    cases hxs
    cases hrun
    rw [h] at hy
    cases hy
  | cons z pre =>
    cases hxs
    rw [runSteps, h] at hrun
    cases hrun

theorem eachStep_cons {A : σ → ξ → σ → Prop} {x : ξ} {xs : List ξ} {s s' : σ}
    (h : step x s = some s') :
    EachStep step A (x :: xs) s ↔ A s x s' ∧ EachStep step A xs s' := by
  constructor
  · intro hall
    refine ⟨hall [] x xs s s' rfl rfl h, ?_⟩
    intro pre y post s₁ s₂ hxs hrun hy
    exact hall (x :: pre) y post s₁ s₂ (by rw [hxs]; rfl) (by simpa [runSteps, h] using hrun) hy
  · rintro ⟨hx, hall⟩ pre y post s₁ s₂ hxs hrun hy
    cases pre with
    | nil =>
      cases hxs
      cases hrun
      rw [h] at hy
      cases hy
      exact hx
    | cons z pre =>
      cases hxs
      rw [runSteps, h, Option.bind_some] at hrun
      exact hall pre y post s₁ s₂ rfl hrun hy

/-- `ok` holds before every step that the run of the inputs takes. -/
def checkSteps (step : ξ → σ → Option σ) (ok : σ → ξ → Bool) : List ξ → σ → Bool
  | [], _ => true
  | x :: xs, s => ok s x && (step x s).all (checkSteps step ok xs)

theorem eachStep_of_checkSteps {ok : σ → ξ → Bool} {C : σ → ξ → Prop}
    (hok : ∀ s x, ok s x = true → C s x) {xs : List ξ} {s : σ}
    (h : checkSteps step ok xs s = true) : EachStep step (fun s x _ => C s x) xs s := by
  induction xs generalizing s with
  | nil => exact eachStep_nil s
  | cons x xs ih =>
    obtain ⟨hx, hxs⟩ := Bool.and_eq_true_iff.mp h
    cases hstep : step x s with
    | none => exact eachStep_stuck hstep
    | some s' =>
      rw [hstep, Option.all_some] at hxs
      exact (eachStep_cons hstep).mpr ⟨hok s x hx, ih hxs⟩

/-- **Agreement along a run.** The relation may speak of the inputs that are left. -/
theorem eachStep_iff {R : List ξ → σ → Prop} {A : σ → ξ → σ → Prop} {C : σ → ξ → Prop}
    (good : ∀ x xs s s', R (x :: xs) s → step x s = some s' → C s x → R xs s' ∧ A s x s')
    (bad : ∀ x xs s s', R (x :: xs) s → step x s = some s' → ¬ C s x → ¬ A s x s')
    {xs : List ξ} {s : σ} (hs : R xs s) :
    EachStep step A xs s ↔ EachStep step (fun s x _ => C s x) xs s := by
  induction xs generalizing s with
  | nil => exact iff_of_true (eachStep_nil s) (eachStep_nil s)
  | cons x xs ih =>
    cases hx : step x s with
    | none => exact iff_of_true (eachStep_stuck hx) (eachStep_stuck hx)
    | some s' =>
      rw [eachStep_cons hx, eachStep_cons hx]
      by_cases hC : C s x
      · obtain ⟨hs', hA⟩ := good x xs s s' hs hx hC
        simp [hA, hC, ih hs']
      · simp [hC, bad x xs s s' hs hx hC]

end Interaction
