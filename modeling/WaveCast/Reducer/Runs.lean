import Mathlib.Data.List.Induction

/-!
# Runs of a reducer

A reducer takes a state and an action to the next state, without effects and
without failing. A run folds it over a list of actions. What all states of a
run have in common, together with what every action of it does, is a matter of
the single actions (`each_iff`).
-/

namespace Reducer

variable {σ α : Type}

/-- The state after the actions. -/
def run (step : σ → α → σ) (s : σ) (actions : List α) : σ := actions.foldl step s

section

variable {step : σ → α → σ} {s : σ}

@[simp] theorem run_concat (actions : List α) (a : α) :
    run step s (actions ++ [a]) = step (run step s actions) a := by
  simp [run]

end

variable (step : σ → α → σ)

/-- `T` holds of every state of the run. -/
def EachState (T : σ → Prop) (s : σ) (actions : List α) : Prop :=
  ∀ pre post, actions = pre ++ post → T (run step s pre)

/-- `P` holds of every action of the run and the state the action finds. -/
def EachAction (P : σ → α → Prop) (s : σ) (actions : List α) : Prop :=
  ∀ pre a post, actions = pre ++ a :: post → P (run step s pre) a

variable {step} {s : σ} {T : σ → Prop} {F P Q : σ → α → Prop} {actions : List α}

theorem eachAction_nil : EachAction step P s [] := by
  simp [EachAction]

theorem eachAction_cons {a : α} :
    EachAction step P s (a :: actions) ↔ P s a ∧ EachAction step P (step s a) actions := by
  constructor
  · intro h
    refine ⟨h [] a actions rfl, fun pre b post hsplit => ?_⟩
    exact h (a :: pre) b post (by rw [hsplit, List.cons_append])
  · rintro ⟨ha, h⟩ pre b post hsplit
    rcases pre with - | ⟨c, pre⟩
    · obtain ⟨rfl, rfl⟩ := List.cons.inj hsplit
      exact ha
    · obtain ⟨rfl, hrest⟩ := List.cons.inj hsplit
      exact h pre b post hrest

theorem EachState.and {T' : σ → Prop} (h : EachState step T s actions)
    (h' : EachState step T' s actions) : EachState step (fun s => T s ∧ T' s) s actions :=
  fun pre post hsplit => ⟨h pre post hsplit, h' pre post hsplit⟩

theorem EachState.mono {T' : σ → Prop} (h : EachState step T s actions)
    (himp : ∀ s, T s → T' s) : EachState step T' s actions :=
  fun pre post hsplit => himp _ (h pre post hsplit)

theorem EachAction.and (hp : EachAction step P s actions) (hq : EachAction step Q s actions) :
    EachAction step (fun s a => P s a ∧ Q s a) s actions :=
  fun pre a post h => ⟨hp pre a post h, hq pre a post h⟩

theorem EachState.run (h : EachState step T s actions) : T (Reducer.run step s actions) :=
  h actions [] (by simp)

theorem EachState.eachAction (h : EachState step T s actions) :
    EachAction step (fun s _ => T s) s actions :=
  fun pre a post hsplit => h pre (a :: post) hsplit

/-- **Rule for all states**: what every action of the run keeps holds of its states. -/
theorem eachState_of (init : T s) (h : ∀ s a, F s a → T s → T (step s a))
    (hf : EachAction step F s actions) : EachState step T s actions := by
  intro pre
  induction pre using List.reverseRecOn with
  | nil => exact fun _ _ => init
  | append_singleton pre a ih =>
    intro post hactions
    have hsplit : actions = pre ++ a :: post := by simpa using hactions
    rw [run_concat]
    exact h _ a (hf pre a post hsplit) (ih (a :: post) hsplit)

/-- What no action undoes holds of all states. -/
theorem eachState_of_forall (init : T s) (h : ∀ s a, T s → T (step s a)) :
    EachState step T s actions :=
  eachState_of (F := fun _ _ => True) init (fun s a _ hs => h s a hs) fun _ _ _ _ => trivial

/-- Reducers that agree on the states of a run have the same run. -/
theorem run_congr {step' : σ → α → σ} (hstates : EachState step T s actions)
    (h : ∀ s a, T s → step s a = step' s a) :
    Reducer.run step s actions = Reducer.run step' s actions := by
  induction actions using List.reverseRecOn with
  | nil => rfl
  | append_singleton pre a ih =>
    have hpre : EachState step T s pre := fun l post hl => hstates l (post ++ [a]) (by simp [hl])
    rw [run_concat, run_concat, ← ih hpre]
    exact h _ a (hstates pre [a] rfl)

/-- **Rule for simulations**: two reducers stay related over a run. -/
theorem run_related {τ : Type} {step' : τ → α → τ} {R : σ → τ → Prop} {t : τ} (init : R s t)
    (h : ∀ s t a, R s t → R (step s a) (step' t a)) (actions : List α) :
    R (Reducer.run step s actions) (Reducer.run step' t actions) := by
  induction actions using List.reverseRecOn with
  | nil => exact init
  | append_singleton pre a ih =>
    rw [run_concat, run_concat]
    exact h _ _ a ih

/-- **Rule for runs**: where all actions satisfy `F`, all states satisfy `T`
and all actions `P` iff all actions satisfy `Q`. -/
theorem each_iff (hf : EachAction step F s actions) (init : T s)
    (h : ∀ s a, F s a → T s → (T (step s a) ∧ P s a ↔ Q s a)) :
    EachState step T s actions ∧ EachAction step P s actions ↔ EachAction step Q s actions := by
  constructor
  · rintro ⟨hstates, hactions⟩ pre a post hsplit
    have hbefore : T (run step s pre) := hstates pre (a :: post) hsplit
    have hafter : T (run step s (pre ++ [a])) := hstates (pre ++ [a]) post (by simp [hsplit])
    rw [run_concat] at hafter
    exact (h _ a (hf pre a post hsplit) hbefore).mp ⟨hafter, hactions pre a post hsplit⟩
  · intro hq
    have hstates : EachState step T s actions :=
      eachState_of init (fun s a ha hs => ((h s a ha.1 hs).mpr ha.2).1) (hf.and hq)
    refine ⟨hstates, fun pre a post hsplit => ?_⟩
    have hbefore : T (run step s pre) := hstates pre (a :: post) hsplit
    exact ((h _ a (hf pre a post hsplit) hbefore).mpr (hq pre a post hsplit)).2

end Reducer
