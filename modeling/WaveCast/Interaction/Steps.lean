import WaveCast.Interaction.Pool

/-!
# Sequential runs, command by command

`EachCommand P` says that `P` holds of every command of a sequential run, of the
pool it starts in and of its outcome. What all states of a run have in common
(`eachState_iff`), or any two of them (`eachPair_iff`), is then a matter of what
each single command does.
-/

namespace Interaction

namespace System

variable {S : Signature} {C E ε α σ : Type} {M : System S C E ε α σ}

theorem exists_outcome {job : C × List E} {p q : Pool S C E ε α σ} (h : M.perform job p = some q) :
    Nonempty (Outcome M p job q) := by
  obtain ⟨o, -⟩ := perform_outcome (P := fun _ _ => True) (Q := fun _ _ => True) h
    (Program.follows_of_forall (fun _ _ => trivial) (fun _ _ => trivial) _ _)
  exact ⟨o⟩

/-- `P` holds of every command of the sequential run. -/
def EachCommand (M : System S C E ε α σ)
    (P : ∀ p job q, Outcome M p job q → Prop) (jobs : List (C × List E)) : Prop :=
  ∀ pre job post p q (o : Outcome M p job q), jobs = pre ++ job :: post → M.serial pre = some p →
    M.perform job p = some q → P p job q o

/-- `T` holds of every state of the sequential run. -/
def EachState (M : System S C E ε α σ) (T : σ → Prop) (jobs : List (C × List E)) : Prop :=
  ∀ pre post q, jobs = pre ++ post → M.serial pre = some q → T q.state

/-- `K` holds of any two states of the sequential run, the earlier one first. -/
def EachPair (M : System S C E ε α σ) (K : σ → σ → Prop) (jobs : List (C × List E)) : Prop :=
  ∀ pre mid post p q, jobs = pre ++ mid ++ post → M.serial pre = some p →
    M.serial (pre ++ mid) = some q → K p.state q.state

variable {P : ∀ p job q, Outcome M p job q → Prop} {T : σ → Prop} {K : σ → σ → Prop}

/-- **Rule for all states**: a command keeps `T` iff it satisfies `P`. -/
theorem eachState_iff (init : T M.init)
    (step : ∀ pre p job q (o : Outcome M p job q), M.serial pre = some p →
      M.perform job p = some q → T p.state → (T q.state ↔ P p job q o))
    (jobs : List (C × List E)) : M.EachState T jobs ↔ M.EachCommand P jobs := by
  constructor
  · intro hall pre job post p q o hjobs hp hq
    have hafter : M.serial (pre ++ [job]) = some q := serial_concat.mpr ⟨p, hp, hq⟩
    refine (step pre p job q o hp hq ?_).mp ?_
    · exact hall pre (job :: post) p hjobs hp
    · exact hall (pre ++ [job]) post q (by simp [hjobs]) hafter
  · intro hall pre post q hjobs hq
    induction pre using List.reverseRecOn generalizing post q with
    | nil => cases hq; exact init
    | append_singleton pre job ih =>
      obtain ⟨p, hp, hjob⟩ := serial_concat.mp hq
      obtain ⟨o⟩ := exists_outcome hjob
      have hjobs' : jobs = pre ++ job :: post := by simp [hjobs]
      exact (step pre p job q o hp hjob (ih (job :: post) p hjobs' hp)).mpr
        (hall pre job post p q o hjobs' hp hjob)

/-- **Rule for all pairs of states**: a command leads from a state to one
related by `K` iff it satisfies `P`. -/
theorem eachPair_iff (refl : ∀ s, K s s) (trans : ∀ s₁ s₂ s₃, K s₁ s₂ → K s₂ s₃ → K s₁ s₃)
    (step : ∀ pre p job q (o : Outcome M p job q), M.serial pre = some p →
      M.perform job p = some q → (K p.state q.state ↔ P p job q o))
    (jobs : List (C × List E)) : M.EachPair K jobs ↔ M.EachCommand P jobs := by
  constructor
  · intro hall pre job post p q o hjobs hp hq
    refine (step pre p job q o hp hq).mp (hall pre [job] post p q (by simp [hjobs]) hp ?_)
    exact serial_concat.mpr ⟨p, hp, hq⟩
  · intro hall pre mid post p q hjobs hp hq
    induction mid using List.reverseRecOn generalizing post q with
    | nil =>
      rw [List.append_nil, hp] at hq
      cases hq
      exact refl _
    | append_singleton mid job ih =>
      rw [← List.append_assoc] at hq
      obtain ⟨q₀, hq₀, hjob⟩ := serial_concat.mp hq
      obtain ⟨o⟩ := exists_outcome hjob
      refine trans _ _ _ (ih (job :: post) q₀ (by simp [hjobs]) hq₀) ?_
      exact (step (pre ++ mid) q₀ job q o hq₀ hjob).mpr
        (hall (pre ++ mid) job post q₀ q o (by simp [hjobs]) hq₀ hjob)

end System

end Interaction
