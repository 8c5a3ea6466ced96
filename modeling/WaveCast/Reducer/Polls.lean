import Mathlib.Logic.Function.Basic

/-!
# Polls

Counts of some options of which a user chooses at most one. Choosing an option
again takes the choice back, choosing another moves it. However often the choice
is changed, every count is what it was without the user, plus one for the choice
(`toggle_eq`), and no count that is lowered was zero (`Tallies.clamp_choice`).
-/

structure Poll (K : Type) where
  counts : K → Int
  choice : Option K

namespace Poll

variable {K : Type} [DecidableEq K]

/-- The counts with one less for `k`, put through `clamp`. -/
def lower (clamp : Int → Int) (k : K) (counts : K → Int) : K → Int :=
  Function.update counts k (clamp (counts k - 1))

/-- Take the choice of `k` back, or choose `k` instead of what was chosen. -/
def toggle (clamp : Int → Int) (k : K) (p : Poll K) : Poll K :=
  if p.choice = some k then ⟨lower clamp k p.counts, none⟩
  else
    ⟨Function.update (p.choice.elim p.counts fun c => lower clamp c p.counts) k (p.counts k + 1),
      some k⟩

/-- The counts are `base`, plus one for the choice. -/
def Tallies (base : K → Int) (p : Poll K) : Prop :=
  ∀ k, p.counts k = base k + if p.choice = some k then 1 else 0

variable {clamp : Int → Int} {base : K → Int} {p : Poll K}

theorem tallies_of_choice_none (h : p.choice = none) : p.Tallies p.counts := by
  simp [Tallies, h]

theorem Tallies.le (h : p.Tallies base) (k : K) : base k ≤ p.counts k := by
  rw [h k]
  split <;> omega

/-- Only counts of at least one are lowered. -/
theorem Tallies.clamp_choice (h : p.Tallies base) (hbase : ∀ k, 0 ≤ base k)
    (hclamp : ∀ n, 0 ≤ n → clamp n = n) {k : K} (hk : p.choice = some k) :
    clamp (p.counts k - 1) = p.counts k - 1 := by
  have hcount : p.counts k = base k + 1 := by rw [h k, if_pos hk]
  exact hclamp _ (by have := hbase k; omega)

theorem Tallies.lower_choice (h : p.Tallies base) (hbase : ∀ k, 0 ≤ base k)
    (hclamp : ∀ n, 0 ≤ n → clamp n = n) {c : K} (hc : p.choice = some c) :
    lower clamp c p.counts = base := by
  funext k
  rw [lower, h.clamp_choice hbase hclamp hc]
  by_cases hk : k = c
  · subst hk
    rw [Function.update_self, h k, if_pos hc]
    omega
  · have hne : p.choice ≠ some k := by simpa [hc] using Ne.symm hk
    rw [Function.update_of_ne hk, h k, if_neg hne, Int.add_zero]

/-- What a toggle makes of counts that tally, whatever they are clamped to. -/
theorem toggle_eq (h : p.Tallies base) (hbase : ∀ k, 0 ≤ base k)
    (hclamp : ∀ n, 0 ≤ n → clamp n = n) (k : K) :
    p.toggle clamp k = if p.choice = some k then ⟨base, none⟩
      else ⟨Function.update base k (base k + 1), some k⟩ := by
  rw [toggle]
  split
  · next hk => rw [h.lower_choice hbase hclamp hk]
  · next hk =>
    have hlowered : (p.choice.elim p.counts fun c => lower clamp c p.counts) = base := by
      cases hc : p.choice with
      | none =>
        funext c
        simpa [hc] using h c
      | some c => exact h.lower_choice hbase hclamp hc
    rw [hlowered, h k, if_neg hk, Int.add_zero]

/-- **A toggle keeps the tally.** -/
theorem Tallies.toggle (h : p.Tallies base) (hbase : ∀ k, 0 ≤ base k)
    (hclamp : ∀ n, 0 ≤ n → clamp n = n) (k : K) : (p.toggle clamp k).Tallies base := by
  intro c
  rw [toggle_eq h hbase hclamp]
  split
  · simp
  · by_cases hc : c = k
    · simp [hc]
    · simp [hc, Ne.symm hc]

end Poll
