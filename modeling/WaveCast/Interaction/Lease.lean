import Mathlib
import WaveCast.Interaction.History

/-!
# Leases

Clients of a store take keys for a time and report on them later; the store
accepts every report, whoever it comes from. In a history, an event on a key
with an expiry takes a lease, one without reports on it.

`Leased` is what keeps this safe: a lease is taken over only after it has
expired, and a client reports at most once on a lease and not after its expiry.
Then a report always ends the lease that is held (`Leased.report_newest`), and
between two leases of a key the first is reported on or expires
(`Leased.separated`).
-/

namespace Interaction

variable {ε K τ : Type} [DecidableEq K]

section Newest

variable (key : ε → Option K) (client : ε → ℕ)

/-- The newest event on the key. -/
def newest (k : K) (t : List ε) : Option ε := t.find? fun e => key e = some k

/-- The newest event of one client on the key. -/
def newestOf (i : ℕ) (k : K) (t : List ε) : Option ε :=
  t.find? fun e => client e = i ∧ key e = some k

variable {key client}

theorem newest_cons (k : K) (e : ε) (t : List ε) :
    newest key k (e :: t) = if key e = some k then some e else newest key k t := by
  by_cases h : key e = some k <;> simp [newest, h]

theorem newest_eq_some {k : K} {t : List ε} {c : ε} :
    newest key k t = some c ↔
      key c = some k ∧ ∃ mid rest, t = mid ++ c :: rest ∧ ∀ f ∈ mid, key f ≠ some k := by
  simp [newest, List.find?_eq_some_iff_append]

theorem newest_eq_none {k : K} {t : List ε} :
    newest key k t = none ↔ ∀ f ∈ t, key f ≠ some k := by
  simp [newest]

theorem newestOf_eq_some {i : ℕ} {k : K} {t : List ε} {c : ε} :
    newestOf key client i k t = some c ↔ (client c = i ∧ key c = some k) ∧
      ∃ mid rest, t = mid ++ c :: rest ∧ ∀ f ∈ mid, client f = i → key f ≠ some k := by
  simp [newestOf, List.find?_eq_some_iff_append, imp_iff_not_or]

end Newest

/-- The oldest element of a history with a property. -/
theorem exists_oldest {p : ε → Prop} {t : List ε} (h : ∃ e ∈ t, p e) :
    ∃ newer e older, t = newer ++ e :: older ∧ p e ∧ ∀ f ∈ older, ¬ p f := by
  induction t with
  | nil => simp at h
  | cons e t ih =>
    by_cases ht : ∃ f ∈ t, p f
    · obtain ⟨newer, f, older, rfl, hf, hno⟩ := ih ht
      exact ⟨e :: newer, f, older, rfl, hf, hno⟩
    · obtain ⟨f, hf, hp⟩ := h
      rcases List.mem_cons.mp hf with rfl | hf
      · exact ⟨[], f, t, rfl, hp, fun g hg hpg => ht ⟨g, hg, hpg⟩⟩
      · exact absurd ⟨f, hf, hp⟩ ht

section Leases

variable [LinearOrder τ] (key : ε → Option K) (expiry : ε → Option τ) (client : ε → ℕ)
  (clock : ε → τ)

structure Leased (t : List ε) : Prop where
  /-- The clock does not go back. -/
  forward : Always (fun older e => ∀ f ∈ older, clock f ≤ clock e) t
  /-- A lease is taken over after it has expired. -/
  guarded : Always (fun older e => ∀ k c u, key e = some k → (expiry e).isSome →
    newest key k older = some c → expiry c = some u → u < clock e) t
  /-- A client reports on its newest lease of the key, once and in time. -/
  timely : Always (fun older e => ∀ k, key e = some k → expiry e = none →
    ∃ c u, newestOf key client (client e) k older = some c ∧ expiry c = some u ∧ clock e ≤ u) t

variable {key expiry client clock}

/-- **A timely report comes right after its lease**: nobody has taken the key
or reported on it in between. -/
theorem Leased.report_newest {t : List ε} (h : Leased key expiry client clock t) :
    Always (fun older e => ∀ k, key e = some k → expiry e = none →
      newest key k older = newestOf key client (client e) k older) t := by
  refine ((h.forward.and h.guarded).and h.timely).strong ?_
  rintro older e hall ih ⟨⟨hclock, -⟩, htimely⟩ k hk hr
  obtain ⟨c, u, hown, hu, hle⟩ := htimely k hk hr
  rw [hown]
  obtain ⟨⟨hcl, hck⟩, mid, rest, rfl, hmid⟩ := newestOf_eq_some.mp hown
  refine newest_eq_some.mpr ⟨hck, mid, rest, rfl, ?_⟩
  by_contra hne
  push Not at hne
  obtain ⟨m₁, f, m₂, rfl, hfk, hm₂⟩ := exists_oldest hne
  have hc : newest key k (m₂ ++ c :: rest) = some c :=
    newest_eq_some.mpr ⟨hck, m₂, rest, rfl, hm₂⟩
  have hf : f ∈ m₁ ++ f :: m₂ ++ c :: rest := by simp
  rw [List.append_assoc, List.cons_append] at hall ih
  cases hfe : expiry f with
  | some u' =>
    have hlt := hall.at.1.2 k c u hfk (by simp [hfe]) hc hu
    exact absurd (hlt.trans_le ((hclock f hf).trans hle)) (lt_irrefl u)
  | none =>
    -- the other report would be on the same lease, so by the same client
    have hown' := ih.at k hfk hfe
    rw [hc] at hown'
    obtain ⟨⟨hcl', -⟩, -⟩ := newestOf_eq_some.mp hown'.symm
    exact hmid f (by simp) (hcl'.symm.trans hcl) hfk

/-- **Exclusive leases.** Between two leases of a key the first one is
reported on by its owner, before anything else happens to the key, or expires. -/
theorem Leased.separated {newer mid older : List ε} {e₁ e₂ : ε} {k : K} {u : τ}
    (h : Leased key expiry client clock (newer ++ e₂ :: (mid ++ e₁ :: older)))
    (h₁ : key e₁ = some k) (hu : expiry e₁ = some u) (h₂ : key e₂ = some k)
    (hu₂ : (expiry e₂).isSome) :
    (∃ m₁ r m₂, mid = m₁ ++ r :: m₂ ∧ key r = some k ∧ expiry r = none ∧
      client r = client e₁ ∧ ∀ f ∈ m₂, key f ≠ some k) ∨ u < clock e₂ := by
  by_cases hmid : ∃ f ∈ mid, key f = some k
  · obtain ⟨m₁, f, m₂, rfl, hfk, hm₂⟩ := exists_oldest hmid
    have hnew : newest key k (m₂ ++ e₁ :: older) = some e₁ :=
      newest_eq_some.mpr ⟨h₁, m₂, older, rfl, hm₂⟩
    have split : newer ++ e₂ :: (m₁ ++ f :: m₂ ++ e₁ :: older) =
        (newer ++ e₂ :: m₁) ++ f :: (m₂ ++ e₁ :: older) := by simp
    cases hfe : expiry f with
    | some u' =>
      have hg := h.guarded
      rw [split] at hg
      have hle := h.forward.at f (by simp)
      exact .inr ((hg.at k e₁ u hfk (by simp [hfe]) hnew hu).trans_le hle)
    | none =>
      have hrep := h.report_newest
      rw [split] at hrep
      have hown := hrep.at k hfk hfe
      rw [hnew] at hown
      obtain ⟨⟨hcl, -⟩, -⟩ := newestOf_eq_some.mp hown.symm
      exact .inl ⟨m₁, f, m₂, rfl, hfk, hfe, hcl.symm, hm₂⟩
  · refine .inr (h.guarded.at k e₁ u h₂ hu₂ (newest_eq_some.mpr ⟨h₁, mid, older, rfl, ?_⟩) hu)
    exact fun f hf hfk => hmid ⟨f, hf, hfk⟩

end Leases

end Interaction
