import WaveCast.Interaction.Pool

/-!
# Programs that run the programs of another system

A process may run programs written for other surroundings than its own: each of
their calls is made by a program of the process (`Program.linked`). What such a
program asks for, the linked one asks for in its own terms (`follows_linked`).

A system whose processes run the programs of another one, on its state or a
part of it, is a `Hosting` of it. Every run of the host is then one of the
hosted system as far as that state is concerned (`Hosting.run`): each process
of the host starts commands of the hosted system and makes their calls, and a
command that it gives up is one that makes no further call.
-/

namespace Interaction

variable {S T : Signature} {C D E F ε ε' α β σ τ : Type}

/-! ## Linking -/

namespace Program

/-- Each call is made by another program, and the outcome is responded to. -/
def linked (link : (c : T.Call) → Program S ε' (T.Answer c)) (respond : Except ε α → β) :
    Program T ε α → Program S ε' β
  | .ret a => .ret (respond (.ok a))
  | .fail e => .ret (respond (.error e))
  | .call c next => (link c).bind fun a => (next a).linked link respond

/-- What a program exchanges after others is what it exchanges alone, before theirs. -/
theorem Follows.after {P : List (Exchange S) → S.Call → Prop}
    {Q : List (Exchange S) → Except ε α → Prop} {h : List (Exchange S)} {p : Program S ε α}
    (hp : Follows P Q h p) (h₀ : List (Exchange S)) :
    Follows (fun h' c => ∃ h, h' = h ++ h₀ ∧ P h c) (fun h' r => ∃ h, h' = h ++ h₀ ∧ Q h r)
      (h ++ h₀) p := by
  induction p generalizing h with
  | ret a => exact ⟨h, rfl, hp⟩
  | fail e => exact ⟨h, rfl, hp⟩
  | call c next ih => exact ⟨⟨h, rfl, hp.1⟩, fun a => ih a (hp.2 a)⟩

section Linked

variable {P : List (Exchange T) → T.Call → Prop} {Q : List (Exchange T) → Except ε α → Prop}
  {P' : List (Exchange S) → S.Call → Prop} {Q' : List (Exchange S) → Except ε' β → Prop}
  {link : (c : T.Call) → Program S ε' (T.Answer c)} {respond : Except ε α → β}

/-- **Linking rule.** `R` relates the history of the program with the one of the
process that runs it, and each link keeps it. -/
theorem follows_linked (R : List (Exchange T) → List (Exchange S) → Prop)
    (hlink : ∀ c h h', R h h' → P h c → Follows P' (fun h' r => match r with
      | .ok a => R (⟨c, a⟩ :: h) h'
      | .error e => Q' h' (.error e)) h' (link c))
    (hend : ∀ h h' r, R h h' → Q h r → Q' h' (.ok (respond r))) {p : Program T ε α}
    {h : List (Exchange T)} {h' : List (Exchange S)} (hp : Follows P Q h p) (hR : R h h') :
    Follows P' Q' h' (p.linked link respond) := by
  induction p generalizing h h' with
  | ret a => exact hend h h' _ hR hp
  | fail e => exact hend h h' _ hR hp
  | call c next ih =>
    rw [linked, follows_bind]
    refine (hlink c h h' hR hp.1).mono (fun _ _ hc => hc) ?_
    rintro h'' (e | a) hr
    · exact hr
    · exact ih a (hp.2 a) hr

end Linked

end Program

/-! ## One thread at a time -/

namespace System

variable (M : System T C F ε' β τ)

/-- One thread goes on while no other does. When it has ended, or is given up,
another command may be started in its place. -/
inductive Alone : Option (Thread T C ε' β) → τ → Option (Thread T C ε' β) → τ → Prop
  | refl (v : Option (Thread T C ε' β)) (t : τ) : Alone v t v t
  | start {v v' : Option (Thread T C ε' β)} {t t' : τ} (cmd : C)
      (h : Alone (some ⟨cmd, M.program cmd⟩) t v' t') : Alone v t v' t'
  | call {v' : Option (Thread T C ε' β)} {t t₁ t' : τ} {cmd : C} {c : T.Call}
      {next : T.Answer c → Program T ε' β} (env : F) {a : T.Answer c}
      (hx : M.exec env c t = some (a, t₁)) (h : Alone (some ⟨cmd, next a⟩) t₁ v' t') :
      Alone (some ⟨cmd, .call c next⟩) t v' t'

/-- The thread with the index, if there is one. -/
def threadAt (p : Pool T C F ε' β τ) (k : Option ℕ) : Option (Thread T C ε' β) :=
  k.bind fun i => p.threads[i]?

variable {M}

/-- The threads of `p` but for the one with the index are the same in `p'`. -/
structure Untouched (k : Option ℕ) (p p' : Pool T C F ε' β τ) : Prop where
  length : p.threads.length ≤ p'.threads.length
  others : ∀ i < p.threads.length, k ≠ some i → p'.threads[i]? = p.threads[i]?

/-- A thread that goes on alone goes on so in a pool. -/
theorem Alone.moves {v v' : Option (Thread T C ε' β)} {t t' : τ} (h : M.Alone v t v' t')
    {p : Pool T C F ε' β τ} {k : Option ℕ} (hp : p.state = t) (hk : threadAt p k = v)
    (hlt : ∀ i, k = some i → i < p.threads.length) :
    ∃ ms p' k', M.runFrom ms p = some p' ∧ p'.state = t' ∧ threadAt p' k' = v' ∧
      Untouched k p p' ∧ (k' = k ∨ ∃ i ≥ p.threads.length, k' = some i) ∧
      ∀ i, k' = some i → i < p'.threads.length := by
  induction h generalizing p k with
  | refl v t =>
    exact ⟨[], p, k, rfl, hp, hk, ⟨Nat.le_refl _, fun _ _ _ => rfl⟩, .inl rfl, hlt⟩
  | start cmd _ ih =>
    let p₁ : Pool T C F ε' β τ := { p with threads := p.threads ++ [⟨cmd, M.program cmd⟩] }
    have hlength : p₁.threads.length = p.threads.length + 1 := by simp [p₁]
    have hnew : threadAt p₁ (some p.threads.length) = some ⟨cmd, M.program cmd⟩ := by
      simp [threadAt, p₁]
    obtain ⟨ms, p', k', hms, hstate, hk', hrest, hindex, hlt'⟩ :=
      ih (p := p₁) hp hnew (by simp [p₁])
    refine ⟨.start cmd :: ms, p', k', hms, hstate, hk', ⟨by have := hrest.length; omega, ?_⟩, ?_,
      hlt'⟩
    · intro i hi _
      rw [hrest.others i (by omega) (by simp; omega)]
      exact List.getElem?_append_left hi
    · rcases hindex with rfl | ⟨i, hi, rfl⟩
      · exact .inr ⟨_, Nat.le_refl _, rfl⟩
      · exact .inr ⟨i, by omega, rfl⟩
  | @call v' t t₁ t' cmd c next env a hx _ ih =>
    obtain ⟨i, rfl, hi⟩ := Option.bind_eq_some_iff.mp hk
    have hlt := hlt i rfl
    let p₁ : Pool T C F ε' β τ :=
      ⟨t₁, p.threads.set i ⟨cmd, next a⟩, ⟨i, cmd, env, ⟨c, a⟩⟩ :: p.trace⟩
    have hlength : p₁.threads.length = p.threads.length := by simp [p₁]
    have hnew : threadAt p₁ (some i) = some ⟨cmd, next a⟩ := by simp [threadAt, p₁, hlt]
    obtain ⟨ms, p', k', hms, hstate, hk', hrest, hindex, hlt'⟩ :=
      ih (p := p₁) rfl hnew (by simpa [p₁] using hlt)
    refine ⟨.call i env :: ms, p', k', ?_, hstate, hk', ⟨by have := hrest.length; omega, ?_⟩, ?_,
      hlt'⟩
    · have hmove : M.move (.call i env) p = some p₁ := by simp [move, hi, hp, hx, p₁]
      simp [runFrom, hmove, hms]
    · intro j hj hne
      have hij : i ≠ j := fun he => hne (congrArg some he)
      rw [hrest.others j (by omega) hne]
      exact List.getElem?_set_ne hij
    · rwa [hlength] at hindex

end System

/-! ## Hosting -/

/-- `W` runs the programs of `M`. -/
structure Hosting (W : System S D E ε α σ) (M : System T C F ε' β τ) where
  states : σ → τ → Prop
  /-- The program goes on with the thread, and with other commands after it. -/
  hosts : Program S ε α → Option (Thread T C ε' β) → Prop
  init : states W.init M.init
  programs : ∀ d, hosts (W.program d) none
  /-- With each call of the host its thread goes on, or stays where it is. -/
  call : ∀ {env c next a s s' v t}, hosts (.call c next) v → states s t →
    W.exec env c s = some (a, s') → ∃ v' t', M.Alone v t v' t' ∧ hosts (next a) v' ∧ states s' t'

namespace Hosting

variable {W : System S D E ε α σ} {M : System T C F ε' β τ} (G : Hosting W M)

/-- Each thread of the host has a thread of its own in the hosted system, or none. -/
structure Holds (q : Pool S D E ε α σ) (p : Pool T C F ε' β τ) (owned : ℕ → Option ℕ) : Prop where
  state : G.states q.state p.state
  threads : ∀ i t, q.threads[i]? = some t → G.hosts t.rest (System.threadAt p (owned i))
  own : ∀ i j k, owned i = some k → owned j = some k → i = j
  bounded : ∀ i k, owned i = some k → k < p.threads.length
  unstarted : ∀ i, q.threads.length ≤ i → owned i = none

variable {G} {q q' : Pool S D E ε α σ} {p : Pool T C F ε' β τ} {owned : ℕ → Option ℕ}

theorem holds_start : G.Holds W.start M.start fun _ => none where
  state := G.init
  threads i t hi := by cases hi
  own i j k hk := by cases hk
  bounded i k hk := by cases hk
  unstarted i _ := rfl

/-- **One move** of the host is a run of the hosted system. -/
theorem Holds.move (h : G.Holds q p owned) {m : Move D E} (hm : W.move m q = some q') :
    ∃ ms p' owned', M.runFrom ms p = some p' ∧ G.Holds q' p' owned' := by
  rcases System.move_cases hm with ⟨d, rfl, rfl⟩ | ⟨i, env, d, c, next, a, s, rfl, hi, hx, rfl⟩
  · refine ⟨[], p, owned, rfl, h.state, fun j t hj => ?_, h.own, h.bounded, fun j hj => ?_⟩
    · rw [List.getElem?_append] at hj
      split at hj
      · exact h.threads j t hj
      · rename_i hlt
        rw [h.unstarted j (Nat.not_lt.mp hlt)]
        rw [List.getElem?_singleton] at hj
        split at hj
        · cases hj
          exact G.programs d
        · cases hj
    · exact h.unstarted j (by simp at hj; omega)
  · have hlt : i < q.threads.length := (List.getElem?_eq_some_iff.mp hi).1
    obtain ⟨v', t', halone, hhosts, hstates⟩ := G.call (h.threads i _ hi) h.state hx
    obtain ⟨ms, p', k', hms, rfl, rfl, hrest, hindex, hlt'⟩ :=
      halone.moves rfl rfl (h.bounded i)
    -- the thread of the host keeps its thread, or has started one behind all others
    have hfresh : ∀ j k, j ≠ i → owned j = some k → k' ≠ some k := by
      intro j k hj hk hk'
      rcases hindex with rfl | ⟨n, hn, rfl⟩
      · exact hj (h.own j i k hk hk')
      · cases hk'
        exact absurd (h.bounded j _ hk) (by omega)
    refine ⟨ms, p', Function.update owned i k', hms, hstates, fun j t hj => ?_,
      fun j j' k hj hj' => ?_, fun j k hj => ?_, fun j hj => ?_⟩
    · by_cases hij : j = i
      · subst hij
        rw [List.getElem?_set_self hlt] at hj
        cases hj
        rw [Function.update_self]
        exact hhosts
      · rw [List.getElem?_set_ne (Ne.symm hij)] at hj
        rw [Function.update_of_ne hij]
        have hsame : System.threadAt p' (owned j) = System.threadAt p (owned j) := by
          cases hk : owned j with
          | none => rfl
          | some k =>
            refine hrest.others k (h.bounded j k hk) fun hk' => ?_
            exact hij (h.own j i k hk hk')
        rw [hsame]
        exact h.threads j t hj
    · by_cases hi : j = i <;> by_cases hi' : j' = i
      · rw [hi, hi']
      · subst hi
        rw [Function.update_self] at hj
        rw [Function.update_of_ne hi'] at hj'
        exact absurd hj (hfresh j' k hi' hj')
      · subst hi'
        rw [Function.update_self] at hj'
        rw [Function.update_of_ne hi] at hj
        exact absurd hj' (hfresh j k hi hj)
      · rw [Function.update_of_ne hi] at hj
        rw [Function.update_of_ne hi'] at hj'
        exact h.own j j' k hj hj'
    · by_cases hij : j = i
      · subst hij
        rw [Function.update_self] at hj
        exact hlt' k hj
      · rw [Function.update_of_ne hij] at hj
        exact Nat.lt_of_lt_of_le (h.bounded j k hj) hrest.length
    · rw [List.length_set] at hj
      rw [Function.update_of_ne (by omega)]
      exact h.unstarted j hj

/-- A thread of the hosted system that may go on alone does so in some run. -/
theorem Holds.goesOn (h : G.Holds q p owned) {i : ℕ} {v : Option (Thread T C ε' β)} {t : τ}
    (halone : M.Alone (System.threadAt p (owned i)) p.state v t) :
    ∃ ms p' k, M.runFrom ms p = some p' ∧ p'.state = t ∧ System.threadAt p' k = v := by
  obtain ⟨ms, p', k, hms, hstate, hk, -⟩ := halone.moves rfl rfl (h.bounded i)
  exact ⟨ms, p', k, hms, hstate, hk⟩

/-- **Every run of the host** has a run of the hosted system beside it. -/
theorem run_holds (G : Hosting W M) {ms : List (Move D E)} (h : W.run ms = some q) :
    ∃ ms' p owned, M.run ms' = some p ∧ G.Holds q p owned := by
  refine System.run_induction (I := fun q => ∃ ms' p owned, M.run ms' = some p ∧
    G.Holds q p owned) ⟨[], M.start, _, rfl, holds_start⟩ ?_ h
  rintro q m q' ⟨ms', p, owned, hp, hholds⟩ hm
  obtain ⟨ms₁, p', owned', hp', hholds'⟩ := hholds.move hm
  refine ⟨ms' ++ ms₁, p', owned', ?_, hholds'⟩
  rw [System.run, System.runFrom_append, show M.runFrom ms' M.start = some p from hp]
  exact hp'

theorem run (G : Hosting W M) {ms : List (Move D E)} (h : W.run ms = some q) :
    ∃ ms' p, M.run ms' = some p ∧ G.states q.state p.state := by
  obtain ⟨ms', p, _, hp, hholds⟩ := G.run_holds h
  exact ⟨ms', p, hp, hholds.state⟩

end Hosting

end Interaction
