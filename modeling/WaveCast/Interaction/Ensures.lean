import WaveCast.Interaction.Pool

/-!
# Programs on a state

`Program.Ensures exec Q` says what holds when a program that runs alone on a
state ends: whatever the surroundings choose at each call, the history of its
exchanges, its result and the final state satisfy `Q`. It has a rule for each
way of building a program (`ensures_call`, `ensures_require`, `ensures_bind`,
`ensures_forEach`) and a rule of consequence (`Ensures.mono`). A loop whose
rounds each take a step takes the whole chain of `Steps` (`ensures_forEach_steps`),
or a first part of it where rounds may fail (`ensures_forEach_first`).

It is sound for programs evaluated alone (`Ensures.eval`) and for the commands
of a pool that run with nothing in between (`System.perform_ensures`). It does
not say that the program ends: `Program.May` does (`May.exists_eval`).
-/

namespace Interaction

variable {S : Signature} {C E ε α β γ σ : Type}

namespace Program

variable {exec : E → (c : S.Call) → σ → Option (S.Answer c × σ)}
  {Q Q' : List (Exchange S) → Except ε α → σ → Prop}

/-- Run on `s` with the exchanges `h` behind it, the program ends in `Q` if it ends. -/
def Ensures (exec : E → (c : S.Call) → σ → Option (S.Answer c × σ))
    (Q : List (Exchange S) → Except ε α → σ → Prop) :
    List (Exchange S) → σ → Program S ε α → Prop
  | h, s, .ret a => Q h (.ok a) s
  | h, s, .fail e => Q h (.error e) s
  | h, s, .call c next => ∀ env a s', exec env c s = some (a, s') →
      Ensures exec Q (⟨c, a⟩ :: h) s' (next a)

@[simp] theorem ensures_ret (h : List (Exchange S)) (s : σ) (a : α) :
    Ensures exec Q h s (.ret a) ↔ Q h (.ok a) s := Iff.rfl
@[simp] theorem ensures_fail (h : List (Exchange S)) (s : σ) (e : ε) :
    Ensures exec Q h s (.fail e) ↔ Q h (.error e) s := Iff.rfl
theorem ensures_call (h : List (Exchange S)) (s : σ) (c : S.Call)
    (next : S.Answer c → Program S ε α) :
    Ensures exec Q h s (.call c next) ↔ ∀ env a s', exec env c s = some (a, s') →
      Ensures exec Q (⟨c, a⟩ :: h) s' (next a) := Iff.rfl

theorem ensures_require (h : List (Exchange S)) (s : σ) (b : Bool) (e : ε)
    (f : Unit → Program S ε α) :
    Ensures exec Q h s ((require b e).bind f) ↔
      (b = true → Ensures exec Q h s (f ())) ∧ (b = false → Q h (.error e) s) := by
  cases b <;> simp [require]

theorem Ensures.mono {h : List (Exchange S)} {s : σ} {p : Program S ε α}
    (hp : Ensures exec Q h s p) (hQ : ∀ h r s, Q h r s → Q' h r s) : Ensures exec Q' h s p := by
  induction p generalizing h s with
  | ret a => exact hQ _ _ _ hp
  | fail e => exact hQ _ _ _ hp
  | call c next ih => exact fun env a s' hx => ih a (hp env a s' hx)

theorem Ensures.and {h : List (Exchange S)} {s : σ} {p : Program S ε α}
    (hp : Ensures exec Q h s p) (hp' : Ensures exec Q' h s p) :
    Ensures exec (fun h r s => Q h r s ∧ Q' h r s) h s p := by
  induction p generalizing h s with
  | ret a => exact ⟨hp, hp'⟩
  | fail e => exact ⟨hp, hp'⟩
  | call c next ih => exact fun env a s' hx => ih a (hp env a s' hx) (hp' env a s' hx)

/-- What a program that makes its calls by the protocol ends in, on any state. -/
theorem Follows.ensures {P : List (Exchange S) → S.Call → Prop}
    {R : List (Exchange S) → Except ε α → Prop} {h : List (Exchange S)} {p : Program S ε α}
    (hp : Follows P R h p) (s : σ) : Ensures exec (fun h r _ => R h r) h s p := by
  induction p generalizing h s with
  | ret a => exact hp
  | fail e => exact hp
  | call c next ih => exact fun env a s' _ => ih a (hp.2 a) s'

/-- An invariant that every call of the program keeps holds when it ends. -/
theorem Follows.ensures_invariant {P : S.Call → Prop} {R : List (Exchange S) → Except ε α → Prop}
    {T : σ → Prop} (hT : ∀ env c a s s', P c → exec env c s = some (a, s') → T s → T s')
    {h : List (Exchange S)} {s : σ} {p : Program S ε α} (hp : Follows (fun _ c => P c) R h p)
    (hs : T s) : Ensures exec (fun _ _ s' => T s') h s p := by
  induction p generalizing h s with
  | ret a => exact hs
  | fail e => exact hs
  | call c next ih => exact fun env a s' hx => ih a (hp.2 a) (hT env c a s s' hp.1 hx hs)

/-- What a program ends in depends on how its own calls are executed, and on no others. -/
theorem Ensures.congr {exec' : E → (c : S.Call) → σ → Option (S.Answer c × σ)} {P : S.Call → Prop}
    {R : List (Exchange S) → Except ε α → Prop}
    (hexec : ∀ env c s, P c → exec' env c s = exec env c s) {h h' : List (Exchange S)} {s : σ}
    {p : Program S ε α} (hp : Ensures exec Q h s p) (hcalls : Follows (fun _ c => P c) R h' p) :
    Ensures exec' Q h s p := by
  induction p generalizing h h' s with
  | ret a => exact hp
  | fail e => exact hp
  | call c next ih =>
    intro env a s' hx
    rw [hexec env c s hcalls.1] at hx
    exact ih a (hp env a s' hx) (hcalls.2 a)

theorem ensures_bind {Q : List (Exchange S) → Except ε β → σ → Prop} (h : List (Exchange S))
    (s : σ) (p : Program S ε α) (f : α → Program S ε β) :
    Ensures exec Q h s (p.bind f) ↔ Ensures exec (fun h r s => match r with
      | .ok a => Ensures exec Q h s (f a)
      | .error e => Q h (.error e) s) h s p := by
  induction p generalizing h s with
  | ret a => rfl
  | fail e => rfl
  | call c next ih => simp only [call_bind, ensures_call, ih]

/-- **Loop rule.** An invariant of the rounds that are done, the history and
the state that every round keeps holds when the loop ends; a round that fails
ends in `Q`. -/
theorem ensures_forEach {f : γ → Program S ε Unit}
    {Q : List (Exchange S) → Except ε Unit → σ → Prop}
    (I : List γ → List (Exchange S) → σ → Prop) {xs : List γ} (done : List γ)
    (h : List (Exchange S)) (s : σ) (h₀ : I done h s)
    (round : ∀ done' x rest, xs = done' ++ x :: rest → ∀ h s, I (done ++ done') h s →
      Ensures exec (fun h r s => match r with
        | .ok _ => I (done ++ done' ++ [x]) h s
        | .error e => Q h (.error e) s) h s (f x))
    (finish : ∀ h s, I (done ++ xs) h s → Q h (.ok ()) s) :
    Ensures exec Q h s (forEach xs f) := by
  induction xs generalizing done h s with
  | nil => exact finish h s (by rwa [List.append_nil])
  | cons x xs ih =>
    rw [forEach, ensures_bind]
    refine (round [] x xs rfl h s (by rwa [List.append_nil])).mono ?_
    intro h' r s' hr
    cases r with
    | ok _ =>
      refine ih (done ++ [x]) h' s' (by simpa using hr) ?_ (by simpa using finish)
      intro done' y rest hxs
      simpa using round (x :: done') y rest (by rw [hxs]; rfl)
    | error e => exact hr

/-- A chain of steps, one for each element of a list. -/
inductive Steps (R : γ → σ → σ → Prop) : List γ → σ → σ → Prop
  | nil (s : σ) : Steps R [] s s
  | cons {x : γ} {xs : List γ} {s₀ s₁ s₂ : σ} (hx : R x s₀ s₁) (hxs : Steps R xs s₁ s₂) :
      Steps R (x :: xs) s₀ s₂

/-- An invariant that every step keeps holds at the end of the chain. -/
theorem Steps.invariant {R : γ → σ → σ → Prop} {T : σ → Prop} {xs : List γ} {s s' : σ}
    (h : Steps R xs s s') (hT : ∀ x ∈ xs, ∀ s s', R x s s' → T s → T s') (hs : T s) : T s' := by
  induction h with
  | nil => exact hs
  | cons hx _ ih => exact ih (fun y hy => hT y (by simp [hy])) (hT _ (by simp) _ _ hx hs)

theorem Steps.mono {R R' : γ → σ → σ → Prop} {xs : List γ} {s s' : σ} (h : Steps R xs s s')
    (hR : ∀ x s s', R x s s' → R' x s s') : Steps R' xs s s' := by
  induction h with
  | nil => exact .nil _
  | cons hx _ ih => exact .cons (hR _ _ _ hx) ih

/-- The result and the final state satisfy `R`; errors come only where `F` holds. -/
def Yields (F : Prop) (R : α → σ → Prop) : List (Exchange S) → Except ε α → σ → Prop
  | _, .ok a, s => R a s
  | _, .error _, _ => F

/-- **Loop rule** for rounds that each take a step. -/
theorem ensures_forEach_steps {f : γ → Program S ε Unit} {F : Prop} {R : γ → σ → σ → Prop}
    {xs : List γ} (round : ∀ x ∈ xs, ∀ h s,
      Ensures exec (Yields F fun _ s' => R x s s') h s (f x)) (h : List (Exchange S)) (s : σ) :
    Ensures exec (Yields F fun _ s' => Steps R xs s s') h s (forEach xs f) := by
  induction xs generalizing h s with
  | nil => exact .nil s
  | cons x xs ih =>
    rw [forEach, ensures_bind]
    refine (round x (by simp) h s).mono ?_
    intro h' r s' hr
    cases r with
    | error e => exact hr
    | ok a =>
      refine (ih (fun y hy => round y (by simp [hy])) h' s').mono ?_
      intro h'' r' s'' hr'
      cases r' with
      | error e => exact hr'
      | ok b => exact .cons hr hr'

/-- **Loop rule** for rounds that may also fail, with or without their step: a
first part of the elements has taken its steps, and all have if the loop ends. -/
theorem ensures_forEach_first {f : γ → Program S ε Unit} {R : γ → σ → σ → Prop} {xs : List γ}
    (round : ∀ x ∈ xs, ∀ h s,
      Ensures exec (fun _ r s' => R x s s' ∨ (∃ e, r = .error e) ∧ s' = s) h s (f x))
    (h : List (Exchange S)) (s : σ) :
    Ensures exec (fun _ r s' => ∃ done rest, xs = done ++ rest ∧ Steps R done s s' ∧
      (r = .ok () → rest = [])) h s (forEach xs f) := by
  induction xs generalizing h s with
  | nil => exact ⟨[], [], rfl, .nil s, fun _ => rfl⟩
  | cons x xs ih =>
    rw [forEach, ensures_bind]
    refine (round x (by simp) h s).mono ?_
    rintro h' (e | a) s' hr
    · rcases hr with hstep | ⟨-, rfl⟩
      · exact ⟨[x], xs, rfl, .cons hstep (.nil s'), by simp⟩
      · exact ⟨[], x :: xs, rfl, .nil s', by simp⟩
    · have hstep : R x s s' := hr.resolve_right (by simp)
      refine (ih (fun y hy => round y (by simp [hy])) h' s').mono ?_
      rintro h'' r s'' ⟨done, rest, rfl, hsteps, hall⟩
      exact ⟨x :: done, rest, rfl, .cons hstep hsteps, hall⟩

/-- **Soundness** for programs that are evaluated alone. -/
theorem Ensures.eval {h : List (Exchange S)} {s s' : σ} {p : Program S ε α} {envs : List E}
    {r : Except ε α} (hp : Ensures exec Q h s p) (he : eval exec envs p s = some (r, s')) :
    ∃ h', Q h' r s' := by
  induction p generalizing h s envs with
  | ret a =>
    cases envs <;> cases he <;> exact ⟨h, hp⟩
  | fail e =>
    cases envs <;> cases he <;> exact ⟨h, hp⟩
  | call c next ih =>
    cases envs with
    | nil => cases he
    | cons env envs =>
      obtain ⟨⟨a, s₁⟩, hx, hr⟩ := Option.bind_eq_some_iff.mp he
      exact ih a (hp env a s₁ hx) hr

/-! ## Progress -/

/-- Run on `s`, the program can end in `Q`: at each call the surroundings have a
choice with which it does. -/
def May (exec : E → (c : S.Call) → σ → Option (S.Answer c × σ)) (Q : Except ε α → σ → Prop) :
    σ → Program S ε α → Prop
  | s, .ret a => Q (.ok a) s
  | s, .fail e => Q (.error e) s
  | s, .call c next => ∃ env a s', exec env c s = some (a, s') ∧ May exec Q s' (next a)

section May

variable {Q Q' : Except ε α → σ → Prop} {s : σ}

theorem May.mono {p : Program S ε α} (hp : May exec Q s p) (hQ : ∀ r s, Q r s → Q' r s) :
    May exec Q' s p := by
  induction p generalizing s with
  | ret a => exact hQ _ _ hp
  | fail e => exact hQ _ _ hp
  | call c next ih =>
    obtain ⟨env, a, s', hx, hp⟩ := hp
    exact ⟨env, a, s', hx, ih a hp⟩

theorem may_bind {Q : Except ε β → σ → Prop} (s : σ) (p : Program S ε α)
    (f : α → Program S ε β) :
    May exec Q s (p.bind f) ↔ May exec (fun r s => match r with
      | .ok a => May exec Q s (f a)
      | .error e => Q (.error e) s) s p := by
  induction p generalizing s with
  | ret a => rfl
  | fail e => rfl
  | call c next ih =>
    refine exists_congr fun env => exists_congr fun a => exists_congr fun s' => ?_
    rw [ih]

/-- **Loop rule.** What every round can carry over to the elements that are
left is there when the loop ends, unless a round fails. -/
theorem may_forEach {f : γ → Program S ε Unit} {Q : Except ε Unit → σ → Prop}
    (T : List γ → σ → Prop) {xs : List γ} (hs : T xs s)
    (round : ∀ x rest s, T (x :: rest) s → May exec (fun r s' => match r with
      | .ok _ => T rest s'
      | .error e => Q (.error e) s') s (f x))
    (finish : ∀ s, T [] s → Q (.ok ()) s) : May exec Q s (forEach xs f) := by
  induction xs generalizing s with
  | nil => exact finish s hs
  | cons x xs ih =>
    rw [forEach, may_bind]
    refine (round x xs s hs).mono ?_
    rintro (e | a) s' hr
    · exact hr
    · exact ih hr

/-- A program whose calls can all be executed while `T` holds can end with it. -/
theorem Follows.may {P : S.Call → Prop} {R : List (Exchange S) → Except ε α → Prop} {T : σ → Prop}
    (hexec : ∀ c s, P c → T s → ∃ env a s', exec env c s = some (a, s') ∧ T s')
    {h : List (Exchange S)} {p : Program S ε α} (hp : Follows (fun _ c => P c) R h p) (hs : T s) :
    May exec (fun _ s' => T s') s p := by
  induction p generalizing h s with
  | ret a => exact hs
  | fail e => exact hs
  | call c next ih =>
    obtain ⟨env, a, s', hx, hs'⟩ := hexec c s hp.1 hs
    exact ⟨env, a, s', hx, ih a (hp.2 a) hs'⟩

theorem May.exists_eval {p : Program S ε α} (hp : May exec Q s p) :
    ∃ envs r s', eval exec envs p s = some (r, s') ∧ Q r s' := by
  induction p generalizing s with
  | ret a => exact ⟨[], .ok a, s, rfl, hp⟩
  | fail e => exact ⟨[], .error e, s, rfl, hp⟩
  | call c next ih =>
    obtain ⟨env, a, s', hx, hp⟩ := hp
    obtain ⟨envs, r, t, he, hr⟩ := ih a hp
    exact ⟨env :: envs, r, t, Option.bind_eq_some_iff.mpr ⟨(a, s'), hx, he⟩, hr⟩

/-- **Progress**: a program whose calls can all be executed runs to an end. -/
theorem Follows.exists_eval {P : S.Call → Prop} {R : List (Exchange S) → Except ε α → Prop}
    (hexec : ∀ c s, P c → ∃ env a s', exec env c s = some (a, s')) {h : List (Exchange S)}
    {p : Program S ε α} (hp : Follows (fun _ c => P c) R h p) (s : σ) :
    ∃ envs r s', eval exec envs p s = some (r, s') := by
  have hmay : May exec (fun _ _ => True) s p := by
    refine hp.may (T := fun _ => True) (fun c s hc _ => ?_) trivial
    obtain ⟨env, a, s', hx⟩ := hexec c s hc
    exact ⟨env, a, s', hx, trivial⟩
  obtain ⟨envs, r, s', he, -⟩ := hmay.exists_eval
  exact ⟨envs, r, s', he⟩

end May

end Program

/-! ## Commands that run alone -/

namespace System

variable {M : System S C E ε α σ} {p q : Pool S C E ε α σ} {job : C × List E}

private theorem calls_ensures {Q : List (Exchange S) → Except ε α → σ → Prop}
    (p : Pool S C E ε α σ) (cmd : C) (envs : List E) :
    ∀ (rest : Program S ε α) (s : σ) (es : List (Entry S C E)) (q : Pool S C E ε α σ)
      (result : Except ε α) (entries : List (Entry S C E)),
      M.runFrom (envs.map (.call p.threads.length))
        ⟨s, p.threads ++ [⟨cmd, rest⟩], es ++ p.trace⟩ = some q →
      q.threads = p.threads ++ [⟨cmd, Program.ofExcept result⟩] →
      q.trace = entries ++ p.trace →
      Program.Ensures M.exec Q (es.map (·.exchange)) s rest →
      Q (entries.map (·.exchange)) result q.state := by
  induction envs with
  | nil =>
    intro rest s es q result entries hq hth htr hens
    cases hq
    obtain rfl := List.append_cancel_right htr
    have hrest : rest = Program.ofExcept result := by simpa using hth
    subst hrest
    cases result <;> exact hens
  | cons env envs ih =>
    intro rest s es q result entries hq hth htr hens
    obtain ⟨p', hm, hr⟩ := Option.bind_eq_some_iff.mp hq
    rcases move_cases hm with ⟨_, h, -⟩ | ⟨i, env', cmd', c, next, a, s', h, hi, he, rfl⟩
    · cases h
    · cases h
      simp only [List.getElem?_concat_length, Option.some.injEq, Thread.mk.injEq] at hi
      obtain ⟨rfl, rfl⟩ := hi
      refine ih (next a) s' (⟨p.threads.length, cmd, env, ⟨c, a⟩⟩ :: es) q result entries ?_ hth
        htr (hens env a s' he)
      simpa using hr

/-- **Soundness** for a command that runs in a pool with nothing in between. -/
theorem perform_ensures {Q : List (Exchange S) → Except ε α → σ → Prop}
    (h : M.perform job p = some q) (o : Outcome M p job q)
    (hens : Program.Ensures M.exec Q [] p.state (M.program job.1)) :
    Q o.history o.result q.state := by
  obtain ⟨hrun, -⟩ := Option.filter_eq_some_iff.mp h
  exact calls_ensures p job.1 job.2 (M.program job.1) p.state [] q o.result o.entries hrun
    o.threads_eq o.trace_eq hens

private theorem exists_calls_of_eval (cmd : C) :
    ∀ (rest : Program S ε α) (envs : List E) (s s' : σ) (result : Except ε α)
      (threads : List (Thread S C ε α)) (trace : List (Entry S C E)),
      Program.eval M.exec envs rest s = some (result, s') →
      ∃ n trace', M.runFrom ((envs.take n).map (.call threads.length))
        ⟨s, threads ++ [⟨cmd, rest⟩], trace⟩ =
          some ⟨s', threads ++ [⟨cmd, Program.ofExcept result⟩], trace'⟩ := by
  intro rest
  induction rest with
  | ret a =>
    intro envs s s' result threads trace h
    cases envs <;> cases h <;> exact ⟨0, trace, rfl⟩
  | fail e =>
    intro envs s s' result threads trace h
    cases envs <;> cases h <;> exact ⟨0, trace, rfl⟩
  | call c next ih =>
    intro envs s s' result threads trace h
    cases envs with
    | nil => cases h
    | cons env envs =>
      obtain ⟨⟨a, s₁⟩, hx, hr⟩ := Option.bind_eq_some_iff.mp h
      obtain ⟨n, trace', hrun⟩ := ih a envs s₁ s' result threads
        (⟨threads.length, cmd, env, ⟨c, a⟩⟩ :: trace) hr
      refine ⟨n + 1, trace', ?_⟩
      simp only [List.take_succ_cons, List.map_cons, runFrom, move, List.getElem?_concat_length,
        hx, Option.map_some, Option.bind_some]
      simpa using hrun

/-- A program that ends when it is evaluated alone ends as a command of a pool. -/
theorem exists_perform_of_eval {cmd : C} {envs : List E} {result : Except ε α} {s' : σ}
    (h : Program.eval M.exec envs (M.program cmd) p.state = some (result, s')) :
    ∃ n q, M.perform (cmd, envs.take n) p = some q ∧ q.state = s' ∧
      q.threads = p.threads ++ [⟨cmd, Program.ofExcept result⟩] := by
  obtain ⟨n, trace', hrun⟩ := exists_calls_of_eval cmd (M.program cmd) envs p.state s' result
    p.threads p.trace h
  refine ⟨n, ⟨s', p.threads ++ [⟨cmd, Program.ofExcept result⟩], trace'⟩,
    Option.filter_eq_some_iff.mpr ⟨?_, ?_⟩, rfl, rfl⟩
  · simpa [runFrom, move] using hrun
  · cases result <;> simp [Program.ofExcept]

end System

end Interaction
