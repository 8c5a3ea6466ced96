import WaveCast.Interaction.Ensures

/-!
# Two runs side by side

`Twins R Q p s p' s'` compares two programs that each run alone, `p` on `s` and
`p'` on `s'`: if the surroundings choose alike (`R`) at each call for as long as
both programs make calls, then the two results and final states satisfy `Q`.
There is a rule for each way of taking both programs one step further.
-/

namespace Interaction

variable {S : Signature} {C E ε α β γ δ σ : Type}

/-- The choices at the `i`-th calls of two runs are related, for every `i` for
which both runs have one. -/
def Alike (R : E → E → Prop) (envs envs' : List E) : Prop := ∀ x ∈ envs.zip envs', R x.1 x.2

namespace Program

variable {exec : E → (c : S.Call) → σ → Option (S.Answer c × σ)} {R : E → E → Prop}
  {Q : Except ε α → σ → Except ε β → σ → Prop} {s s' : σ}

def Twins (exec : E → (c : S.Call) → σ → Option (S.Answer c × σ)) (R : E → E → Prop)
    (Q : Except ε α → σ → Except ε β → σ → Prop) (p : Program S ε α) (s : σ)
    (p' : Program S ε β) (s' : σ) : Prop :=
  ∀ envs envs' r r' t t', Alike R envs envs' → eval exec envs p s = some (r, t) →
    eval exec envs' p' s' = some (r', t') → Q r t r' t'

theorem Twins.mono {Q' : Except ε α → σ → Except ε β → σ → Prop} {p : Program S ε α}
    {p' : Program S ε β} (h : Twins exec R Q p s p' s') (hQ : ∀ r t r' t', Q r t r' t' →
      Q' r t r' t') : Twins exec R Q' p s p' s' :=
  fun envs envs' r r' t t' halike he he' => hQ r t r' t' (h envs envs' r r' t t' halike he he')

theorem twins_ret {a : α} {b : β} (h : Q (.ok a) s (.ok b) s') :
    Twins exec R Q (.ret a) s (.ret b) s' := by
  intro envs envs' r r' t t' _ he he'
  cases envs <;> cases envs' <;> cases he <;> cases he' <;> exact h

theorem twins_fail {e e' : ε} (h : Q (.error e) s (.error e') s') :
    Twins exec R Q (.fail e) s (.fail e') s' := by
  intro envs envs' r r' t t' _ he he'
  cases envs <;> cases envs' <;> cases he <;> cases he' <;> exact h

/-- Both programs make a call. -/
theorem twins_call {c c' : S.Call} {next : S.Answer c → Program S ε α}
    {next' : S.Answer c' → Program S ε β}
    (h : ∀ env env' a a' t t', R env env' → exec env c s = some (a, t) →
      exec env' c' s' = some (a', t') → Twins exec R Q (next a) t (next' a') t') :
    Twins exec R Q (.call c next) s (.call c' next') s' := by
  intro envs envs' r r' t t' halike he he'
  cases envs with
  | nil => cases he
  | cons env envs =>
    cases envs' with
    | nil => cases he'
    | cons env' envs' =>
      obtain ⟨⟨a, s₁⟩, hx, he⟩ := Option.bind_eq_some_iff.mp he
      obtain ⟨⟨a', s₁'⟩, hx', he'⟩ := Option.bind_eq_some_iff.mp he'
      refine h env env' a a' s₁ s₁' (halike (env, env') (by simp)) hx hx' envs envs' r r' t t' ?_
        he he'
      exact fun x hx => halike x (by simp [hx])

theorem twins_require {b : Bool} {e : ε} {f : Unit → Program S ε α} {f' : Unit → Program S ε β}
    (hok : b = true → Twins exec R Q (f ()) s (f' ()) s')
    (herr : b = false → Q (.error e) s (.error e) s') :
    Twins exec R Q ((require b e).bind f) s ((require b e).bind f') s' := by
  cases b with
  | true => exact hok rfl
  | false => exact twins_fail (herr rfl)

/-- The second program has stopped; the first one may go on. -/
theorem twins_stopped {e : ε} {p : Program S ε α} (h : List (Exchange S))
    (hp : Ensures exec (fun _ r t => Q r t (.error e) s') h s p) :
    Twins exec R Q p s (.fail e) s' := by
  intro envs envs' r r' t t' _ he he'
  obtain ⟨_, hq⟩ := hp.eval he
  cases envs' <;> cases he' <;> exact hq

theorem Twins.map {Q' : Except ε γ → σ → Except ε δ → σ → Prop} {p : Program S ε α}
    {p' : Program S ε β} {f : α → γ} {f' : β → δ}
    (h : Twins exec R (fun r t r' t' => Q' (r.map f) t (r'.map f') t') p s p' s') :
    Twins exec R Q' (f <$> p) s (f' <$> p') s' := by
  have hmap : ∀ {α γ : Type} (f : α → γ) (p : Program S ε α) (envs : List E) (s : σ),
      eval exec envs (f <$> p) s = (eval exec envs p s).map fun x => (x.1.map f, x.2) := by
    intro α γ f p
    induction p with
    | ret a => intro envs s; cases envs <;> rfl
    | fail e => intro envs s; cases envs <;> rfl
    | call c next ih =>
      intro envs s
      cases envs with
      | nil => rfl
      | cons env envs =>
        simp only [map_eq, call_bind, eval, Option.map_bind]
        congr 1
        funext x
        exact ih x.1 envs x.2
  intro envs envs' r r' t t' halike he he'
  rw [hmap] at he he'
  obtain ⟨x, hx, heq⟩ := Option.map_eq_some_iff.mp he
  obtain ⟨x', hx', heq'⟩ := Option.map_eq_some_iff.mp he'
  cases heq
  cases heq'
  exact h envs envs' x.1 x'.1 x.2 x'.2 halike hx hx'

end Program

namespace System

variable {M : System S C E ε α σ} {p q q' : Pool S C E ε α σ} {job job' : C × List E}

private theorem eval_of_calls (p : Pool S C E ε α σ) (cmd : C) (envs : List E) :
    ∀ (rest : Program S ε α) (s : σ) (trace : List (Entry S C E)) (q : Pool S C E ε α σ)
      (result : Except ε α),
      M.runFrom (envs.map (.call p.threads.length)) ⟨s, p.threads ++ [⟨cmd, rest⟩], trace⟩ =
        some q →
      q.threads = p.threads ++ [⟨cmd, Program.ofExcept result⟩] →
      Program.eval M.exec envs rest s = some (result, q.state) := by
  induction envs with
  | nil =>
    intro rest s trace q result hq hth
    cases hq
    have hrest : rest = Program.ofExcept result := by simpa using hth
    subst hrest
    cases result <;> rfl
  | cons env envs ih =>
    intro rest s trace q result hq hth
    obtain ⟨p', hm, hr⟩ := Option.bind_eq_some_iff.mp hq
    rcases move_cases hm with ⟨_, h, -⟩ | ⟨i, env', cmd', c, next, a, s', h, hi, he, rfl⟩
    · cases h
    · cases h
      simp only [List.getElem?_concat_length, Option.some.injEq, Thread.mk.injEq] at hi
      obtain ⟨rfl, rfl⟩ := hi
      refine Option.bind_eq_some_iff.mpr ⟨(a, s'), he, ?_⟩
      refine ih (next a) s' (⟨p.threads.length, cmd, env, ⟨c, a⟩⟩ :: trace) q result ?_ hth
      simpa using hr

/-- A command that ran alone in a pool is its program evaluated alone. -/
theorem eval_of_perform (h : M.perform job p = some q) (o : Outcome M p job q) :
    Program.eval M.exec job.2 (M.program job.1) p.state = some (o.result, q.state) := by
  obtain ⟨hrun, -⟩ := Option.filter_eq_some_iff.mp h
  exact eval_of_calls p job.1 job.2 (M.program job.1) p.state p.trace q o.result hrun
    o.threads_eq

/-- **Soundness** for two commands that each run alone from the same pool. -/
theorem perform_twins {R : E → E → Prop} {Q : Except ε α → σ → Except ε α → σ → Prop}
    (h : M.perform job p = some q) (h' : M.perform job' p = some q') (o : Outcome M p job q)
    (o' : Outcome M p job' q') (halike : Alike R job.2 job'.2)
    (htwins : Program.Twins M.exec R Q (M.program job.1) p.state (M.program job'.1) p.state) :
    Q o.result q.state o'.result q'.state :=
  htwins job.2 job'.2 o.result o'.result q.state q'.state halike (eval_of_perform h o)
    (eval_of_perform h' o')

end System

end Interaction
