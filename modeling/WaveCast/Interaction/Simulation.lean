import Mathlib.Data.List.Forall2
import WaveCast.Interaction.Pool

/-!
# The same programs on two systems

Two systems run the same programs on different states. A `Simulation` relates
the states, and says which answers of the one system correspond to which of the
other; each call of the first one can then be answered by the second. Every run
of the first system is matched move by move by a run of the second
(`Simulation.run`), a sequential one by a sequential one (`Simulation.serial`).

Programs that go on in related ways after related answers are `Related`. A
program is related to itself where related answers are equal (`Related.self`).
-/

namespace Interaction

variable {S : Signature} {C E E' ε α β σ τ : Type}

/-! ## Related programs -/

namespace Program

/-- Both programs make the same calls, as long as they get related answers. -/
inductive Related (answers : (c : S.Call) → S.Answer c → S.Answer c → Prop)
    (errors : ε → ε → Prop) : Program S ε α → Program S ε α → Prop
  | ret (a : α) : Related answers errors (.ret a) (.ret a)
  | fail {e e' : ε} (h : errors e e') : Related answers errors (.fail e) (.fail e')
  | call (c : S.Call) {next next' : S.Answer c → Program S ε α}
      (h : ∀ a a', answers c a a' → Related answers errors (next a) (next' a')) :
      Related answers errors (.call c next) (.call c next')

section Related

variable {answers : (c : S.Call) → S.Answer c → S.Answer c → Prop} {errors : ε → ε → Prop}

/-- A program whose calls have one answer each is related to itself. -/
theorem Related.self {Q : List (Exchange S) → Except ε α → Prop} (herrors : ∀ e, errors e e)
    {p : Program S ε α} {h : List (Exchange S)}
    (hp : Follows (fun _ c => ∀ a a', answers c a a' → a = a') Q h p) :
    Related answers errors p p := by
  induction p generalizing h with
  | ret a => exact .ret a
  | fail e => exact .fail (herrors e)
  | call c next ih =>
    refine .call c fun a a' ha => ?_
    obtain rfl := hp.1 a a' ha
    exact ih a (hp.2 a)

theorem Related.bind {p p' : Program S ε α} (h : Related answers errors p p')
    {f f' : α → Program S ε β} (hf : ∀ a, Related answers errors (f a) (f' a)) :
    Related answers errors (p.bind f) (p'.bind f') := by
  induction h with
  | ret a => exact hf a
  | fail he => exact .fail he
  | call c _ ih => exact .call c ih

theorem Related.require {b : Bool} {e : ε} (herrors : ∀ e, errors e e) :
    Related answers errors (Program.require b e : Program S ε Unit) (Program.require b e) := by
  cases b with
  | true => exact .ret ()
  | false => exact .fail (herrors e)

end Related

end Program

open Program

/-! ## Simulations -/

structure Simulation (M : System S C E ε α σ) (N : System S C E' ε α τ) where
  states : σ → τ → Prop
  /-- What the surroundings choose at corresponding calls. -/
  choices : E → E' → Prop
  answers : (c : S.Call) → S.Answer c → S.Answer c → Prop
  errors : ε → ε → Prop
  init : states M.init N.init
  programs : ∀ cmd, Related answers errors (M.program cmd) (N.program cmd)
  /-- The second system, wherever a run has led it, can answer as the first does. -/
  answer : ∀ (ms : List (Move C E')) (q : Pool S C E' ε α τ) (i : ℕ) (cmd : C) (c : S.Call)
    (next : S.Answer c → Program S ε α) (env : E) (a : S.Answer c) (s s' : σ),
    N.run ms = some q → states s q.state → q.threads[i]? = some ⟨cmd, .call c next⟩ →
    M.exec env c s = some (a, s') →
    ∃ env' b t', choices env env' ∧ N.exec env' c q.state = some (b, t') ∧ answers c a b ∧
      states s' t'

namespace Simulation

variable {M : System S C E ε α σ} {N : System S C E' ε α τ} (F : Simulation M N)

inductive SameMove : Move C E → Move C E' → Prop
  | start (cmd : C) : SameMove (.start cmd) (.start cmd)
  | call (i : ℕ) {env : E} {env' : E'} (h : F.choices env env') :
      SameMove (.call i env) (.call i env')

inductive SameEntry : Entry S C E → Entry S C E' → Prop
  | mk (i : ℕ) (cmd : C) {env : E} {env' : E'} {c : S.Call} {a b : S.Answer c}
      (henv : F.choices env env') (h : F.answers c a b) :
      SameEntry ⟨i, cmd, env, ⟨c, a⟩⟩ ⟨i, cmd, env', ⟨c, b⟩⟩

structure SameThread (t t' : Thread S C ε α) : Prop where
  cmd : t.cmd = t'.cmd
  rest : Related F.answers F.errors t.rest t'.rest

/-- The two systems are equally far. -/
structure Matches (p : Pool S C E ε α σ) (q : Pool S C E' ε α τ) : Prop where
  states : F.states p.state q.state
  threads : List.Forall₂ F.SameThread p.threads q.threads
  trace : List.Forall₂ F.SameEntry p.trace q.trace

variable {F} {p p₀ : Pool S C E ε α σ} {q q₀ : Pool S C E' ε α τ}

theorem matches_start : F.Matches M.start N.start := ⟨F.init, .nil, .nil⟩

theorem Matches.started (h : F.Matches p q) (cmd : C) :
    F.Matches { p with threads := p.threads ++ [⟨cmd, M.program cmd⟩] }
      { q with threads := q.threads ++ [⟨cmd, N.program cmd⟩] } :=
  ⟨h.states, List.rel_append h.threads (.cons ⟨rfl, F.programs cmd⟩ .nil), h.trace⟩

/-- The thread that makes a call makes it on both systems. -/
theorem Matches.thread (h : F.Matches p q) {i : ℕ} {cmd : C} {c : S.Call}
    {next : S.Answer c → Program S ε α} (hi : p.threads[i]? = some ⟨cmd, .call c next⟩) :
    ∃ next', q.threads[i]? = some ⟨cmd, .call c next'⟩ ∧
      ∀ a b, F.answers c a b → Related F.answers F.errors (next a) (next' b) := by
  obtain ⟨hlt, hi⟩ := List.getElem?_eq_some_iff.mp hi
  have hlt' : i < q.threads.length := h.threads.length_eq ▸ hlt
  have hth := h.threads.get hlt hlt'
  simp only [List.get_eq_getElem, hi] at hth
  obtain ⟨hcmd, hrest⟩ := hth
  cases hq : q.threads[i] with
  | mk cmd' rest' =>
    rw [hq] at hcmd hrest
    obtain rfl := hcmd
    cases hrest with
    | call _ hnext => exact ⟨_, by rw [List.getElem?_eq_getElem hlt', hq], hnext⟩

/-- A thread goes on alike on both systems. -/
theorem Matches.set {threads : List (Thread S C ε α)} {threads' : List (Thread S C ε α)}
    (h : List.Forall₂ F.SameThread threads threads') (i : ℕ) {t t' : Thread S C ε α}
    (ht : F.SameThread t t') : List.Forall₂ F.SameThread (threads.set i t) (threads'.set i t') := by
  induction h generalizing i with
  | nil => exact .nil
  | cons hhead htail ih =>
    cases i with
    | zero => exact .cons ht htail
    | succ i => exact .cons hhead (ih i)

/-- What corresponding calls have in common can be looked up in either trace. -/
theorem Matches.exists_entry (h : F.Matches p q) {P : Entry S C E → Prop} {P' : Entry S C E' → Prop}
    (hP : ∀ e e', F.SameEntry e e' → (P e ↔ P' e')) :
    (∃ e ∈ p.trace, P e) ↔ ∃ e ∈ q.trace, P' e := by
  have htrace := h.trace
  generalize p.trace = t, q.trace = t' at htrace
  induction htrace with
  | nil => simp
  | cons he _ ih => simp only [List.mem_cons, exists_eq_or_imp, hP _ _ he, ih]

/-- **One move** of the first system is matched by one of the second. -/
theorem Matches.move (h : F.Matches p q) {ms : List (Move C E')} (hq : N.run ms = some q)
    {m : Move C E} {p' : Pool S C E ε α σ} (hm : M.move m p = some p') :
    ∃ m' q', F.SameMove m m' ∧ N.move m' q = some q' ∧ F.Matches p' q' := by
  rcases System.move_cases hm with
    ⟨cmd, rfl, rfl⟩ | ⟨i, env, cmd, c, next, a, s', rfl, hi, hx, rfl⟩
  · exact ⟨.start cmd, _, .start cmd, rfl, h.started cmd⟩
  · obtain ⟨next', hi', hnext⟩ := h.thread hi
    obtain ⟨env', b, t', henv, hx', hab, hstates⟩ :=
      F.answer ms q i cmd c next' env a p.state s' hq h.states hi' hx
    refine ⟨.call i env', ⟨t', q.threads.set i ⟨cmd, next' b⟩, ⟨i, cmd, env', ⟨c, b⟩⟩ :: q.trace⟩,
      .call i henv, by simp [System.move, hi', hx'], hstates, ?_, ?_⟩
    · exact Matches.set h.threads i ⟨rfl, hnext a b hab⟩
    · exact .cons (.mk i cmd henv hab) h.trace

theorem Matches.runFrom (h : F.Matches p₀ q₀) {ms₀ : List (Move C E')}
    (hq₀ : N.run ms₀ = some q₀) {ms : List (Move C E)} (hp : M.runFrom ms p₀ = some p) :
    ∃ ms' q, List.Forall₂ F.SameMove ms ms' ∧ N.runFrom ms' q₀ = some q ∧ F.Matches p q := by
  induction ms generalizing p₀ q₀ ms₀ with
  | nil => cases hp; exact ⟨[], q₀, .nil, rfl, h⟩
  | cons m ms ih =>
    obtain ⟨p₁, hm, hp⟩ := Option.bind_eq_some_iff.mp hp
    obtain ⟨m', q₁, hsame, hm', h₁⟩ := h.move hq₀ hm
    have hq₁ : N.run (ms₀ ++ [m']) = some q₁ := by
      rw [System.run, System.runFrom_append, show N.runFrom ms₀ N.start = some q₀ from hq₀]
      simp [System.runFrom, hm']
    obtain ⟨ms', q, hall, hq, hmatch⟩ := ih h₁ hq₁ hp
    exact ⟨m' :: ms', q, .cons hsame hall, by simp [System.runFrom, hm', hq], hmatch⟩

/-- **Every run is matched.** -/
theorem run (F : Simulation M N) {ms : List (Move C E)} (hp : M.run ms = some p) :
    ∃ ms' q, List.Forall₂ F.SameMove ms ms' ∧ N.run ms' = some q ∧ F.Matches p q :=
  matches_start.runFrom (show N.run [] = some N.start from rfl) hp

/-! ## Sequential runs -/

/-- The same command, and as many choices. -/
structure SameJob (F : Simulation M N) (job : C × List E) (job' : C × List E') : Prop where
  cmd : job.1 = job'.1
  choices : List.Forall₂ F.choices job.2 job'.2

theorem same_calls {i : ℕ} {envs : List E} {ms : List (Move C E')}
    (h : List.Forall₂ F.SameMove (envs.map (.call i)) ms) :
    ∃ envs', ms = envs'.map (.call i) ∧ List.Forall₂ F.choices envs envs' := by
  induction envs generalizing ms with
  | nil => cases h; exact ⟨[], rfl, .nil⟩
  | cons env envs ih =>
    obtain ⟨_, ms, hmove, hall, rfl⟩ := List.forall₂_cons_left_iff.mp h
    obtain ⟨envs', rfl, henvs⟩ := ih hall
    cases hmove with
    | call _ henv => exact ⟨_ :: envs', rfl, .cons henv henvs⟩

theorem Matches.perform (h : F.Matches p₀ q₀) {ms₀ : List (Move C E')}
    (hq₀ : N.run ms₀ = some q₀) {job : C × List E} (hp : M.perform job p₀ = some p) :
    ∃ job' q, F.SameJob job job' ∧ N.perform job' q₀ = some q ∧ F.Matches p q := by
  obtain ⟨hrun, hdone⟩ := Option.filter_eq_some_iff.mp hp
  obtain ⟨ms, q, hall, hq, hmatch⟩ := h.runFrom hq₀ hrun
  obtain ⟨_, ms, hmove, hcalls, rfl⟩ := List.forall₂_cons_left_iff.mp hall
  obtain ⟨envs', rfl, henvs⟩ := same_calls hcalls
  cases hmove with
  | start cmd =>
    refine ⟨(job.1, envs'), q, ⟨rfl, henvs⟩, ?_, hmatch⟩
    have hlength : q₀.threads.length = p₀.threads.length := h.threads.length_eq.symm
    refine Option.filter_eq_some_iff.mpr ⟨by rw [hlength]; exact hq, ?_⟩
    -- a thread that has ended has ended on both systems
    rw [hlength]
    split
    · rename_i cmd c next hi
      exfalso
      obtain ⟨hlt, hi⟩ := List.getElem?_eq_some_iff.mp hi
      have hlt' : p₀.threads.length < p.threads.length := by
        rw [hmatch.threads.length_eq]
        exact hlt
      have hth := hmatch.threads.get hlt' hlt
      simp only [List.get_eq_getElem, hi] at hth
      obtain ⟨hcmd, hrest⟩ := hth
      cases hp : p.threads[p₀.threads.length] with
      | mk cmd' rest' =>
        rw [hp] at hrest
        cases hrest with
        | call _ hnext => simp [List.getElem?_eq_getElem hlt', hp] at hdone
    · rfl

/-- **Every sequential run is matched by a sequential run.** -/
theorem serial (F : Simulation M N) {jobs : List (C × List E)} (hp : M.serial jobs = some p) :
    ∃ jobs' q, List.Forall₂ F.SameJob jobs jobs' ∧ N.serial jobs' = some q ∧ F.Matches p q := by
  induction jobs using List.reverseRecOn generalizing p with
  | nil => cases hp; exact ⟨[], N.start, .nil, rfl, matches_start⟩
  | append_singleton jobs job ih =>
    obtain ⟨p₀, hp₀, hp⟩ := System.serial_concat.mp hp
    obtain ⟨jobs', q₀, hall, hq₀, h₀⟩ := ih hp₀
    obtain ⟨ms₀, hms₀⟩ := System.serial_isRun hq₀
    obtain ⟨job', q, hjob, hq, hmatch⟩ := h₀.perform hms₀ hp
    exact ⟨jobs' ++ [job'], q, List.rel_append hall (.cons hjob .nil),
      System.serial_concat.mpr ⟨q₀, hq₀, hq⟩, hmatch⟩

end Simulation

end Interaction
