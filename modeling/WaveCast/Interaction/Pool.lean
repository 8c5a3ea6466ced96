import Mathlib.Data.List.Induction
import WaveCast.Interaction.Program
import WaveCast.Interaction.History

/-!
# Pools of programs on a shared state

A `System` gives a program to each command and executes each single call
atomically on a shared state. A `Pool` runs any number of commands at once:
`Move.start` starts one more, `Move.call` lets one thread make its next call.
Every interleaving of the calls is a list of moves.

* `run_always`: what every program asks for (`Program.Follows`) holds of the
  trace of every run;
* `run_replays`: the state of a run is the replay of its trace;
* `Reaches`: what a run can go on to;
* `serial`: the runs in which each command ends before the next one starts;
  they are runs of the pool (`serial_isRun`) and `perform_outcome` says what
  one command of them does.

`E` is the type of the choices the surroundings make at one call.
-/

namespace Interaction

variable {S : Signature} {C E ε α σ : Type}

structure System (S : Signature) (C E ε α σ : Type) where
  program : C → Program S ε α
  exec : E → (c : S.Call) → σ → Option (S.Answer c × σ)
  init : σ

structure Thread (S : Signature) (C ε α : Type) where
  cmd : C
  rest : Program S ε α

/-- One line of the trace of a run. -/
structure Entry (S : Signature) (C E : Type) where
  thread : ℕ
  cmd : C
  env : E
  exchange : Exchange S

structure Pool (S : Signature) (C E ε α σ : Type) where
  state : σ
  threads : List (Thread S C ε α)
  /-- Newest first. -/
  trace : List (Entry S C E)

inductive Move (C E : Type) where
  | start (cmd : C)
  | call (thread : ℕ) (env : E)

/-- The exchanges of one thread, newest first. -/
def threadHistory (i : ℕ) (t : List (Entry S C E)) : List (Exchange S) :=
  t.filterMap fun e => if e.thread = i then some e.exchange else none

@[simp] theorem threadHistory_nil (i : ℕ) : threadHistory i ([] : List (Entry S C E)) = [] := rfl

theorem threadHistory_cons (i : ℕ) (e : Entry S C E) (t : List (Entry S C E)) :
    threadHistory i (e :: t) =
      if e.thread = i then e.exchange :: threadHistory i t else threadHistory i t := by
  by_cases h : e.thread = i <;> simp [threadHistory, h]

theorem mem_threadHistory {i : ℕ} {t : List (Entry S C E)} {x : Exchange S} :
    x ∈ threadHistory i t ↔ ∃ e ∈ t, e.thread = i ∧ e.exchange = x := by
  simp only [threadHistory, List.mem_filterMap]
  constructor
  · rintro ⟨e, he, hx⟩
    split at hx
    · exact ⟨e, he, ‹_›, by simpa using hx⟩
    · cases hx
  · rintro ⟨e, he, hi, rfl⟩
    exact ⟨e, he, by simp [hi]⟩

/-- An exchange in the history of a thread stands in the trace. -/
theorem exists_read {i : ℕ} {older : List (Entry S C E)} {x : Exchange S}
    (h : x ∈ threadHistory i older) :
    ∃ mid r rest, older = mid ++ r :: rest ∧ r.thread = i ∧ r.exchange = x := by
  obtain ⟨r, hr, hi, hx⟩ := mem_threadHistory.mp h
  obtain ⟨mid, rest, rfl⟩ := List.append_of_mem hr
  exact ⟨mid, r, rest, rfl, hi, hx⟩

namespace System

variable (M : System S C E ε α σ)

def move : Move C E → Pool S C E ε α σ → Option (Pool S C E ε α σ)
  | .start cmd, p => some { p with threads := p.threads ++ [⟨cmd, M.program cmd⟩] }
  | .call i env, p =>
      match p.threads[i]? with
      | some ⟨cmd, .call c next⟩ =>
          (M.exec env c p.state).map fun r =>
            ⟨r.2, p.threads.set i ⟨cmd, next r.1⟩, ⟨i, cmd, env, ⟨c, r.1⟩⟩ :: p.trace⟩
      | _ => none

def runFrom : List (Move C E) → Pool S C E ε α σ → Option (Pool S C E ε α σ)
  | [], p => some p
  | m :: ms, p => (M.move m p).bind (runFrom ms)

def start : Pool S C E ε α σ := ⟨M.init, [], []⟩

/-- The pool after the given moves, if all of them are possible. -/
def run (ms : List (Move C E)) : Option (Pool S C E ε α σ) := M.runFrom ms M.start

variable {M}

theorem runFrom_append (ms ms' : List (Move C E)) (p : Pool S C E ε α σ) :
    M.runFrom (ms ++ ms') p = (M.runFrom ms p).bind (M.runFrom ms') := by
  induction ms generalizing p with
  | nil => rfl
  | cons m ms ih =>
    simp only [List.cons_append, runFrom, Option.bind_assoc]
    congr 1
    funext q
    exact ih q

/-- What one move can do. -/
theorem move_cases {m : Move C E} {p q : Pool S C E ε α σ} (h : M.move m p = some q) :
    (∃ cmd, m = .start cmd ∧ q = { p with threads := p.threads ++ [⟨cmd, M.program cmd⟩] }) ∨
    (∃ i env cmd c next a s, m = .call i env ∧ p.threads[i]? = some ⟨cmd, .call c next⟩ ∧
      M.exec env c p.state = some (a, s) ∧
      q = ⟨s, p.threads.set i ⟨cmd, next a⟩, ⟨i, cmd, env, ⟨c, a⟩⟩ :: p.trace⟩) := by
  cases m with
  | start cmd => exact .inl ⟨cmd, rfl, by simpa [move] using h.symm⟩
  | call i env =>
    simp only [move] at h
    split at h
    · rename_i cmd c next hi
      obtain ⟨⟨a, s⟩, he, rfl⟩ := Option.map_eq_some_iff.mp h
      exact .inr ⟨i, env, cmd, c, next, a, s, rfl, hi, he, rfl⟩
    · cases h

theorem runFrom_induction {I : Pool S C E ε α σ → Prop}
    (step : ∀ p m q, I p → M.move m p = some q → I q) {ms : List (Move C E)}
    {p q : Pool S C E ε α σ} (hp : I p) (h : M.runFrom ms p = some q) : I q := by
  induction ms generalizing p with
  | nil => cases h; exact hp
  | cons m ms ih =>
    obtain ⟨p', hm, hr⟩ := Option.bind_eq_some_iff.mp h
    exact ih (step p m p' hp hm) hr

/-- **Invariant rule for runs.** -/
theorem run_induction {I : Pool S C E ε α σ → Prop} (init : I M.start)
    (step : ∀ p m q, I p → M.move m p = some q → I q) {ms : List (Move C E)}
    {p : Pool S C E ε α σ} (h : M.run ms = some p) : I p :=
  runFrom_induction step init h

/-! ## The trace of a run -/

/-- The entries of one thread carry its command. -/
theorem run_threads {ms : List (Move C E)} {p : Pool S C E ε α σ} (h : M.run ms = some p) :
    ∀ e ∈ p.trace, ∃ rest, p.threads[e.thread]? = some ⟨e.cmd, rest⟩ := by
  refine run_induction (I := fun p => ∀ e ∈ p.trace, ∃ rest,
    p.threads[e.thread]? = some ⟨e.cmd, rest⟩) (by simp [start]) ?_ h
  intro p m q ih hm
  rcases move_cases hm with ⟨cmd, -, rfl⟩ | ⟨i, env, cmd, c, next, a, s, -, hi, -, rfl⟩
  · intro e he
    obtain ⟨rest, hr⟩ := ih e he
    have hlt := (List.getElem?_eq_some_iff.mp hr).1
    exact ⟨rest, by rw [List.getElem?_append_left hlt]; exact hr⟩
  · have hlt := (List.getElem?_eq_some_iff.mp hi).1
    intro e he
    rcases List.mem_cons.mp he with rfl | he
    · exact ⟨next a, by simp [hlt]⟩
    · obtain ⟨rest, hr⟩ := ih e he
      by_cases hie : i = e.thread
      · subst hie
        rw [hi] at hr
        cases hr
        exact ⟨next a, by simp [hlt]⟩
      · exact ⟨rest, by rw [List.getElem?_set_ne hie]; exact hr⟩

section Follows

variable {P : C → List (Exchange S) → S.Call → Prop}
  {Q : C → List (Exchange S) → Except ε α → Prop}

/-- Every thread goes on as its protocol allows, and has done so until now. -/
def Obeys (P : C → List (Exchange S) → S.Call → Prop)
    (Q : C → List (Exchange S) → Except ε α → Prop) (p : Pool S C E ε α σ) : Prop :=
  (∀ i cmd rest, p.threads[i]? = some ⟨cmd, rest⟩ →
    Program.Follows (P cmd) (Q cmd) (threadHistory i p.trace) rest) ∧
  Always (fun older e => P e.cmd (threadHistory e.thread older) e.exchange.call) p.trace

theorem move_obeys (hP : ∀ cmd, Program.Follows (P cmd) (Q cmd) [] (M.program cmd))
    {m : Move C E} {p q : Pool S C E ε α σ} (hm : M.move m p = some q)
    (hfresh : ∀ e ∈ p.trace, e.thread < p.threads.length) (hp : Obeys P Q p) : Obeys P Q q := by
  obtain ⟨hth, htr⟩ := hp
  rcases move_cases hm with ⟨cmd, -, rfl⟩ | ⟨i, env, cmd, c, next, a, s, -, hi, -, rfl⟩
  · refine ⟨?_, htr⟩
    intro i cmd' rest hi
    rcases Nat.lt_or_ge i p.threads.length with hlt | hge
    · rw [List.getElem?_append_left hlt] at hi
      exact hth i cmd' rest hi
    · -- a thread that has just started has made no call
      have hnil : threadHistory i p.trace = [] := by
        simp only [threadHistory, List.filterMap_eq_nil_iff, ite_eq_right_iff, reduceCtorEq,
          imp_false]
        intro e he heq
        exact absurd (hfresh e he) (by omega)
      rw [List.getElem?_append_right hge, List.getElem?_singleton] at hi
      split at hi
      · cases hi
        rw [hnil]
        exact hP cmd
      · cases hi
  · have hfol := hth i cmd _ hi
    have hlt := (List.getElem?_eq_some_iff.mp hi).1
    refine ⟨?_, hfol.1, htr⟩
    intro j cmd' rest hj
    rw [threadHistory_cons]
    by_cases hij : i = j
    · subst hij
      simp only [List.getElem?_set_self hlt, Option.some.injEq, Thread.mk.injEq] at hj
      obtain ⟨rfl, rfl⟩ := hj
      simpa using hfol.2 a
    · rw [List.getElem?_set_ne hij] at hj
      simpa [hij] using hth j cmd' rest hj

/-- **Protocols hold of every interleaving.** If each program follows its
protocol, then every call of every run does, given what the calling thread has
exchanged before. -/
theorem run_obeys (hP : ∀ cmd, Program.Follows (P cmd) (Q cmd) [] (M.program cmd))
    {ms : List (Move C E)} {p : Pool S C E ε α σ} (h : M.run ms = some p) : Obeys P Q p := by
  have hinv : (∀ e ∈ p.trace, e.thread < p.threads.length) ∧ Obeys P Q p := by
    refine run_induction (I := fun p => (∀ e ∈ p.trace, e.thread < p.threads.length) ∧ Obeys P Q p)
      ⟨by simp [start], by simp [Obeys, start]⟩ ?_ h
    intro p m q ⟨hlt, ho⟩ hm
    refine ⟨?_, move_obeys hP hm hlt ho⟩
    rcases move_cases hm with ⟨cmd, -, rfl⟩ | ⟨i, env, cmd, c, next, a, s, -, hi, -, rfl⟩
    · intro e he
      have := hlt e he
      simp only [List.length_append, List.length_singleton]
      omega
    · intro e he
      rcases List.mem_cons.mp he with rfl | he
      · simpa using (List.getElem?_eq_some_iff.mp hi).1
      · simpa using hlt e he
  exact hinv.2

theorem run_always (hP : ∀ cmd, Program.Follows (P cmd) (Q cmd) [] (M.program cmd))
    {ms : List (Move C E)} {p : Pool S C E ε α σ} (h : M.run ms = some p) :
    Always (fun older e => P e.cmd (threadHistory e.thread older) e.exchange.call) p.trace :=
  (run_obeys hP h).2

end Follows

/-! ## The state of a run -/

/-- Executing the calls of the trace in order leads from `s₀` to `s`. -/
def ReplaysFrom (M : System S C E ε α σ) (s₀ : σ) : List (Entry S C E) → σ → Prop
  | [], s => s = s₀
  | e :: older, s => ∃ s₁, ReplaysFrom M s₀ older s₁ ∧
      M.exec e.env e.exchange.call s₁ = some (e.exchange.answer, s)

/-- `s` is the state after executing the calls of the trace in order. -/
abbrev Replays (M : System S C E ε α σ) : List (Entry S C E) → σ → Prop := M.ReplaysFrom M.init

theorem run_replays {ms : List (Move C E)} {p : Pool S C E ε α σ} (h : M.run ms = some p) :
    M.Replays p.trace p.state := by
  refine run_induction (I := fun p => M.Replays p.trace p.state) rfl ?_ h
  intro p m q ih hm
  rcases move_cases hm with ⟨cmd, -, rfl⟩ | ⟨i, env, cmd, c, next, a, s, -, -, he, rfl⟩
  · exact ih
  · exact ⟨p.state, ih, he⟩

/-- **Invariant rule for traces.** A property of trace and state that every
executed call keeps holds at the end of every run. -/
theorem replays_induction {I : List (Entry S C E) → σ → Prop} (init : I [] M.init)
    (step : ∀ e older s₀ s, M.Replays older s₀ → I older s₀ →
      M.exec e.env e.exchange.call s₀ = some (e.exchange.answer, s) → I (e :: older) s)
    {t : List (Entry S C E)} {s : σ} (h : M.Replays t s) : I t s := by
  induction t generalizing s with
  | nil => cases h; exact init
  | cons e older ih =>
    obtain ⟨s₀, h₀, he⟩ := h
    exact step e older s₀ s h₀ (ih h₀) he

/-- A source that marks what it gives out as used never takes a mark back. -/
theorem used_of_drawn {K : Type} {draws : Entry S C E → Option K} {U : σ → K → Prop}
    (mono : ∀ env c a s s', M.exec env c s = some (a, s') → ∀ k, U s k → U s' k)
    (drawn : ∀ e s s', M.exec e.env e.exchange.call s = some (e.exchange.answer, s') →
      ∀ k, draws e = some k → U s' k)
    {t : List (Entry S C E)} {s : σ} (h : M.Replays t s) :
    ∀ e ∈ t, ∀ k, draws e = some k → U s k := by
  refine replays_induction (I := fun t s => ∀ e ∈ t, ∀ k, draws e = some k → U s k)
    (by simp) ?_ h
  rintro e older s₀ s - hused he e' he' k hk
  rcases List.mem_cons.mp he' with rfl | hold
  · exact drawn _ _ _ he k hk
  · exact mono _ _ _ _ _ he k (hused e' hold k hk)

/-- A source that gives out only what is not marked as used gives out nothing
twice. -/
theorem fresh_of_used {K : Type} {draws : Entry S C E → Option K} {U : σ → K → Prop}
    (mono : ∀ env c a s s', M.exec env c s = some (a, s') → ∀ k, U s k → U s' k)
    (drawn : ∀ e s s', M.exec e.env e.exchange.call s = some (e.exchange.answer, s') →
      ∀ k, draws e = some k → ¬ U s k ∧ U s' k)
    {t : List (Entry S C E)} {s : σ} (h : M.Replays t s) : FreshDraws draws t := by
  refine replays_induction (I := fun t _ => FreshDraws draws t) trivial ?_ h
  intro e older s₀ s h₀ hfresh he
  refine ⟨?_, hfresh⟩
  intro k hk e' he' hk'
  exact (drawn _ _ _ he k hk).1
    (used_of_drawn mono (fun e s s' he k hk => (drawn e s s' he k hk).2) h₀ e' he' k hk')

theorem ReplaysFrom.of_append {newer older : List (Entry S C E)} {s s₀ : σ}
    (h : M.ReplaysFrom s₀ (newer ++ older) s) : ∃ s₁, M.ReplaysFrom s₀ older s₁ := by
  induction newer generalizing s with
  | nil => exact ⟨s, h⟩
  | cons e newer ih =>
    obtain ⟨s₁, h₁, -⟩ := h
    exact ih h₁

theorem ReplaysFrom.append {newer older : List (Entry S C E)} {s s₁ s₀ : σ}
    (h : M.ReplaysFrom s₁ newer s) (h₁ : M.ReplaysFrom s₀ older s₁) :
    M.ReplaysFrom s₀ (newer ++ older) s := by
  induction newer generalizing s with
  | nil => cases h; exact h₁
  | cons e newer ih =>
    obtain ⟨s', h', he⟩ := h
    exact ⟨s', ih h', he⟩

theorem ReplaysFrom.unique {t : List (Entry S C E)} {s s' s₀ : σ} (h : M.ReplaysFrom s₀ t s)
    (h' : M.ReplaysFrom s₀ t s') : s = s' := by
  induction t generalizing s s' with
  | nil => exact h.trans h'.symm
  | cons e older ih =>
    obtain ⟨s₁, h₁, he⟩ := h
    obtain ⟨s₂, h₂, he'⟩ := h'
    obtain rfl := ih h₁ h₂
    rw [he] at he'
    exact congrArg Prod.snd (Option.some.inj he')

/-- Every call of a trace was executed. -/
theorem ReplaysFrom.executed {t : List (Entry S C E)} {s s₀ : σ} (h : M.ReplaysFrom s₀ t s)
    {e : Entry S C E} (he : e ∈ t) :
    ∃ s₁ s₂, M.exec e.env e.exchange.call s₁ = some (e.exchange.answer, s₂) := by
  obtain ⟨newer, older, rfl⟩ := List.append_of_mem he
  obtain ⟨s₂, s₁, -, hx⟩ := h.of_append
  exact ⟨s₁, s₂, hx⟩

/-- When a call of the trace was made: a run had led to the pool in which it was pending. -/
theorem run_made {ms : List (Move C E)} {p : Pool S C E ε α σ} (h : M.run ms = some p)
    {newer older : List (Entry S C E)} {e : Entry S C E} (ht : p.trace = newer ++ e :: older) :
    ∃ ms' q next s, M.run ms' = some q ∧ q.trace = older ∧
      q.threads[e.thread]? = some ⟨e.cmd, .call e.exchange.call next⟩ ∧
      M.exec e.env e.exchange.call q.state = some (e.exchange.answer, s) := by
  induction ms using List.reverseRecOn generalizing p newer with
  | nil =>
    cases h
    cases (List.append_eq_nil_iff.mp ht.symm).2
  | append_singleton ms m ih =>
    rw [run, runFrom_append] at h
    obtain ⟨p', hp', hm⟩ := Option.bind_eq_some_iff.mp h
    have hm' : M.move m p' = some p := by simpa [runFrom] using hm
    rcases move_cases hm' with ⟨cmd, -, rfl⟩ | ⟨i, env, cmd, c, next, a, s, -, hi, hx, rfl⟩
    · exact ih hp' ht
    · cases newer with
      | nil =>
        obtain ⟨rfl, rfl⟩ := List.cons.inj ht
        exact ⟨ms, p', next, s, hp', rfl, hi, hx⟩
      | cons e' newer => exact ih hp' (List.cons.inj ht).2

/-- Every part of a trace was once the whole trace: some beginning of the run
produced it. -/
theorem run_prefix {ms : List (Move C E)} {p : Pool S C E ε α σ} (h : M.run ms = some p)
    {newer older : List (Entry S C E)} (ht : p.trace = newer ++ older) :
    ∃ n q, M.run (ms.take n) = some q ∧ q.trace = older := by
  induction ms using List.reverseRecOn generalizing p newer with
  | nil =>
    cases h
    obtain ⟨rfl, rfl⟩ := List.append_eq_nil_iff.mp ht.symm
    exact ⟨0, M.start, rfl, rfl⟩
  | append_singleton ms m ih =>
    have hrun := h
    rw [run, runFrom_append] at h
    obtain ⟨p', hp', hm⟩ := Option.bind_eq_some_iff.mp h
    have hm' : M.move m p' = some p := by simpa [runFrom] using hm
    cases newer with
    | nil => exact ⟨(ms ++ [m]).length, p, by rw [List.take_length]; exact hrun, ht⟩
    | cons e newer =>
      have hpre : ∃ newer', p'.trace = newer' ++ older := by
        rcases move_cases hm' with ⟨cmd, -, rfl⟩ | ⟨i, env, cmd, c, next, a, s, -, -, -, rfl⟩
        · exact ⟨e :: newer, ht⟩
        · simp only [List.cons_append, List.cons.injEq] at ht
          exact ⟨newer, ht.2⟩
      obtain ⟨newer', hn⟩ := hpre
      obtain ⟨n, q, hq, hqt⟩ := ih hp' hn
      refine ⟨min n ms.length, q, ?_, hqt⟩
      rw [List.take_append_of_le_length (by omega)]
      rcases Nat.le_total n ms.length with hle | hle
      · rwa [Nat.min_eq_left hle]
      · rw [Nat.min_eq_right hle, List.take_length]
        rwa [List.take_of_length_le hle] at hq

/-- A run only adds to the trace. -/
theorem runFrom_trace {ms : List (Move C E)} {p q : Pool S C E ε α σ}
    (h : M.runFrom ms p = some q) : ∃ newer, q.trace = newer ++ p.trace := by
  refine runFrom_induction (I := fun q => ∃ newer, q.trace = newer ++ p.trace) ?_ ⟨[], rfl⟩ h
  rintro p₁ m p₂ ⟨newer, hn⟩ hm
  rcases move_cases hm with ⟨cmd, -, rfl⟩ | ⟨i, env, cmd, c, next, a, s, -, -, -, rfl⟩
  · exact ⟨newer, hn⟩
  · exact ⟨_ :: newer, congrArg (List.cons _) hn⟩

/-- The trace at some point of a run is the older part of the final trace. -/
theorem run_take {ms : List (Move C E)} {p : Pool S C E ε α σ} (h : M.run ms = some p) (n : ℕ) :
    ∃ q newer, M.run (ms.take n) = some q ∧ p.trace = newer ++ q.trace := by
  rw [← List.take_append_drop n ms, run, runFrom_append] at h
  obtain ⟨q, hq, hr⟩ := Option.bind_eq_some_iff.mp h
  obtain ⟨newer, hn⟩ := runFrom_trace hr
  exact ⟨q, newer, hq, hn⟩

/-- Only commands that were started make calls. -/
theorem run_started {ms : List (Move C E)} {p : Pool S C E ε α σ} (h : M.run ms = some p) :
    ∀ e ∈ p.trace, .start e.cmd ∈ ms := by
  have hstarted : (∀ th ∈ p.threads, .start th.cmd ∈ ms) ∧ ∀ e ∈ p.trace, .start e.cmd ∈ ms := by
    induction ms using List.reverseRecOn generalizing p with
    | nil =>
      cases h
      simp [start]
    | append_singleton ms m ih =>
      rw [run, runFrom_append] at h
      obtain ⟨p₀, hp₀, hm⟩ := Option.bind_eq_some_iff.mp h
      obtain ⟨hthreads, htrace⟩ := ih hp₀
      rcases move_cases (by simpa [runFrom] using hm) with
        ⟨cmd, rfl, rfl⟩ | ⟨i, env, cmd, c, next, a, s, rfl, hi, -, rfl⟩
      · refine ⟨fun th hth => ?_, fun e he => List.mem_append_left _ (htrace e he)⟩
        rcases List.mem_append.mp hth with hth | hth
        · exact List.mem_append_left _ (hthreads th hth)
        · rw [List.mem_singleton.mp hth]
          simp
      · have hcmd := hthreads _ (List.mem_of_getElem? hi)
        refine ⟨fun th hth => List.mem_append_left _ ?_, fun e he => List.mem_append_left _ ?_⟩
        · rcases List.mem_or_eq_of_mem_set hth with hth | rfl
          · exact hthreads th hth
          · exact hcmd
        · rcases List.mem_cons.mp he with rfl | he
          · exact hcmd
          · exact htrace e he
  exact hstarted.2

section Reaches

variable {P Q : Pool S C E ε α σ → Prop} {p : Pool S C E ε α σ}

/-- The run can go on to a pool that satisfies `P`. -/
def Reaches (M : System S C E ε α σ) (P : Pool S C E ε α σ → Prop) (p : Pool S C E ε α σ) : Prop :=
  ∃ ms q, M.runFrom ms p = some q ∧ P q

theorem Reaches.of_holds (h : P p) : M.Reaches P p := ⟨[], p, rfl, h⟩

theorem Reaches.trans (h : M.Reaches P p) (hP : ∀ q, P q → M.Reaches Q q) : M.Reaches Q p := by
  obtain ⟨ms, q, hq, hp⟩ := h
  obtain ⟨ms', q', hq', hp'⟩ := hP q hp
  exact ⟨ms ++ ms', q', by rw [runFrom_append, hq]; exact hq', hp'⟩

/-- One more command is started. -/
theorem reaches_start (cmd : C)
    (h : M.Reaches P { p with threads := p.threads ++ [⟨cmd, M.program cmd⟩] }) :
    M.Reaches P p := by
  obtain ⟨ms, q, hq, hp⟩ := h
  exact ⟨.start cmd :: ms, q, hq, hp⟩

/-- The newest command makes its next call. -/
theorem reaches_call {threads : List (Thread S C ε α)} {t : List (Entry S C E)} {cmd : C}
    {c : S.Call} {next : S.Answer c → Program S ε α} {a : S.Answer c} {s s' : σ} (env : E)
    (hx : M.exec env c s = some (a, s'))
    (h : M.Reaches P ⟨s', threads ++ [⟨cmd, next a⟩], ⟨threads.length, cmd, env, ⟨c, a⟩⟩ :: t⟩) :
    M.Reaches P ⟨s, threads ++ [⟨cmd, .call c next⟩], t⟩ := by
  obtain ⟨ms, q, hq, hp⟩ := h
  refine ⟨.call threads.length env :: ms, q, ?_, hp⟩
  rw [← hq]
  simp [runFrom, move, hx]

end Reaches

/-- Reads of a state that is the register of the writes in the trace are coherent. -/
theorem coherent_of_view {K V : Type} [DecidableEq K]
    {writes reads : Entry S C E → Option (K × V)} {view : σ → K → Option V}
    (hview : ∀ t s, M.Replays t s → ∀ k, view s k = lastWrite writes k t)
    (hread : ∀ e s s', M.exec e.env e.exchange.call s = some (e.exchange.answer, s') →
      ∀ k v, reads e = some (k, v) → view s k = some v)
    {t : List (Entry S C E)} {s : σ} (h : M.Replays t s) : Coherent writes reads t := by
  rw [Coherent, always_iff]
  rintro newer e older rfl k v hr
  obtain ⟨s₁, s₀, h₀, he⟩ := h.of_append
  rw [← hview _ _ h₀]
  exact hread e s₀ s₁ he k v hr

/-- **Terminal values in the states of a run.** If the state is the register of
the writes in the trace, then no state of the run loses a terminal value iff
the writes of the trace keep the terminal values. -/
theorem terminal_states_iff {K V : Type} [DecidableEq K] {writes : Entry S C E → Option (K × V)}
    {T : V → Prop} {view : σ → K → Option V}
    (hview : ∀ t s, M.Replays t s → ∀ k, view s k = lastWrite writes k t)
    {ms : List (Move C E)} {p : Pool S C E ε α σ} (h : M.run ms = some p) :
    (∀ n m q q' k v, n ≤ m → M.run (ms.take n) = some q → M.run (ms.take m) = some q' →
      view q.state k = some v → T v → ∃ v', view q'.state k = some v' ∧ T v') ↔
    TerminalStable writes T p.trace := by
  constructor
  · intro hall
    rw [TerminalStable, always_iff]
    intro newer e older ht k v v' hw hlast hv'
    obtain ⟨m, q', hq', hqt'⟩ := run_prefix h ht
    obtain ⟨n, q, hq, hqt⟩ := run_prefix hq' (show q'.trace = [e] ++ older from hqt')
    rw [List.take_take] at hq
    obtain ⟨v₁, hv₁, ht₁⟩ := hall (min n m) m q q' k v' (Nat.min_le_right n m) hq hq'
      (by rw [hview _ _ (run_replays hq), hqt, hlast]) hv'
    rw [hview _ _ (run_replays hq'), hqt', lastWrite_cons_self hw] at hv₁
    cases hv₁
    exact ht₁
  · intro hs n m q q' k v hnm hq hq' hk hv
    obtain ⟨q₁, newer, hq₁, hn⟩ := run_take h m
    rw [hq'] at hq₁
    cases hq₁
    obtain ⟨q₂, newer', hq₂, hn'⟩ := run_take hq' n
    rw [List.take_take, Nat.min_eq_left hnm, hq] at hq₂
    cases hq₂
    rw [hview _ _ (run_replays hq)] at hk
    rw [hview _ _ (run_replays hq'), hn']
    rw [hn, hn'] at hs
    exact TerminalStable.lastWrite (Always.of_append hs) hk hv

/-! ## Sequential runs -/

/-- One command from start to end, with nothing else in between. -/
def perform (M : System S C E ε α σ) (job : C × List E) (p : Pool S C E ε α σ) :
    Option (Pool S C E ε α σ) :=
  (M.runFrom (.start job.1 :: job.2.map (.call p.threads.length)) p).filter fun q =>
    match q.threads[p.threads.length]? with
    | some ⟨_, .call _ _⟩ => false
    | _ => true

def performAll (M : System S C E ε α σ) :
    List (C × List E) → Pool S C E ε α σ → Option (Pool S C E ε α σ)
  | [], p => some p
  | job :: jobs, p => (M.perform job p).bind (performAll M jobs)

/-- The pool after the given commands, each ending before the next starts. -/
def serial (M : System S C E ε α σ) (jobs : List (C × List E)) : Option (Pool S C E ε α σ) :=
  M.performAll jobs M.start

theorem performAll_isRun {jobs : List (C × List E)} {p q : Pool S C E ε α σ}
    (h : M.performAll jobs p = some q) : ∃ ms, M.runFrom ms p = some q := by
  induction jobs generalizing p with
  | nil => exact ⟨[], h⟩
  | cons job jobs ih =>
    obtain ⟨p', hp, hr⟩ := Option.bind_eq_some_iff.mp h
    obtain ⟨ms, hms⟩ := ih hr
    have hp' := (Option.filter_eq_some_iff.mp hp).1
    exact ⟨_, by rw [runFrom_append, hp']; exact hms⟩

/-- A command that runs alone after a run goes on with that run. -/
theorem perform_isRun {ms : List (Move C E)} {job : C × List E} {p q : Pool S C E ε α σ}
    (hp : M.run ms = some p) (h : M.perform job p = some q) : ∃ ms', M.run ms' = some q := by
  obtain ⟨hrun, -⟩ := Option.filter_eq_some_iff.mp h
  refine ⟨ms ++ .start job.1 :: job.2.map (.call p.threads.length), ?_⟩
  rw [run, runFrom_append, show M.runFrom ms M.start = some p from hp]
  exact hrun

/-- Sequential runs are runs. -/
theorem serial_isRun {jobs : List (C × List E)} {p : Pool S C E ε α σ}
    (h : M.serial jobs = some p) : ∃ ms, M.run ms = some p := performAll_isRun h

theorem performAll_append (jobs jobs' : List (C × List E)) (p : Pool S C E ε α σ) :
    M.performAll (jobs ++ jobs') p = (M.performAll jobs p).bind (M.performAll jobs') := by
  induction jobs generalizing p with
  | nil => rfl
  | cons job jobs ih =>
    simp only [List.cons_append, performAll, Option.bind_assoc]
    congr 1
    funext q
    exact ih q

/-- The pool before the rest of a sequential run was reached by a part of the run. -/
theorem performAll_take {pre jobs : List (C × List E)} {p q : Pool S C E ε α σ}
    (hp : M.serial pre = some p) (hq : M.performAll jobs p = some q) :
    ∃ ms n, M.run ms = some q ∧ M.run (ms.take n) = some p := by
  obtain ⟨ms, hms⟩ := serial_isRun hp
  obtain ⟨ms', hms'⟩ := performAll_isRun hq
  refine ⟨ms ++ ms', ms.length, ?_, by rw [List.take_left]; exact hms⟩
  rw [run, runFrom_append, show M.runFrom ms M.start = some p from hms]
  exact hms'

theorem performAll_concat {jobs : List (C × List E)} {job : C × List E} {p q : Pool S C E ε α σ} :
    M.performAll (jobs ++ [job]) p = some q ↔
      ∃ p', M.performAll jobs p = some p' ∧ M.perform job p' = some q := by
  simp only [performAll_append, Option.bind_eq_some_iff, performAll, Option.some.injEq,
    exists_eq_right]

/-- The trace of the first commands of a sequential run is the older part of
the final trace. -/
theorem serial_prefix {pre post : List (C × List E)} {p q : Pool S C E ε α σ}
    (h : M.serial (pre ++ post) = some q) (hp : M.serial pre = some p) :
    ∃ newer, q.trace = newer ++ p.trace := by
  rw [serial, performAll_append] at h
  obtain ⟨p', hp', hq⟩ := Option.bind_eq_some_iff.mp h
  obtain rfl := Option.some.inj (hp.symm.trans hp')
  obtain ⟨ms, hms⟩ := performAll_isRun hq
  exact runFrom_trace hms

/-- A sequential run takes its last command from the pool before it. -/
theorem serial_concat {jobs : List (C × List E)} {job : C × List E} {q : Pool S C E ε α σ} :
    M.serial (jobs ++ [job]) = some q ↔ ∃ p, M.serial jobs = some p ∧ M.perform job p = some q :=
  performAll_concat

theorem serial_append {pre post : List (C × List E)} {p q : Pool S C E ε α σ}
    (hpre : M.serial pre = some p) (hpost : M.performAll post p = some q) :
    M.serial (pre ++ post) = some q := by
  rw [serial, performAll_append, show M.performAll pre M.start = some p from hpre]
  exact hpost

/-- **Invariant rule for the rest of a sequential run.** -/
theorem performAll_induction {I : Pool S C E ε α σ → Prop}
    (step : ∀ pre p job q, M.serial pre = some p → I p → M.perform job p = some q → I q)
    {pre post : List (C × List E)} {p q : Pool S C E ε α σ} (hpre : M.serial pre = some p)
    (hp : I p) (hpost : M.performAll post p = some q) : I q := by
  induction post generalizing pre p with
  | nil => cases hpost; exact hp
  | cons job post ih =>
    obtain ⟨p', hp', hq⟩ := Option.bind_eq_some_iff.mp hpost
    exact ih (serial_concat.mpr ⟨p, hpre, hp'⟩) (step pre p job p' hpre hp hp') hq

/-- `ok` holds of every command of a sequential run and the pool it starts in. -/
def SerialOk (M : System S C E ε α σ) (ok : Pool S C E ε α σ → C × List E → Prop)
    (jobs : List (C × List E)) : Prop :=
  ∀ pre job post p, jobs = pre ++ job :: post → M.serial pre = some p → ok p job

/-- **Invariant rule for sequential runs.** -/
theorem serial_induction {I : Pool S C E ε α σ → Prop}
    {ok : Pool S C E ε α σ → C × List E → Prop} (init : I M.start)
    (step : ∀ pre p job q, M.serial pre = some p → I p → ok p job → M.perform job p = some q → I q)
    {jobs : List (C × List E)} (hok : M.SerialOk ok jobs) {p : Pool S C E ε α σ}
    (h : M.serial jobs = some p) : I p := by
  induction jobs using List.reverseRecOn generalizing p with
  | nil => cases h; exact init
  | append_singleton jobs job ih =>
    obtain ⟨p₀, hp₀, hq⟩ := serial_concat.mp h
    refine step jobs p₀ job p hp₀ (ih ?_ hp₀) (hok jobs job [] p₀ rfl hp₀) hq
    rintro pre job' post p' rfl hp'
    exact hok pre job' (post ++ [job]) p' (by simp) hp'

/-- The outcome of one command run alone: its result, its trace entries and
the pool it leaves. -/
structure Outcome (M : System S C E ε α σ) (p : Pool S C E ε α σ) (job : C × List E)
    (q : Pool S C E ε α σ) where
  result : Except ε α
  entries : List (Entry S C E)
  threads_eq : q.threads = p.threads ++ [⟨job.1, Program.ofExcept result⟩]
  trace_eq : q.trace = entries ++ p.trace
  own : ∀ e ∈ entries, e.thread = p.threads.length ∧ e.cmd = job.1 ∧ e.env ∈ job.2
  replays : M.ReplaysFrom p.state entries q.state

/-- The exchanges of the command, newest first. -/
def Outcome.history {p q : Pool S C E ε α σ} {job : C × List E} (o : Outcome M p job q) :
    List (Exchange S) := o.entries.map (·.exchange)

theorem calls_envs {i : ℕ} {envs : List E} {p q : Pool S C E ε α σ}
    (h : M.runFrom (envs.map (.call i)) p = some q) :
    ∃ new, q.trace = new ++ p.trace ∧ new.map (·.env) = envs.reverse := by
  induction envs generalizing p with
  | nil =>
    cases h
    exact ⟨[], rfl, rfl⟩
  | cons env envs ih =>
    obtain ⟨p', hm, hr⟩ := Option.bind_eq_some_iff.mp h
    rcases move_cases hm with ⟨cmd, hcall, -⟩ | ⟨j, env', cmd, c, next, a, s, hcall, -, -, rfl⟩
    · cases hcall
    · cases hcall
      obtain ⟨new, ht, henvs⟩ := ih hr
      refine ⟨new ++ [⟨i, cmd, env, ⟨c, a⟩⟩], by rw [ht, List.append_assoc]; rfl, ?_⟩
      rw [List.map_append, henvs, List.reverse_cons]
      rfl

/-- The choices of the surroundings are used up, one for each call. -/
theorem Outcome.envs_eq {p q : Pool S C E ε α σ} {job : C × List E} (o : Outcome M p job q)
    (h : M.perform job p = some q) : o.entries.map (·.env) = job.2.reverse := by
  obtain ⟨hrun, -⟩ := Option.filter_eq_some_iff.mp h
  obtain ⟨p', hm, hr⟩ := Option.bind_eq_some_iff.mp hrun
  cases hm
  obtain ⟨new, ht, henvs⟩ := calls_envs hr
  have hnew : o.entries = new := List.append_cancel_right (o.trace_eq.symm.trans ht)
  rw [hnew, henvs]

/-- The exchanges of the command are those of its thread. -/
theorem Outcome.history_eq {ms : List (Move C E)} {p q : Pool S C E ε α σ} {job : C × List E}
    (hp : M.run ms = some p) (o : Outcome M p job q) :
    threadHistory p.threads.length q.trace = o.history := by
  have hown : threadHistory p.threads.length o.entries = o.history := by
    rw [threadHistory, Outcome.history, ← List.filterMap_eq_map]
    refine List.filterMap_congr fun e he => ?_
    simp [(o.own e he).1]
  have hold : threadHistory p.threads.length p.trace = [] := by
    rw [threadHistory, List.filterMap_eq_nil_iff]
    intro e he
    obtain ⟨rest, hrest⟩ := run_threads hp e he
    exact if_neg (Nat.ne_of_lt (List.getElem?_eq_some_iff.mp hrest).1)
  rw [o.trace_eq, threadHistory, List.filterMap_append, ← threadHistory, ← threadHistory, hown,
    hold, List.append_nil]

section Follows

variable {P : List (Exchange S) → S.Call → Prop} {Q : List (Exchange S) → Except ε α → Prop}

private theorem calls_outcome (p : Pool S C E ε α σ) (job : C × List E) (envs : List E) :
    ∀ (rest : Program S ε α) (s : σ) (es : List (Entry S C E)) (q : Pool S C E ε α σ),
      envs ⊆ job.2 →
      M.runFrom (envs.map (.call p.threads.length))
        ⟨s, p.threads ++ [⟨job.1, rest⟩], es ++ p.trace⟩ = some q →
      (∀ cmd' c next, q.threads[p.threads.length]? ≠ some ⟨cmd', .call c next⟩) →
      (∀ e ∈ es, e.thread = p.threads.length ∧ e.cmd = job.1 ∧ e.env ∈ job.2) →
      M.ReplaysFrom p.state es s →
      Program.Follows P Q (es.map (·.exchange)) rest →
      Always (fun h x => P h x.call) (es.map (·.exchange)) →
      ∃ o : Outcome M p job q, Q o.history o.result ∧ Always (fun h x => P h x.call) o.history := by
  induction envs with
  | nil =>
    intro rest s es q hsub hq hfin hes hrep hfol hall
    cases hq
    cases rest with
    | ret a => exact ⟨⟨.ok a, es, rfl, rfl, hes, hrep⟩, hfol, hall⟩
    | fail e => exact ⟨⟨.error e, es, rfl, rfl, hes, hrep⟩, hfol, hall⟩
    | call c next => exact absurd (by simp) (hfin job.1 c next)
  | cons env envs ih =>
    intro rest s es q hsub hq hfin hes hrep hfol hall
    obtain ⟨henv, hsub⟩ := List.cons_subset.mp hsub
    obtain ⟨p', hm, hr⟩ := Option.bind_eq_some_iff.mp hq
    rcases move_cases hm with ⟨_, h, -⟩ | ⟨i, env', cmd', c, next, a, s', h, hi, he, rfl⟩
    · cases h
    · cases h
      simp only [List.getElem?_concat_length, Option.some.injEq, Thread.mk.injEq] at hi
      obtain ⟨rfl, rfl⟩ := hi
      refine ih (next a) s' (⟨p.threads.length, job.1, env, ⟨c, a⟩⟩ :: es) q hsub ?_ hfin ?_
        ⟨s, hrep, he⟩ (hfol.2 a) ⟨hfol.1, hall⟩
      · simpa using hr
      · intro e he
        rcases List.mem_cons.mp he with rfl | he
        · exact ⟨rfl, rfl, henv⟩
        · exact hes e he

/-- **One command of a sequential run** follows its protocol to its result. -/
theorem perform_outcome {job : C × List E} {p q : Pool S C E ε α σ} (h : M.perform job p = some q)
    (hP : Program.Follows P Q [] (M.program job.1)) :
    ∃ o : Outcome M p job q, Q o.history o.result ∧
      Always (fun h x => P h x.call) o.history := by
  obtain ⟨hrun, hfin⟩ := Option.filter_eq_some_iff.mp h
  refine calls_outcome p job job.2 (M.program job.1) p.state [] q (List.Subset.refl _) hrun ?_
    (by simp) rfl hP trivial
  intro cmd' c next hc
  simp [hc] at hfin

/-- What a command has exchanged follows every protocol that the command follows. -/
theorem Outcome.follows {job : C × List E} {p q : Pool S C E ε α σ} (o : Outcome M p job q)
    (h : M.perform job p = some q) (hP : Program.Follows P Q [] (M.program job.1)) :
    Always (fun h x => P h x.call) o.history := by
  obtain ⟨o', -, hall⟩ := perform_outcome h hP
  have hsame : o'.entries = o.entries :=
    List.append_cancel_right (o'.trace_eq.symm.trans o.trace_eq)
  rwa [Outcome.history, hsame] at hall

end Follows

/-- **Sequential traces are in order**: the calls of one command come after
those of all the earlier ones. -/
theorem serial_in_order {jobs : List (C × List E)} {p : Pool S C E ε α σ}
    (h : M.serial jobs = some p) :
    Always (fun older e => ∀ f ∈ older, f.thread ≤ e.thread) p.trace := by
  have hok : M.SerialOk (fun _ _ => True) jobs := fun _ _ _ _ _ _ => trivial
  refine serial_induction (I := fun p => Always (fun older e => ∀ f ∈ older, f.thread ≤ e.thread)
    p.trace) trivial ?_ hok h
  intro pre p job q hpre ih _ hq
  obtain ⟨ms, hms⟩ := serial_isRun hpre
  obtain ⟨o, -⟩ := perform_outcome (P := fun _ _ => True) (Q := fun _ _ => True) hq
    (Program.follows_of_forall (fun _ _ => trivial) (fun _ _ => trivial) _ _)
  rw [o.trace_eq, always_append]
  refine ⟨?_, ih⟩
  intro newer e mid hentries f hf
  rw [(o.own e (by simp [hentries])).1]
  rcases List.mem_append.mp hf with hmid | hold
  · exact Nat.le_of_eq (o.own f (by simp [hentries, hmid])).1
  · obtain ⟨rest, hrest⟩ := run_threads hms f hold
    exact Nat.le_of_lt (List.getElem?_eq_some_iff.mp hrest).1

/-- Between two calls of a command of a sequential run there are only its own. -/
theorem serial_between {jobs : List (C × List E)} {p : Pool S C E ε α σ}
    (h : M.serial jobs = some p) {newer mid rest : List (Entry S C E)} {e r : Entry S C E}
    (ht : p.trace = newer ++ e :: (mid ++ r :: rest)) (hr : r.thread = e.thread) :
    ∀ f ∈ mid, f.thread = e.thread := by
  have horder := serial_in_order h
  intro f hf
  obtain ⟨m₁, m₂, rfl⟩ := List.append_of_mem hf
  rw [ht] at horder
  refine Nat.le_antisymm (horder.at f (by simp)) ?_
  have hmid : newer ++ e :: (m₁ ++ f :: m₂ ++ r :: rest) =
      (newer ++ e :: m₁) ++ f :: (m₂ ++ r :: rest) := by simp
  rw [hmid] at horder
  exact hr ▸ horder.at r (by simp)

section Registers

variable {K V : Type} [DecidableEq K] {writes reads : Entry S C E → Option (K × V)}
  {view : σ → K → Option V} {p q : Pool S C E ε α σ} {job : C × List E}

/-- A register is as it was while nothing is written to it. -/
theorem view_until (hview : ∀ t s, M.Replays t s → ∀ k, view s k = lastWrite writes k t)
    {newer t : List (Entry S C E)} {s s₀ : σ} (h₀ : M.Replays t s₀) (h : M.Replays (newer ++ t) s)
    (hno : ∀ e ∈ newer, writes e = none) (k : K) : view s k = view s₀ k := by
  rw [hview _ _ h, hview _ _ h₀, lastWrite_append_quiet hno]

/-- A register after a command: what the command wrote last, or what it held before. -/
theorem Outcome.view_eq (hview : ∀ t s, M.Replays t s → ∀ k, view s k = lastWrite writes k t)
    (hp : M.Replays p.trace p.state) (hq : M.Replays q.trace q.state) (o : Outcome M p job q)
    (k : K) : view q.state k = (lastWrite writes k o.entries).or (view p.state k) := by
  rw [hview _ _ hq, hview _ _ hp, o.trace_eq, lastWrite_append]

/-- A value that is there after a command was written by it or was there before. -/
theorem Outcome.written_or_kept
    (hview : ∀ t s, M.Replays t s → ∀ k, view s k = lastWrite writes k t)
    (hp : M.Replays p.trace p.state) (hq : M.Replays q.trace q.state) (o : Outcome M p job q)
    {k : K} {v : V} (h : view q.state k = some v) :
    (∃ newer e older, o.entries = newer ++ e :: older ∧ writes e = some (k, v)) ∨
      view p.state k = some v := by
  rw [o.view_eq hview hp hq] at h
  cases hw : lastWrite writes k o.entries with
  | none => rw [hw] at h; exact .inr h
  | some v' =>
    rw [hw] at h
    cases h
    obtain ⟨e, he, hv⟩ := exists_write_of_lastWrite hw
    obtain ⟨newer, older, ht⟩ := List.append_of_mem he
    exact .inl ⟨newer, e, older, ht, hv⟩

/-- A command that has not written yet reads what was there before it. -/
theorem Outcome.read_before_writes
    (hview : ∀ t s, M.Replays t s → ∀ k, view s k = lastWrite writes k t)
    (hp : M.Replays p.trace p.state) (hc : Coherent writes reads q.trace) (o : Outcome M p job q)
    {newer older : List (Entry S C E)} (ht : o.entries = newer ++ older) {r : Entry S C E}
    (hr : r ∈ older) {k : K} {v : V} (hread : reads r = some (k, v))
    (hno : ∀ e ∈ older, writes e = none) : view p.state k = some v := by
  obtain ⟨mid, rest, rfl⟩ := List.append_of_mem hr
  have hq : q.trace = (newer ++ mid) ++ r :: (rest ++ p.trace) := by rw [o.trace_eq, ht]; simp
  rw [hq] at hc
  have hlast := hc.at k v hread
  rw [lastWrite_append_quiet fun e he => hno e (by simp [he])] at hlast
  rw [hview _ _ hp]
  exact hlast

end Registers

end System

end Interaction
