import Mathlib.Data.List.Forall2
import WaveCast.Interaction.Pool

/-!
# A gateway in front of a system

A gateway makes a command of each request, or answers it at once, and makes a
response of the outcome of the command (`Gateway`, `System.behind`). Every run
of the system behind a gateway is a run of the system itself (`behind_run`): a
request is answered at once, or with the response to the outcome of its command
(`Fronts.answered`).
-/

namespace Interaction

variable {S : Signature} {C D E ε ε' α β σ : Type}

/-- Run to the end and make a response of the outcome. -/
def Program.attempt (respond : Except ε α → β) : Program S ε α → Program S ε' β
  | .ret a => .ret (respond (.ok a))
  | .fail e => .ret (respond (.error e))
  | .call c next => .call c fun a => (next a).attempt respond

theorem Program.attempt_eq_ret {respond : Except ε α → β} {p : Program S ε α} {b : β}
    (h : (p.attempt respond : Program S ε' β) = .ret b) :
    ∃ r, p = ofExcept r ∧ b = respond r := by
  cases p with
  | ret a => exact ⟨.ok a, rfl, (Program.ret.inj h).symm⟩
  | fail e => exact ⟨.error e, rfl, (Program.ret.inj h).symm⟩
  | call c next => cases h

theorem Program.attempt_eq_call {respond : Except ε α → β} {p : Program S ε α} {c : S.Call}
    {next : S.Answer c → Program S ε' β} (h : p.attempt respond = .call c next) :
    ∃ next', p = .call c next' ∧ ∀ a, next a = (next' a).attempt respond := by
  cases p with
  | ret a => cases h
  | fail e => cases h
  | call c' next' =>
    cases h
    exact ⟨next', rfl, fun _ => rfl⟩

structure Gateway (C D ε α β : Type) where
  /-- The command of a request, or the response to it. -/
  command : D → Except β C
  respond : D → Except ε α → β

/-- The system as its requests see it. -/
def System.behind (M : System S C E ε α σ) (G : Gateway C D ε α β) : System S D E ε' β σ where
  program d :=
    match G.command d with
    | .error b => .ret b
    | .ok c => (M.program c).attempt (G.respond d)
  exec := M.exec
  init := M.init

namespace Gateway

variable {M : System S C E ε α σ} (G : Gateway C D ε α β) (idle : C)

/-- A request without a command stands for one that never makes its first call. -/
def commandOr (d : D) : C :=
  match G.command d with
  | .error _ => idle
  | .ok c => c

theorem commandOr_eq {d : D} {c : C} (h : G.command d = .ok c) : G.commandOr idle d = c := by
  rw [commandOr, h]

def move : Move D E → Move C E
  | .start d => .start (G.commandOr idle d)
  | .call i env => .call i env

/-- A call of a request is a call of its command. -/
inductive Passes : Entry S D E → Entry S C E → Prop
  | mk (i : ℕ) {d : D} {c : C} (h : G.command d = .ok c) (env : E) (x : Exchange S) :
      Passes ⟨i, d, env, x⟩ ⟨i, c, env, x⟩

/-- A request is as far as its command. -/
structure Serves (t : Thread S D ε' β) (t' : Thread S C ε α) : Prop where
  cmd : t'.cmd = G.commandOr idle t.cmd
  atOnce : ∀ b, G.command t.cmd = .error b → t.rest = .ret b
  passedOn : ∀ c, G.command t.cmd = .ok c → t.rest = t'.rest.attempt (G.respond t.cmd)

/-- A pool of requests and one of their commands. -/
structure Fronts (q : Pool S D E ε' β σ) (p : Pool S C E ε α σ) : Prop where
  state : p.state = q.state
  trace : List.Forall₂ G.Passes q.trace p.trace
  threads : List.Forall₂ (G.Serves idle) q.threads p.threads

variable {G idle} {q q' : Pool S D E ε' β σ} {p : Pool S C E ε α σ}

/-- A part of the trace of the commands is a part of that of the requests. -/
theorem passes_split {t : List (Entry S D E)} {a b : List (Entry S C E)} {e : Entry S C E}
    (h : List.Forall₂ G.Passes t (a ++ e :: b)) : ∃ a' e' b', t = a' ++ e' :: b' ∧
      List.Forall₂ G.Passes a' a ∧ G.Passes e' e ∧ List.Forall₂ G.Passes b' b := by
  induction a generalizing t with
  | nil =>
    obtain ⟨e', b', he, hb, rfl⟩ := List.forall₂_cons_right_iff.mp h
    exact ⟨[], e', b', rfl, .nil, he, hb⟩
  | cons x a ih =>
    obtain ⟨x', t, hx, ht, rfl⟩ := List.forall₂_cons_right_iff.mp h
    obtain ⟨a', e', b', rfl, ha, he, hb⟩ := ih ht
    exact ⟨x' :: a', e', b', rfl, .cons hx ha, he, hb⟩

theorem passes_mem {t : List (Entry S D E)} {t' : List (Entry S C E)}
    (h : List.Forall₂ G.Passes t t') {e : Entry S C E} (he : e ∈ t') :
    ∃ e' ∈ t, G.Passes e' e := by
  obtain ⟨a, b, rfl⟩ := List.append_of_mem he
  obtain ⟨a', e', b', rfl, -, hpass, -⟩ := passes_split h
  exact ⟨e', by simp, hpass⟩

theorem passes_of_mem {t : List (Entry S D E)} {t' : List (Entry S C E)}
    (h : List.Forall₂ G.Passes t t') {e : Entry S D E} (he : e ∈ t) :
    ∃ e' ∈ t', G.Passes e e' := by
  induction h with
  | nil => cases he
  | cons hpass _ ih =>
    rcases List.mem_cons.mp he with rfl | he
    · exact ⟨_, List.mem_cons_self, hpass⟩
    · obtain ⟨e', he', hpass'⟩ := ih he
      exact ⟨e', List.mem_cons_of_mem _ he', hpass'⟩

/-- A thread has made the same calls on both sides. -/
theorem passes_history {t : List (Entry S D E)} {t' : List (Entry S C E)}
    (h : List.Forall₂ G.Passes t t') (i : ℕ) : threadHistory i t = threadHistory i t' := by
  induction h with
  | nil => rfl
  | cons hpass _ ih =>
    cases hpass with
    | mk j hcmd env x => rw [threadHistory_cons, threadHistory_cons, ih]

theorem passes_exists {t : List (Entry S D E)} {t' : List (Entry S C E)}
    (h : List.Forall₂ G.Passes t t') (P : Exchange S → Prop) :
    (∃ e ∈ t, P e.exchange) ↔ ∃ e ∈ t', P e.exchange := by
  induction h with
  | nil => simp
  | cons hpass _ ih =>
    cases hpass with
    | mk i hcmd env x => simp only [List.mem_cons, exists_eq_or_imp, ih]

theorem serves_started (d : D) :
    G.Serves idle (⟨d, (M.behind G).program d⟩ : Thread S D ε' β)
      ⟨G.commandOr idle d, M.program (G.commandOr idle d)⟩ where
  cmd := rfl
  atOnce b h := by simp only [System.behind, h]
  passedOn c h := by simp only [System.behind, h, G.commandOr_eq idle h]

/-- Only a request that was passed on makes calls. -/
theorem Serves.calls {d : D} {c : S.Call} {next : S.Answer c → Program S ε' β}
    {t' : Thread S C ε α} (h : G.Serves idle ⟨d, .call c next⟩ t') :
    ∃ cmd next', G.command d = .ok cmd ∧ t' = ⟨cmd, .call c next'⟩ ∧
      ∀ a, next a = (next' a).attempt (G.respond d) := by
  cases hcmd : G.command d with
  | error b => cases h.atOnce b hcmd
  | ok cmd =>
    obtain ⟨next', hrest, hnext⟩ := Program.attempt_eq_call (h.passedOn cmd hcmd).symm
    refine ⟨cmd, next', rfl, ?_, hnext⟩
    rw [← hrest, ← G.commandOr_eq idle hcmd, ← h.cmd]

theorem Fronts.thread (h : G.Fronts idle q p) {i : ℕ} {t : Thread S D ε' β}
    (hi : q.threads[i]? = some t) : ∃ t', p.threads[i]? = some t' ∧ G.Serves idle t t' := by
  obtain ⟨hlt, rfl⟩ := List.getElem?_eq_some_iff.mp hi
  have hlt' : i < p.threads.length := h.threads.length_eq ▸ hlt
  exact ⟨p.threads[i], List.getElem?_eq_getElem hlt', h.threads.get hlt hlt'⟩

theorem Fronts.set {ts : List (Thread S D ε' β)} {ts' : List (Thread S C ε α)}
    (h : List.Forall₂ (G.Serves idle) ts ts') (i : ℕ) {t : Thread S D ε' β} {t' : Thread S C ε α}
    (ht : G.Serves idle t t') : List.Forall₂ (G.Serves idle) (ts.set i t) (ts'.set i t') := by
  induction h generalizing i with
  | nil => exact .nil
  | cons hhead htail ih =>
    cases i with
    | zero => exact .cons ht htail
    | succ i => exact .cons hhead (ih i)

theorem fronts_start :
    G.Fronts idle (M.behind G : System S D E ε' β σ).start M.start := ⟨rfl, .nil, .nil⟩

/-- **One move** of the requests is one of their commands. -/
theorem Fronts.move (h : G.Fronts idle q p) {m : Move D E}
    (hm : (M.behind G).move m q = some q') :
    ∃ p', M.move (G.move idle m) p = some p' ∧ G.Fronts idle q' p' := by
  rcases System.move_cases hm with ⟨d, rfl, rfl⟩ | ⟨i, env, d, c, next, a, s, rfl, hi, hx, rfl⟩
  · refine ⟨_, rfl, h.state, h.trace, ?_⟩
    exact List.rel_append h.threads (.cons (serves_started d) .nil)
  · obtain ⟨t', hi', hserves⟩ := h.thread hi
    obtain ⟨cmd, next', hcmd, rfl, hnext⟩ := hserves.calls
    have hx : M.exec env c p.state = some (a, s) := by rw [h.state]; exact hx
    have hor := G.commandOr_eq idle hcmd
    refine ⟨⟨s, p.threads.set i ⟨cmd, next' a⟩, ⟨i, cmd, env, ⟨c, a⟩⟩ :: p.trace⟩, ?_, rfl, ?_, ?_⟩
    · simp [Gateway.move, System.move, hi', hx]
    · exact .cons (.mk i hcmd env ⟨c, a⟩) h.trace
    · refine Fronts.set h.threads i ⟨hor.symm, fun b hb => ?_, fun c' hc' => ?_⟩
      · rw [hcmd] at hb
        cases hb
      · exact hnext a

theorem Fronts.runFrom (h : G.Fronts idle q p) {ms : List (Move D E)}
    (hq : (M.behind G).runFrom ms q = some q') :
    ∃ p', M.runFrom (ms.map (G.move idle)) p = some p' ∧ G.Fronts idle q' p' := by
  induction ms generalizing q p with
  | nil => cases hq; exact ⟨p, rfl, h⟩
  | cons m ms ih =>
    obtain ⟨q₁, hm, hq⟩ := Option.bind_eq_some_iff.mp hq
    obtain ⟨p₁, hm', h₁⟩ := h.move hm
    obtain ⟨p', hp, hfronts⟩ := ih h₁ hq
    exact ⟨p', by simp [System.runFrom, hm', hp], hfronts⟩

/-- **Every run behind a gateway is a run of the system.** -/
theorem behind_run (idle : C) {ms : List (Move D E)} (hq : (M.behind G).run ms = some q) :
    ∃ p, M.run (ms.map (G.move idle)) = some p ∧ G.Fronts idle q p :=
  fronts_start.runFrom hq

/-- **Responses**: a request was answered at once, or its command has ended and the
response is that to its outcome. -/
theorem Fronts.answered (h : G.Fronts idle q p) {i : ℕ} {d : D} {b : β}
    (hi : q.threads[i]? = some ⟨d, .ret b⟩) :
    G.command d = .error b ∨ ∃ c r, G.command d = .ok c ∧
      p.threads[i]? = some ⟨c, Program.ofExcept r⟩ ∧ b = G.respond d r := by
  obtain ⟨t', hi', hserves⟩ := h.thread hi
  cases hcmd : G.command d with
  | error b' =>
    cases hserves.atOnce b' hcmd
    exact .inl rfl
  | ok c =>
    obtain ⟨r, hrest, hb⟩ := Program.attempt_eq_ret (hserves.passedOn c hcmd).symm
    refine .inr ⟨c, r, rfl, ?_, hb⟩
    rw [hi', ← hrest, ← G.commandOr_eq idle hcmd, ← hserves.cmd]

end Gateway

end Interaction
