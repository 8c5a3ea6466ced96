import WaveCast.Dispatcher

/-!
# The committed position

The dispatcher may lose an event: a commit covers every earlier record of the
partition, also one whose publish has failed. `loses_nothing_iff` says that
this is the only way: the committed position passes delivered and undecodable
records alone iff no commit takes effect after a failed publish of the same
session, unless an earlier session had delivered that record.
-/

namespace WaveCast.Dispatcher

open Interaction Program

variable {π : Type} {d : RealtimeDispatcher π} {log : Partition}

/-- A publish that failed. -/
def failedPublish : DispatchExchange π → Bool
  | ⟨.publish _ _, .error _⟩ => true
  | _ => false

/-- The record is undecodable, or every event it resolves to was published. -/
def Delivered (d : RealtimeDispatcher π) (record : Record) (t : List (DispatchEntry π)) : Prop :=
  ∀ event, d.decode record.value = some event → ∀ item ∈ d.resolve event,
    ∃ e ∈ t, e.cmd = record ∧ e.exchange = ⟨.publish item.channel item.event, .ok ()⟩

/-- In every state of the run, the committed position has passed only
delivered records. -/
def LosesNothing (d : RealtimeDispatcher π) (log : Partition) (steps : List ConsumerStep) : Prop :=
  ∀ n c, d.run log (steps.take n) = some c →
    ∀ record ∈ log.records, record.offset < c.committed → Delivered d record c.pool.trace

/-- The next call of the record that is being handled is its commit. -/
def Consumer.committing (c : Consumer π) : Prop :=
  ∃ cmd record next, c.pool.threads[c.pool.threads.length - 1]? =
    some ⟨cmd, .call (.commitRecords record) next⟩

/-- Whenever a commit takes effect, each record of the session whose publish
has failed was delivered nevertheless. -/
def NoCommitPastFailure (d : RealtimeDispatcher π) (log : Partition)
    (steps : List ConsumerStep) : Prop :=
  ∀ n c env, d.run log (steps.take n) = some c → steps[n]? = some (.call env) → c.committing →
    env.commits = true → ∀ f ∈ c.pool.trace, c.session ≤ f.thread →
      failedPublish f.exchange = true → Delivered d f.cmd c.pool.trace

/-! ## What the dispatcher does with a record -/

def PublishedAll (d : RealtimeDispatcher π) (record : Record) (h : List (DispatchExchange π)) :
    Prop :=
  ∀ event, d.decode record.value = some event → ∀ item ∈ d.resolve event,
    (⟨.publish item.channel item.event, .ok ()⟩ : DispatchExchange π) ∈ h

/-- A record is committed after all of its events were published. -/
def CommitsAfterPublish (d : RealtimeDispatcher π) (record : Record)
    (h : List (DispatchExchange π)) (c : DispatchEffect π) : Prop :=
  ∀ record', c = .commitRecords record' → record' = record ∧ PublishedAll d record h

/-- The handling of a record ends with all of its events published or a failed publish. -/
def PublishedOrFailed (d : RealtimeDispatcher π) (record : Record)
    (h : List (DispatchExchange π)) : Except AppError Unit → Prop
  | .ok _ => PublishedAll d record h
  | .error _ => ∃ x ∈ h, failedPublish x = true

theorem handleRecord_follows (d : RealtimeDispatcher π) (record : Record) :
    Program.Follows (CommitsAfterPublish d record) (PublishedOrFailed d record) []
      (d.handleRecord record) := by
  have commit : ∀ h, PublishedAll d record h → Program.Follows (CommitsAfterPublish d record)
      (PublishedOrFailed d record) h
      (Program.call (S := dispatchEffects π) (.commitRecords record) fun _ => .ret ()) := by
    refine fun h hp => ⟨fun record' hr => ?_, fun a event hd item hitem => ?_⟩
    · cases hr; exact ⟨rfl, hp⟩
    · exact List.mem_cons_of_mem _ (hp event hd item hitem)
  unfold RealtimeDispatcher.handleRecord
  cases hd : d.decode record.value with
  | none =>
    refine commit [] fun event hd' => ?_
    rw [hd] at hd'
    cases hd'
  | some event =>
    refine (follows_bind _ _ _).mpr (follows_forEach_done (fun done h => ∀ item ∈ done,
      (⟨.publish item.channel item.event, .ok ()⟩ : DispatchExchange π) ∈ h) [] [] (by simp)
      ?_ ?_)
    · rintro done item - h hdone
      refine ⟨fun record' hr => (nomatch hr), fun a => ?_⟩
      cases a with
      | error e => exact ⟨_, List.mem_cons_self, rfl⟩
      | ok _ =>
        intro item' hitem'
        rcases List.mem_append.mp hitem' with hold | hnew
        · exact List.mem_cons_of_mem _ (hdone item' hold)
        · rw [List.mem_singleton.mp hnew]
          exact List.mem_cons_self
    · intro h hall
      refine commit h fun event' hd' item hitem => ?_
      rw [hd] at hd'
      cases hd'
      exact hall item hitem

/-! ## Sessions -/

theorem run_concat {steps : List ConsumerStep} {step : ConsumerStep} {c' : Consumer π} :
    d.run log (steps ++ [step]) = some c' ↔
      ∃ c, d.run log steps = some c ∧ d.step log step c = some c' := by
  suffices h : ∀ c₀, d.runFrom log (steps ++ [step]) c₀ =
      (d.runFrom log steps c₀).bind (d.step log step) by
    simp [RealtimeDispatcher.run, h, Option.bind_eq_some_iff]
  intro c₀
  induction steps generalizing c₀ with
  | nil =>
    simp only [List.nil_append, RealtimeDispatcher.runFrom, Option.bind_some, Option.bind_fun_some]
  | cons s steps ih =>
    simp only [List.cons_append, RealtimeDispatcher.runFrom, Option.bind_assoc, ih]

/-- The invariant of a session: it has handled, fetched and left to fetch the
records from its start on, and every record but the last one is finished. -/
structure InSession (d : RealtimeDispatcher π) (log : Partition) (c : Consumer π) : Prop where
  isRun : ∃ ms, d.system.run ms = some c.pool
  session_le : c.session ≤ c.pool.threads.length
  records : ∃ start ≤ c.committed, (c.pool.threads.drop c.session).map (·.cmd) ++
    (c.fetched ++ c.pending) = log.since start
  finished : ∀ i, c.session ≤ i → i + 1 < c.pool.threads.length → ∀ cmd e next,
    c.pool.threads[i]? ≠ some ⟨cmd, .call e next⟩

/-- What one step of the consumer can do. -/
theorem step_cases {step : ConsumerStep} {c c' : Consumer π} (h : d.step log step c = some c') :
    (∃ n, step = .poll n ∧ c.fetched = [] ∧
      c' = { c with fetched := c.pending.take n, pending := c.pending.drop n }) ∨
    (∃ record rest, step = .next ∧ c.idle = true ∧ c.fetched = record :: rest ∧
      c' = { c with
        pool := { c.pool with
          threads := c.pool.threads ++ [⟨record, d.handleRecord record⟩] }
        fetched := rest }) ∨
    (∃ env cmd e next committed, step = .call env ∧ c.idle = false ∧
      c.pool.threads[c.pool.threads.length - 1]? = some ⟨cmd, .call e next⟩ ∧
      dispatchExec env e c.committed = some (env.answer, committed) ∧
      c' = { c with
        pool := ⟨committed,
          c.pool.threads.set (c.pool.threads.length - 1) ⟨cmd, next env.answer⟩,
          ⟨c.pool.threads.length - 1, cmd, env, ⟨e, env.answer⟩⟩ :: c.pool.trace⟩ }) ∨
    (step = .restart ∧ c' =
      { c with
        session := c.pool.threads.length
        fetched := []
        pending := log.since c.committed }) := by
  cases step with
  | poll n =>
    simp only [RealtimeDispatcher.step] at h
    split at h
    · rename_i hif
      cases h
      exact .inl ⟨n, rfl, List.isEmpty_iff.mp (Bool.and_eq_true_iff.mp hif).2, rfl⟩
    · cases h
  | next =>
    simp only [RealtimeDispatcher.step] at h
    split at h
    · rename_i record rest hf
      split at h
      · obtain ⟨pool, hm, rfl⟩ := Option.map_eq_some_iff.mp h
        cases hm
        exact .inr (.inl ⟨record, rest, rfl, ‹_›, hf, rfl⟩)
      · cases h
    · cases h
  | call env =>
    simp only [RealtimeDispatcher.step] at h
    split at h
    · cases h
    · rename_i hidle
      obtain ⟨pool, hm, rfl⟩ := Option.map_eq_some_iff.mp h
      rcases System.move_cases hm with ⟨_, hs, -⟩ | ⟨i, env', cmd, e, next, a, s, hs, hi, he, rfl⟩
      · cases hs
      · cases hs
        have ha : a = env.answer := by cases e <;> (cases he; rfl)
        subst ha
        exact .inr (.inr (.inl ⟨env, cmd, e, next, s, rfl, by simpa using hidle, hi, he, rfl⟩))
  | restart =>
    cases h
    exact .inr (.inr (.inr ⟨rfl, rfl⟩))

theorem mem_since {position : ℕ} {record : Record} :
    record ∈ log.since position ↔ record ∈ log.records ∧ position ≤ record.offset := by
  simp [Partition.since]

section Session

variable {c c' : Consumer π} {st : ConsumerStep}

theorem InSession.obeys (h : InSession d log c) :
    System.Obeys (CommitsAfterPublish d) (PublishedOrFailed d) c.pool := by
  obtain ⟨ms, hms⟩ := h.isRun
  exact System.run_obeys (handleRecord_follows d) hms

/-- A thread commits its own record, with all of its events published. -/
theorem InSession.commits (h : InSession d log c) {i : ℕ} {cmd record : Record}
    {next : Except AppError Unit → DispatchAction π Unit}
    (hi : c.pool.threads[i]? = some ⟨cmd, .call (.commitRecords record) next⟩) :
    record = cmd ∧ PublishedAll d cmd (threadHistory i c.pool.trace) :=
  (h.obeys.1 i cmd _ hi).1 record rfl

theorem mem_session {i : ℕ} {cmd : Record} {rest : DispatchAction π Unit} (hle : c.session ≤ i)
    (hi : c.pool.threads[i]? = some ⟨cmd, rest⟩) :
    ((c.pool.threads.drop c.session).map (·.cmd))[i - c.session]? = some cmd := by
  rw [List.getElem?_map, List.getElem?_drop, Nat.add_sub_cancel' hle, hi]
  rfl

/-- The records of a session are on from its start. -/
theorem mem_since_start {start i : ℕ} {cmd : Record} {rest : DispatchAction π Unit}
    (hrec : (c.pool.threads.drop c.session).map (·.cmd) ++ (c.fetched ++ c.pending) =
      log.since start) (hle : c.session ≤ i) (hi : c.pool.threads[i]? = some ⟨cmd, rest⟩) :
    cmd ∈ log.since start := by
  rw [← hrec]
  exact List.mem_append_left _ (List.mem_of_getElem? (mem_session hle hi))

/-- A session handles the records in the order of their offsets. -/
theorem InSession.offset_le (h : InSession d log c) {i j : ℕ} (hle : c.session ≤ i) (hij : i ≤ j)
    {cmd cmd' : Record} {rest rest' : DispatchAction π Unit}
    (hi : c.pool.threads[i]? = some ⟨cmd, rest⟩) (hj : c.pool.threads[j]? = some ⟨cmd', rest'⟩) :
    cmd.offset ≤ cmd'.offset := by
  obtain ⟨start, -, hrec⟩ := h.records
  have hsorted : (log.since start).Pairwise (·.offset < ·.offset) := log.sorted.filter _
  rw [← hrec, List.pairwise_append] at hsorted
  rcases Nat.eq_or_lt_of_le hij with rfl | hlt
  · rw [hi] at hj
    cases hj
    exact le_refl _
  · obtain ⟨hi', hgi⟩ := List.getElem?_eq_some_iff.mp (mem_session hle hi)
    obtain ⟨hj', hgj⟩ := List.getElem?_eq_some_iff.mp (mem_session (hle.trans hij) hj)
    have := List.pairwise_iff_getElem.mp hsorted.1 _ _ hi' hj' (by omega)
    rw [hgi, hgj] at this
    exact this.le

theorem map_cmd_set {threads : List (Thread (dispatchEffects π) Record AppError Unit)} {i : ℕ}
    {cmd : Record} {rest rest' : DispatchAction π Unit} (hi : threads[i]? = some ⟨cmd, rest⟩) :
    (threads.set i ⟨cmd, rest'⟩).map (·.cmd) = threads.map (·.cmd) := by
  obtain ⟨hlt, hget⟩ := List.getElem?_eq_some_iff.mp hi
  refine List.ext_getElem (by simp) fun j _ _ => ?_
  by_cases hij : i = j
  · subst hij
    simp [hget]
  · simp [List.getElem_set_ne hij]

theorem thread_of_busy : c.idle = false → c.pool.threads.length ≠ c.session := by
  intro h heq
  simp [Consumer.idle, heq] at h

theorem InSession.step (h : InSession d log c) (hs : d.step log st c = some c') :
    InSession d log c' := by
  obtain ⟨ms, hms⟩ := h.isRun
  obtain ⟨start, hstart, hrec⟩ := h.records
  rcases step_cases hs with ⟨n, -, hf, rfl⟩ | ⟨record, rest, -, hidle, hf, rfl⟩ |
    ⟨env, cmd, e, next, committed, -, hbusy, hi, hx, rfl⟩ | ⟨-, rfl⟩
  · refine ⟨⟨ms, hms⟩, h.session_le, ⟨start, hstart, ?_⟩, h.finished⟩
    rw [hf] at hrec
    simpa using hrec
  · refine ⟨⟨ms ++ [.start record], ?_⟩, ?_, ⟨start, hstart, ?_⟩, ?_⟩
    · rw [System.run, System.runFrom_append]
      exact Option.bind_eq_some_iff.mpr ⟨c.pool, hms, rfl⟩
    · simp only [List.length_append]
      have := h.session_le
      omega
    · rw [hf] at hrec
      simpa [List.drop_append_of_le_length h.session_le] using hrec
    · intro i hle hlt cmd e next hi
      simp only [List.length_append, List.length_singleton] at hlt
      rw [List.getElem?_append_left (by omega)] at hi
      by_cases hlast : i + 1 = c.pool.threads.length
      · obtain rfl : i = c.pool.threads.length - 1 := by omega
        have hne : c.pool.threads.length ≠ c.session := by
          have : c.session ≤ c.pool.threads.length - 1 := hle
          omega
        simp [Consumer.idle, hne, hi] at hidle
      · exact h.finished i hle (by omega) cmd e next hi
  · have hlen := thread_of_busy hbusy
    have hsess := h.session_le
    refine ⟨⟨ms ++ [.call (c.pool.threads.length - 1) env], ?_⟩, by simpa using hsess,
      ⟨start, ?_, ?_⟩, ?_⟩
    · rw [System.run, System.runFrom_append]
      refine Option.bind_eq_some_iff.mpr ⟨c.pool, hms, ?_⟩
      have hx' : d.system.exec env e c.pool.state = some (env.answer, committed) := hx
      simp [System.runFrom, System.move, hi, hx']
    · cases e with
      | publish channel event => cases hx; exact hstart
      | commitRecords record =>
        obtain ⟨rfl, -⟩ := h.commits hi
        cases hx
        simp only [Consumer.committed]
        split
        · have := (mem_since.mp (mem_since_start hrec (by omega) hi)).2
          omega
        · exact hstart
    · rw [← hrec, List.map_drop, List.map_drop, map_cmd_set hi]
    · intro i hle hlt cmd' e' next' hi'
      simp only [List.length_set] at hlt
      rw [List.getElem?_set_ne (by omega)] at hi'
      exact h.finished i hle hlt cmd' e' next' hi'
  · refine ⟨⟨ms, hms⟩, le_refl _, ⟨c.committed, le_refl _, ?_⟩, ?_⟩
    · simp
    · intro i hle hlt
      exact absurd (Nat.lt_of_succ_lt hlt) (not_lt.mpr hle)

theorem run_inSession {steps : List ConsumerStep} (h : d.run log steps = some c) :
    InSession d log c := by
  induction steps using List.reverseRecOn generalizing c with
  | nil =>
    cases h
    refine ⟨⟨[], rfl⟩, le_refl _, ⟨0, le_refl _, by simp [RealtimeDispatcher.consumer,
      System.start]⟩, fun i _ hlt => ?_⟩
    exact absurd hlt (Nat.not_lt_zero _)
  | append_singleton steps step ih =>
    obtain ⟨c₀, h₀, hs⟩ := run_concat.mp h
    exact (ih h₀).step hs

/-- The entries of a thread carry its record. -/
theorem InSession.cmd_eq (h : InSession d log c) {f : DispatchEntry π} (hf : f ∈ c.pool.trace)
    {cmd : Record} {rest : DispatchAction π Unit}
    (hi : c.pool.threads[f.thread]? = some ⟨cmd, rest⟩) : f.cmd = cmd := by
  obtain ⟨ms, hms⟩ := h.isRun
  obtain ⟨rest', hr⟩ := System.run_threads hms f hf
  rw [hi] at hr
  simp only [Option.some.injEq, Thread.mk.injEq] at hr
  exact hr.1.symm

/-- A thread that has published everything has delivered its record. -/
theorem InSession.delivered (h : InSession d log c) {i : ℕ} {cmd : Record}
    {rest : DispatchAction π Unit} (hi : c.pool.threads[i]? = some ⟨cmd, rest⟩)
    (hp : PublishedAll d cmd (threadHistory i c.pool.trace)) : Delivered d cmd c.pool.trace := by
  intro event hd item hitem
  obtain ⟨f, hf, rfl, hx⟩ := mem_threadHistory.mp (hp event hd item hitem)
  exact ⟨f, hf, h.cmd_eq hf hi, hx⟩

theorem Delivered.cons {record : Record} {t : List (DispatchEntry π)} (h : Delivered d record t)
    (e : DispatchEntry π) : Delivered d record (e :: t) := by
  intro event hd item hitem
  obtain ⟨f, hf, hr⟩ := h event hd item hitem
  exact ⟨f, List.mem_cons_of_mem e hf, hr⟩

/-- **What a commit covers.** When a record is committed, every record of the
log up to it was passed before, was delivered, or is a record of the session
whose publish has failed. -/
theorem InSession.covered (h : InSession d log c) (hlen : c.pool.threads.length ≠ c.session)
    {cmd record' : Record} {next : Except AppError Unit → DispatchAction π Unit}
    (hi : c.pool.threads[c.pool.threads.length - 1]? =
      some ⟨cmd, .call (.commitRecords record') next⟩)
    {record : Record} (hlog : record ∈ log.records) (hle : record.offset ≤ cmd.offset) :
    record.offset < c.committed ∨ Delivered d record c.pool.trace ∨
      ∃ f ∈ c.pool.trace, c.session ≤ f.thread ∧ failedPublish f.exchange = true ∧
        f.cmd = record := by
  obtain ⟨start, hstart, hrec⟩ := h.records
  have hsess := h.session_le
  by_cases hold : record.offset < start
  · exact .inl (lt_of_lt_of_le hold hstart)
  have hmem : record ∈ log.since start := mem_since.mpr ⟨hlog, not_lt.mp hold⟩
  rw [← hrec] at hmem
  rcases List.mem_append.mp hmem with hdone | hahead
  · -- a record of this session, handled up to now
    obtain ⟨⟨record₀, rest⟩, hthread, rfl⟩ := List.mem_map.mp hdone
    obtain ⟨j, hj⟩ := List.mem_iff_getElem?.mp hthread
    rw [List.getElem?_drop] at hj
    have hlt := (List.getElem?_eq_some_iff.mp hj).1
    by_cases hlast : c.session + j + 1 = c.pool.threads.length
    · have hj' : c.session + j = c.pool.threads.length - 1 := by omega
      rw [hj', hi] at hj
      cases hj
      exact .inr (.inl (h.delivered hi (h.commits hi).2))
    · have hfol := h.obeys.1 _ _ _ hj
      cases rest with
      | ret a => exact .inr (.inl (h.delivered hj hfol))
      | fail e =>
        obtain ⟨x, hx, hfailed⟩ := hfol
        obtain ⟨f, hf, hthread', rfl⟩ := mem_threadHistory.mp hx
        exact .inr (.inr ⟨f, hf, by omega, hfailed, h.cmd_eq hf (hthread' ▸ hj)⟩)
      | call e next' => exact absurd hj (h.finished _ (by omega) (by omega) _ _ _)
  · -- a record after the one that is committed
    have hsorted : (log.since start).Pairwise (·.offset < ·.offset) := log.sorted.filter _
    rw [← hrec, List.pairwise_append] at hsorted
    have hcmd := List.mem_of_getElem? (mem_session (by omega) hi)
    exact absurd hle (not_le.mpr (hsorted.2.2 cmd hcmd record hahead))

theorem InSession.step_loses_nothing (h : InSession d log c)
    (hn : ∀ record ∈ log.records, record.offset < c.committed → Delivered d record c.pool.trace)
    (hok : ∀ env, st = .call env → c.committing → env.commits = true → ∀ f ∈ c.pool.trace,
      c.session ≤ f.thread → failedPublish f.exchange = true → Delivered d f.cmd c.pool.trace)
    (hs : d.step log st c = some c') :
    ∀ record ∈ log.records, record.offset < c'.committed → Delivered d record c'.pool.trace := by
  intro record hlog hlt
  rcases step_cases hs with ⟨n, -, -, rfl⟩ | ⟨record', rest, -, -, -, rfl⟩ |
    ⟨env, cmd, e, next, committed, hst, hbusy, hi, hx, rfl⟩ | ⟨-, rfl⟩
  · exact hn record hlog hlt
  · exact hn record hlog hlt
  · refine Delivered.cons ?_ _
    cases e with
    | publish channel event => cases hx; exact hn record hlog hlt
    | commitRecords record' =>
      obtain ⟨rfl, -⟩ := h.commits hi
      cases hx
      simp only [Consumer.committed] at hlt
      split at hlt
      · rename_i hcommits
        rcases h.covered (thread_of_busy hbusy) hi hlog (by omega) with
          hold | hdone | ⟨f, hf, hle, hfailed, rfl⟩
        · exact hn record hlog hold
        · exact hdone
        · exact hok env hst ⟨_, _, _, hi⟩ hcommits f hf hle hfailed
      · exact hn record hlog hlt
  · exact hn record hlog hlt

end Session

theorem run_take {steps : List ConsumerStep} {c : Consumer π} (h : d.run log steps = some c)
    (n : ℕ) : ∃ q, d.run log (steps.take n) = some q := by
  induction steps using List.reverseRecOn generalizing c with
  | nil => exact ⟨c, by simpa using h⟩
  | append_singleton steps step ih =>
    obtain ⟨c₀, h₀, -⟩ := run_concat.mp h
    rcases Nat.lt_or_ge steps.length n with hlt | hle
    · rw [List.take_of_length_le (by simp; omega)]
      exact ⟨c, h⟩
    · rw [List.take_append_of_le_length hle]
      exact ih h₀

theorem losesNothing_of_noCommitPastFailure {steps : List ConsumerStep}
    (hok : NoCommitPastFailure d log steps) :
    LosesNothing d log steps := by
  intro n
  induction n with
  | zero =>
    intro c hc record _ hlt
    cases hc
    exact absurd hlt (Nat.not_lt_zero _)
  | succ n ih =>
    intro c' hc'
    cases hstep : steps[n]? with
    | none =>
      have hlen := List.getElem?_eq_none_iff.mp hstep
      rw [List.take_of_length_le (by omega)] at hc'
      exact ih c' (by rwa [List.take_of_length_le hlen])
    | some step =>
      rw [List.take_add_one, hstep] at hc'
      obtain ⟨c₀, h₀, hs⟩ := run_concat.mp hc'
      refine (run_inSession h₀).step_loses_nothing (ih c₀ h₀) ?_ hs
      rintro env rfl
      exact hok n c₀ env h₀ hstep

theorem noCommitPastFailure_of_losesNothing {steps : List ConsumerStep} {c : Consumer π}
    (h : d.run log steps = some c) (hn : LosesNothing d log steps) :
    NoCommitPastFailure d log steps := by
  intro n c₀ env h₀ hstep hcommitting hcommits f hf hle hfailed
  obtain ⟨c', hc'⟩ := run_take h (n + 1)
  have hs := hc'
  rw [List.take_add_one, hstep] at hs
  obtain ⟨c₁, h₁, hs⟩ := run_concat.mp hs
  obtain rfl := Option.some.inj (h₀.symm.trans h₁)
  have hsession := run_inSession h₀
  rcases step_cases hs with ⟨_, hst, -⟩ | ⟨_, _, hst, -⟩ |
    ⟨env', cmd, e, next, committed, hst, hbusy, hi, hx, rfl⟩ | ⟨hst, -⟩
  · cases hst
  · cases hst
  · cases hst
    obtain ⟨cmd', record, next', hi'⟩ := hcommitting
    rw [hi] at hi'
    cases hi'
    obtain ⟨rfl, -⟩ := hsession.commits hi
    cases hx
    obtain ⟨ms, hms⟩ := hsession.isRun
    obtain ⟨rest, hthread⟩ := System.run_threads hms f hf
    have hlt := (List.getElem?_eq_some_iff.mp hthread).1
    have hbound : f.cmd.offset ≤ record.offset ∧ f.cmd ∈ log.records := by
      obtain ⟨start, -, hrec⟩ := hsession.records
      exact ⟨hsession.offset_le hle (by omega) hthread hi,
        (mem_since.mp (mem_since_start hrec hle hthread)).1⟩
    have hdel := hn (n + 1) _ hc' f.cmd hbound.2 (by
      simp only [Consumer.committed, hcommits, if_true]
      omega)
    intro event hd item hitem
    obtain ⟨e, he, hcmd, hx⟩ := hdel event hd item hitem
    rcases List.mem_cons.mp he with rfl | he
    · cases hx
    · exact ⟨e, he, hcmd, hx⟩
  · cases hst

/-- **The dispatcher loses nothing** in a run iff no commit takes effect after
a failed publish of the same session, for a record that was not delivered in an
earlier one. -/
theorem loses_nothing_iff (d : RealtimeDispatcher π) (log : Partition)
    (steps : List ConsumerStep) (c : Consumer π) (h : d.run log steps = some c) :
    LosesNothing d log steps ↔ NoCommitPastFailure d log steps :=
  ⟨noCommitPastFailure_of_losesNothing h, losesNothing_of_noCommitPastFailure⟩

/-! ## A small deployment

Used for concrete runs. -/

/-- Every record holds the start of the room named by its value. -/
def sampleDispatcher : RealtimeDispatcher Unit where
  decode := fun roomID =>
    some ⟨"evt", eventRoomStarted, 1, roomID, "owner", "", "", "", 0, ()⟩
  formatTime := fun _ => "1970-01-01T00:00:00Z"

def samplePartition : Partition := ⟨[⟨0, "first"⟩, ⟨1, "second"⟩], by decide⟩

def succeeds : DispatchEnv := ⟨false, false⟩
def fails : DispatchEnv := ⟨true, false⟩

/-- The publish of the first record fails; the second record is published and
committed. -/
def failedFirst : List ConsumerStep :=
  [.poll 2, .next, .call fails, .next, .call succeeds, .call succeeds]

/-- The publish of the first record fails, and the dispatcher is restarted. -/
def restartedAfterFailure : List ConsumerStep :=
  [.poll 2, .next, .call fails, .restart, .poll 1, .next, .call succeeds, .call succeeds]

theorem loses_nothing_fails :
    ¬ ∀ (d : RealtimeDispatcher Unit) (log : Partition) (steps : List ConsumerStep)
      (c : Consumer Unit), d.run log steps = some c → LosesNothing d log steps := by
  intro hclaim
  have hrun : (sampleDispatcher.run samplePartition failedFirst).any (fun c =>
      decide (c.committed = 2) && c.pool.trace.all fun e =>
        decide (e.cmd.offset ≠ 0) || failedPublish e.exchange) = true := by decide +kernel
  obtain ⟨c, hc, hcheck⟩ := (Option.any_eq_true _ _).mp hrun
  obtain ⟨hpos, hall⟩ := Bool.and_eq_true_iff.mp hcheck
  have hdel := hclaim sampleDispatcher samplePartition failedFirst c hc failedFirst.length c
    (by rw [List.take_length]; exact hc) ⟨0, "first"⟩ (by decide)
    (by rw [of_decide_eq_true hpos]; decide)
  obtain ⟨e, he, hcmd, hx⟩ := hdel _ rfl ⟨"room:first", sampleDispatcher.clientEvent
    ⟨"evt", eventRoomStarted, 1, "first", "owner", "", "", "", 0, ()⟩⟩ (by decide +kernel)
  have hfail := List.all_eq_true.mp hall e he
  rw [hcmd, hx] at hfail
  exact absurd hfail (by decide)

/-- No publish of the session has failed. -/
def Consumer.calm (c : Consumer π) : Bool :=
  c.pool.trace.all fun f => f.thread < c.session || !failedPublish f.exchange

/-- The step is a call whose commit would take effect. -/
def mayCommit : ConsumerStep → Bool
  | .call env => env.commits
  | _ => false

theorem noCommitPastFailure_of_calm {d : RealtimeDispatcher π} {log : Partition}
    {steps : List ConsumerStep} (h : ∀ n < steps.length, steps[n]?.any mayCommit = true →
      (d.run log (steps.take n)).all Consumer.calm = true) : NoCommitPastFailure d log steps := by
  intro n c env hc hstep _ hcommits f hf hle hfailed
  have hcalm := h n (List.getElem?_eq_some_iff.mp hstep).1 (by rw [hstep]; exact hcommits)
  rw [hc, Option.all_some] at hcalm
  have hf := List.all_eq_true.mp hcalm f hf
  simp [not_lt.mpr hle, hfailed] at hf

theorem loses_nothing_restarted :
    ∃ c, sampleDispatcher.run samplePartition restartedAfterFailure = some c ∧ c.committed = 1 ∧
      LosesNothing sampleDispatcher samplePartition restartedAfterFailure := by
  have hrun : (sampleDispatcher.run samplePartition restartedAfterFailure).any
      (fun c => decide (c.committed = 1)) = true := by decide +kernel
  obtain ⟨c, hc, hpos⟩ := (Option.any_eq_true _ _).mp hrun
  exact ⟨c, hc, of_decide_eq_true hpos, (loses_nothing_iff _ _ _ c hc).mpr
    (noCommitPastFailure_of_calm (by decide +kernel))⟩

end WaveCast.Dispatcher
