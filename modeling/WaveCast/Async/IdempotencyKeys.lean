import WaveCast.Async.Ownership

/-!
# Idempotency keys

`MemoryStore` finds the job of an idempotency key through the index `byIDKey`,
and `Enqueue` looks at that job only. When jobs get fresh ids and every worker
reports in time, the index names every job that is not dead-lettered
(`indexed`), so that a key never has two live jobs and enqueueing under the key
of one changes nothing (`one_live_job`).
-/

namespace WaveCast.Async

open Interaction

/-- The ids of jobs are drawn by `ids.New`. -/
def DrawnIDs (t : List QueueEntry) : Prop :=
  ∀ e ∈ t, ∀ job, enqueuedJob e.exchange = some job → ∃ u, job.id = newID prefixJob u

/-- The call made after `older` enqueues and stores job `id` under `key`. -/
def Accepts (older : List QueueEntry) (e : QueueEntry) (key id : String) : Prop :=
  ∃ w job, queueSystem.Replays older w ∧ enqueuedJob e.exchange = some job ∧
    job.idempotencyKey = key ∧ job.id = id ∧ w.store.hasLive job = false

/-- Job `id` is the last one that was accepted under `key`. -/
def LatestAccepted (key id : String) : List QueueEntry → Prop
  | [] => False
  | e :: older => Accepts older e key id ∨
      LatestAccepted key id older ∧ ∀ id', ¬ Accepts older e key id'

structure KeysUnique (t : List QueueEntry) (w : QueueWorld) : Prop where
  /-- Two jobs of a key that are not dead-lettered are the same one. -/
  one_live : ∀ id id' job job', w.store.jobs.lookup id = some job →
    w.store.jobs.lookup id' = some job' → job.idempotencyKey = job'.idempotencyKey →
    job.status ≠ .deadLetter → job'.status ≠ .deadLetter → id = id'
  /-- The index maps a key to the last job accepted under it, which is stored. -/
  latest : ∀ key id, (w.store.byIDKey.lookup key = some id ↔ LatestAccepted key id t) ∧
    (w.store.byIDKey.lookup key = some id →
      ∃ job, w.store.jobs.lookup id = some job ∧ job.idempotencyKey = key)
  /-- Enqueueing under the key of a job that is not dead-lettered does nothing. -/
  repeated : ∀ id job new, w.store.byIDKey.lookup new.idempotencyKey = some id →
    w.store.jobs.lookup id = some job → job.status ≠ .deadLetter → w.store.enqueue new = w.store

/-! ## The index -/

structure Indexed (s : MemoryStore) : Prop where
  live : ∀ id job, s.jobs.lookup id = some job → job.status ≠ .deadLetter →
    s.byIDKey.lookup job.idempotencyKey = some id
  held : ∀ key id, s.byIDKey.lookup key = some id →
    id ≠ "" ∧ ∃ job, s.jobs.lookup id = some job ∧ job.idempotencyKey = key

/-- Nothing gives a job the status `failed`, which would release its key. -/
def NoneFailed (s : MemoryStore) : Prop :=
  ∀ id job, s.jobs.lookup id = some job → job.status ≠ .failed

variable {s : MemoryStore} {t older : List QueueEntry} {w w₀ w₁ : QueueWorld} {e : QueueEntry}
  {id key : String} {job : Job}

theorem MemoryStore.hasLive_of_lookup (hk : s.byIDKey.lookup job.idempotencyKey = some id)
    (hid : id ≠ "") {existing : Job} (hl : s.jobs.lookup id = some existing)
    (hd : existing.status ≠ .deadLetter) (hf : existing.status ≠ .failed) :
    s.hasLive job = true := by
  have hget : (s.byIDKey.lookup job.idempotencyKey).getD "" = id := by rw [hk, Option.getD_some]
  unfold MemoryStore.hasLive
  rw [hget]
  simp [hid, hl, hd, hf]

theorem MemoryStore.enqueue_of_hasLive (h : s.hasLive job = true) : s.enqueue job = s := if_pos h

theorem MemoryStore.enqueue_of_not_hasLive (h : s.hasLive job = false) :
    s.enqueue job = ⟨s.jobs.insert job.id job, s.byIDKey.insert job.idempotencyKey job.id⟩ := by
  simp [MemoryStore.enqueue, h]

theorem MemoryStore.byIDKey_update (s : MemoryStore) (jobID : String) (f : Job → Job) :
    (s.update jobID f).byIDKey = s.byIDKey := by
  unfold MemoryStore.update
  split <;> rfl

theorem Recorded.noneFailed (h : Recorded t w) : NoneFailed w.store := by
  intro id job hl hf
  have hleft := (h.stored id job hl).left
  unfold LeftBy at hleft
  split at hleft
  · rw [hf] at hleft; cases hleft
  · split at hleft
    · rw [hf] at hleft; cases hleft.2.1
    · rw [hf] at hleft; cases hleft
    · rw [hf] at hleft; cases hleft.1
    · rw [hf] at hleft; cases hleft
    · exact hleft

theorem Indexed.enqueue (h : Indexed s) (hf : NoneFailed s) (hnew : s.jobs.lookup job.id = none)
    (hid : job.id ≠ "") : Indexed (s.enqueue job) := by
  cases hlive : s.hasLive job with
  | true => rwa [MemoryStore.enqueue_of_hasLive hlive]
  | false =>
    rw [MemoryStore.enqueue_of_not_hasLive hlive]
    constructor
    · intro id other hl hd
      simp only [Table.lookup_insert_ite] at hl ⊢
      by_cases heq : id = job.id
      · rw [if_pos heq] at hl
        cases hl
        rw [if_pos rfl, heq]
      · rw [if_neg heq] at hl
        have hk := h.live id other hl hd
        have hne : other.idempotencyKey ≠ job.idempotencyKey := by
          intro heq
          rw [heq] at hk
          rw [MemoryStore.hasLive_of_lookup hk (h.held _ _ hk).1 hl hd (hf id other hl)] at hlive
          cases hlive
        rw [if_neg hne, hk]
    · intro key id hk
      simp only [Table.lookup_insert_ite] at hk ⊢
      by_cases heq : key = job.idempotencyKey
      · rw [if_pos heq] at hk
        cases hk
        exact ⟨hid, job, if_pos rfl, heq.symm⟩
      · rw [if_neg heq] at hk
        obtain ⟨hne, other, hl, hkey⟩ := h.held key id hk
        refine ⟨hne, other, ?_, hkey⟩
        rw [if_neg, hl]
        rintro rfl
        rw [hnew] at hl
        cases hl

/-- Changing a job that is not dead-lettered, and not its key, keeps the index. -/
theorem Indexed.change {new : Job} (h : Indexed s) (hl : s.jobs.lookup id = some job)
    (hd : job.status ≠ .deadLetter) (hk : new.idempotencyKey = job.idempotencyKey) :
    Indexed { s with jobs := s.jobs.insert id new } := by
  constructor
  · intro id' other hl' hd'
    simp only [Table.lookup_insert_ite] at hl'
    split at hl'
    · cases hl'
      subst id'
      rw [hk]
      exact h.live id job hl hd
    · exact h.live id' other hl' hd'
  · intro key id' hk'
    obtain ⟨hne, other, hl', hkey⟩ := h.held key id' hk'
    refine ⟨hne, ?_⟩
    simp only [Table.lookup_insert_ite]
    by_cases heq : id' = id
    · subst heq
      rw [hl] at hl'
      cases hl'
      exact ⟨new, if_pos rfl, hk.trans hkey⟩
    · exact ⟨other, by rw [if_neg heq, hl'], hkey⟩

theorem Indexed.update {f : Job → Job} (h : Indexed s)
    (hd : ∀ job, s.jobs.lookup id = some job → job.status ≠ .deadLetter)
    (hk : ∀ job, (f job).idempotencyKey = job.idempotencyKey) : Indexed (s.update id f) := by
  unfold MemoryStore.update
  split
  · rename_i job hl
    exact h.change hl (hd job hl) (hk job)
  · exact h

theorem DrawnIDs.tail (h : DrawnIDs (e :: older)) : DrawnIDs older :=
  fun f hf => h f (List.mem_cons_of_mem e hf)

/-- **The index names every job that is not dead-lettered.** -/
theorem indexed (h : queueSystem.Replays t w) (ho : Orderly t) (ht : Timely t)
    (hd : DrawnIDs t) : Indexed w.store := by
  induction t generalizing w with
  | nil =>
    obtain rfl : w = queueSystem.init := h
    constructor <;> intro _ _ hl <;> simp [queueSystem, QueueWorld.empty, MemoryStore.empty] at hl
  | cons e older ih =>
    obtain ⟨w₀, h₀, hx⟩ := id h
    have hi := ih h₀ ho.tail ht.tail hd.tail
    have hrec := recorded h₀ ho.tail
    -- what a worker reports on is running, so its key is indexed
    have hrunning : ∀ id, reportedID e.exchange = some id → ∀ job,
        w₀.store.jobs.lookup id = some job → job.status ≠ .deadLetter := by
      intro id hr job hl hdead
      have hrun := report_finds_running h ho ht hr h₀ hl
      rw [hdead] at hrun
      cases hrun
    cases hc : enqueuedJob e.exchange with
    | some job =>
      obtain ⟨i, cmd, env, ⟨c, a⟩⟩ := e
      have hnew := hrec.fresh_absent ho hc
      obtain ⟨u, hu⟩ := hd _ (List.mem_cons_self ..) job hc
      cases c with
      | enqueue job' =>
        cases hc
        cases hx
        exact hi.enqueue hrec.noneFailed hnew (hu ▸ newID_ne_empty prefixJob u)
      | _ => cases hc
    | none =>
      obtain ⟨i, cmd, env, ⟨c, a⟩⟩ := e
      cases c with
      | enqueue job => cases hc
      | claimNext workerID now visibilityTimeout =>
        obtain ⟨⟨job?, s⟩, hs, heq⟩ := Option.map_eq_some_iff.mp hx
        cases heq
        rcases MemoryStore.claimNext_cases hs with ⟨rfl, rfl⟩ | ⟨id, job, hl, hready, rfl, rfl⟩
        · exact hi
        · refine hi.change hl ?_ rfl
          intro hdead
          rw [Job.not_ready now (.inr hdead)] at hready
          cases hready
      | complete jobID now => cases hx; exact hi.update (hrunning jobID rfl) fun _ => rfl
      | retry jobID nextRun lastError now =>
        cases hx; exact hi.update (hrunning jobID rfl) fun _ => rfl
      | deadLetter jobID lastError now =>
        cases hx; exact hi.update (hrunning jobID rfl) fun _ => rfl
      | now => rw [exec_quiet (c := .now) (a := a) hx rfl rfl rfl]; exact hi
      | newID pfx => rw [exec_quiet (c := .newID pfx) (a := a) hx rfl rfl rfl]; exact hi
      | handle job => rw [exec_quiet (c := .handle job) (a := a) hx rfl rfl rfl]; exact hi

/-! ## The last job of a key -/

/-- Only an accepted job changes the index. -/
theorem exec_byIDKey {env : QueueEnv} {c : QueueEffect} {a : c.Answer}
    (h : QueueWorld.exec env c w₀ = some (a, w₁)) :
    (∃ job, enqueuedJob ⟨c, a⟩ = some job ∧ w₀.store.hasLive job = false ∧
      w₁.store.byIDKey = w₀.store.byIDKey.insert job.idempotencyKey job.id) ∨
    (∀ job, enqueuedJob ⟨c, a⟩ = some job → w₀.store.hasLive job = true) ∧
      w₁.store.byIDKey = w₀.store.byIDKey := by
  cases c with
  | enqueue job =>
    cases h
    cases hlive : w₀.store.hasLive job with
    | false =>
      refine .inl ⟨job, rfl, hlive, ?_⟩
      simp only [MemoryStore.enqueue_of_not_hasLive hlive]
    | true =>
      refine .inr ⟨?_, by simp only [MemoryStore.enqueue_of_hasLive hlive]⟩
      rintro _ ⟨⟩
      exact hlive
  | claimNext workerID now visibilityTimeout =>
    obtain ⟨⟨job?, s⟩, hs, heq⟩ := Option.map_eq_some_iff.mp h
    cases heq
    refine .inr ⟨by simp [enqueuedJob], ?_⟩
    rcases MemoryStore.claimNext_cases hs with ⟨-, rfl⟩ | ⟨id, job, -, -, -, rfl⟩ <;> rfl
  | complete jobID now =>
    cases h; exact .inr ⟨by simp [enqueuedJob], MemoryStore.byIDKey_update ..⟩
  | retry jobID nextRun lastError now =>
    cases h; exact .inr ⟨by simp [enqueuedJob], MemoryStore.byIDKey_update ..⟩
  | deadLetter jobID lastError now =>
    cases h; exact .inr ⟨by simp [enqueuedJob], MemoryStore.byIDKey_update ..⟩
  | now => rw [exec_quiet h rfl rfl rfl]; exact .inr ⟨by simp [enqueuedJob], rfl⟩
  | newID pfx => rw [exec_quiet h rfl rfl rfl]; exact .inr ⟨by simp [enqueuedJob], rfl⟩
  | handle job => rw [exec_quiet h rfl rfl rfl]; exact .inr ⟨by simp [enqueuedJob], rfl⟩

theorem byIDKey_eq (h : queueSystem.Replays t w) (key id : String) :
    w.store.byIDKey.lookup key = some id ↔ LatestAccepted key id t := by
  induction t generalizing w with
  | nil =>
    obtain rfl : w = queueSystem.init := h
    simp [LatestAccepted, queueSystem, QueueWorld.empty, MemoryStore.empty]
  | cons e older ih =>
    obtain ⟨w₀, h₀, hx⟩ := h
    have haccepts : ∀ id', Accepts older e key id' ↔ ∃ job, enqueuedJob e.exchange = some job ∧
        job.idempotencyKey = key ∧ job.id = id' ∧ w₀.store.hasLive job = false := by
      intro id'
      constructor
      · rintro ⟨w', job, h', hrest⟩
        rw [h'.unique h₀] at hrest
        exact ⟨job, hrest⟩
      · rintro ⟨job, hrest⟩
        exact ⟨w₀, job, h₀, hrest⟩
    simp only [LatestAccepted, haccepts, ← ih h₀]
    rcases exec_byIDKey hx with ⟨job, hjob, hlive, hw⟩ | ⟨hno, hw⟩
    · rw [hw, Table.lookup_insert_ite]
      by_cases hk : key = job.idempotencyKey
      · simp [hjob, hlive, hk]
      · simp [hjob, hk, Ne.symm hk]
    · rw [hw]
      constructor
      · intro hk
        refine .inr ⟨hk, ?_⟩
        rintro id' ⟨job, hjob, -, -, hlive⟩
        rw [hno job hjob] at hlive
        cases hlive
      · rintro (⟨job, hjob, -, -, hlive⟩ | ⟨hk, -⟩)
        · rw [hno job hjob] at hlive
          cases hlive
        · exact hk

/-- **One live job for each key.** With fresh ids and reports in time, at most
one job of a key is not dead-lettered, the index names the last job accepted,
and enqueueing again under the key of a job that is not dead-lettered leaves
the whole store as it is. -/
theorem one_live_job (t : List QueueEntry) (w : QueueWorld) (h : queueSystem.Replays t w)
    (ho : Orderly t) (ht : Timely t) (hd : DrawnIDs t) : KeysUnique t w := by
  have hi := indexed h ho ht hd
  refine ⟨?_, ?_, ?_⟩
  · intro id id' job job' hl hl' hkey hlive hlive'
    have hk := hi.live id job hl hlive
    rw [hkey, hi.live id' job' hl' hlive'] at hk
    exact (Option.some.inj hk).symm
  · exact fun key id => ⟨byIDKey_eq h key id, fun hk => (hi.held key id hk).2⟩
  · intro id job new hk hl hlive
    refine MemoryStore.enqueue_of_hasLive ?_
    exact MemoryStore.hasLive_of_lookup hk (hi.held _ _ hk).1 hl hlive
      ((recorded h ho).noneFailed id job hl)

/-- Every run of the pool draws its job ids. -/
theorem run_drawnIDs {ms : List QueueMove} {p : QueuePool} (h : queueSystem.run ms = some p) :
    DrawnIDs p.trace := by
  have hrep := System.run_replays h
  have hasks := System.run_always QueueCommand.program_asks h
  rw [always_iff] at hasks
  intro e he job hjob
  obtain ⟨newer, older, ht⟩ := List.append_of_mem he
  obtain ⟨hcall, -⟩ := jobWrites_eq_some.mp
    (show jobWrites e = some (job.id, job) by simp [jobWrites, hjob])
  obtain ⟨q, id, jobType, key, payload, now, rfl, hh⟩ := (hasks newer e older ht).1 job hcall
  obtain ⟨d, hd, -, hx⟩ := mem_threadHistory.mp
    (show (⟨.newID prefixJob, id⟩ : QueueExchange) ∈ threadHistory e.thread older by simp [hh])
  obtain ⟨w₀, w₁, hexec⟩ := hrep.executed (show d ∈ p.trace by rw [ht]; simp [hd])
  rw [hx] at hexec
  simp only [queueSystem, QueueWorld.exec] at hexec
  split at hexec
  · cases hexec
  · cases hexec
    exact ⟨d.env.ulid, rfl⟩

/-- The job is completed under its key, and enqueued again to no effect. -/
def repeatedMoves : List QueueMove :=
  timelyMoves ++ [.start (.enqueue (sampleQueue 5) "close_room_sessions" "key" (.ok "{}")),
    .call 3 (callAt 13), .call 3 { callAt 13 with ulid := sampleUlid 1 }, .call 3 (callAt 13)]

theorem one_live_job_repeated :
    ∃ p, queueSystem.run repeatedMoves = some p ∧
      p.state.store.byIDKey.lookup "key" = some sampleJob ∧ KeysUnique p.trace p.state := by
  have hrun : (queueSystem.run repeatedMoves).any (fun p =>
      decide (p.state.store.byIDKey.lookup "key" = some sampleJob) && decide (Timely p.trace)) =
      true := by decide +kernel
  obtain ⟨p, hp, hcheck⟩ := (Option.any_eq_true _ _).mp hrun
  obtain ⟨hkey, ht⟩ := Bool.and_eq_true_iff.mp hcheck
  exact ⟨p, hp, of_decide_eq_true hkey, one_live_job p.trace p.state (System.run_replays hp)
    (run_orderly hp) (of_decide_eq_true ht) (run_drawnIDs hp)⟩

end WaveCast.Async
