import WaveCast.Interaction.Lease
import WaveCast.Async.Runner

/-!
# Deliveries

A stored job is what the newest call on it left (`recorded`): a `ClaimNext`
that returned it, or a report on it by `Complete`, `Retry` or `DeadLetter`. Its
attempts are the claims made so far.

This needs fresh job ids, and that a worker reports on a job only once for each
time it claimed it (`Orderly`). The runs of `Queue.Enqueue` and
`Runner.processOnce` are orderly (`run_orderly`).
-/

namespace WaveCast.Async

open Interaction

/-- The job a call got from `ClaimNext`. -/
def claimedJob : QueueExchange → Option Job
  | ⟨.claimNext _ _ _, .ok job?⟩ => job?
  | _ => none

/-- The id of the job a call reports on. -/
def reportedID : QueueExchange → Option String
  | ⟨.complete jobID _, _⟩ => some jobID
  | ⟨.retry jobID _ _ _, _⟩ => some jobID
  | ⟨.deadLetter jobID _ _, _⟩ => some jobID
  | _ => none

/-- The id of the job a call puts back. -/
def retriedID : QueueExchange → Option String
  | ⟨.retry jobID _ _ _, _⟩ => some jobID
  | _ => none

def completedID : QueueExchange → Option String
  | ⟨.complete jobID _, _⟩ => some jobID
  | _ => none

def enqueuedJob : QueueExchange → Option Job
  | ⟨.enqueue job, _⟩ => some job
  | _ => none

/-- The id of the job a call claims or reports on. -/
def touchedID (x : QueueExchange) : Option String :=
  ((claimedJob x).map (·.id)).or (reportedID x)

abbrev jobKey (e : QueueEntry) : Option String := touchedID e.exchange

/-- Until when a call locks the job it claims. -/
def lockExpiry (e : QueueEntry) : Option Time := (claimedJob e.exchange).bind (·.lockedUntil)

abbrev worker (e : QueueEntry) : ℕ := e.thread

/-- How many calls of `ClaimNext` returned the job. -/
def claims (id : String) (t : List QueueEntry) : ℕ :=
  t.countP fun e => (claimedJob e.exchange).any (·.id = id)

structure Orderly (t : List QueueEntry) : Prop where
  /-- Jobs are enqueued by `Queue.Enqueue`, under fresh ids. -/
  fresh : Always (fun older e => ∀ job, enqueuedJob e.exchange = some job →
    (∃ q jobType key payload now, job = Queue.newJob q job.id jobType key payload now) ∧
    ∀ f ∈ older, ∀ job', enqueuedJob f.exchange = some job' → job'.id ≠ job.id) t
  /-- The last thing a worker did with the job it reports on was to claim it. -/
  owned : Always (fun older e => ∀ id, reportedID e.exchange = some id →
    ∃ c, newestOf jobKey worker e.thread id older = some c ∧
      (claimedJob c.exchange).isSome) t

theorem Orderly.tail {e : QueueEntry} {t : List QueueEntry} (h : Orderly (e :: t)) : Orderly t :=
  ⟨h.fresh.2, h.owned.2⟩

theorem Orderly.of_append {newer older : List QueueEntry} (h : Orderly (newer ++ older)) :
    Orderly older := ⟨h.fresh.of_append, h.owned.of_append⟩

/-! ## What a call leaves in the store -/

/-- What the newest call on a job says of the stored job. -/
def LeftBy (job : Job) : Option QueueEntry → Prop
  | none => job.status = .pending
  | some e => match e.exchange with
    | ⟨.claimNext _ _ _, .ok (some job')⟩ =>
        job = job' ∧ job.status = .running ∧ job.lockedUntil.isSome
    | ⟨.complete _ _, _⟩ => job.status = .completed
    | ⟨.retry _ nextRun _ _, _⟩ => job.status = .retrying ∧ job.runAfter = nextRun
    | ⟨.deadLetter _ _ _, _⟩ => job.status = .deadLetter
    | _ => False

structure StoredJob (t : List QueueEntry) (id : String) (job : Job) : Prop where
  id_eq : job.id = id
  maxAttempts_pos : 0 < job.maxAttempts
  attempts_eq : job.attempts = claims id t
  left : LeftBy job (newest jobKey id t)

variable {t older : List QueueEntry} {w w' : QueueWorld} {e : QueueEntry} {id : String} {job : Job}

theorem claims_cons (id : String) (e : QueueEntry) (t : List QueueEntry) :
    claims id (e :: t) = claims id t +
      if (claimedJob e.exchange).any (·.id = id) then 1 else 0 := by
  simp [claims, List.countP_cons]

theorem jobKey_of_claimed {job : Job} (h : claimedJob e.exchange = some job) :
    jobKey e = some job.id := by simp [touchedID, h]

theorem not_claimed_of_key (h : jobKey e ≠ some id) :
    (claimedJob e.exchange).any (·.id = id) = false := by
  cases hc : claimedJob e.exchange with
  | none => rfl
  | some job =>
    have hid : job.id ≠ id := by simpa [jobKey_of_claimed hc] using h
    simp [hid]

/-- A call on another job changes nothing for this one. -/
theorem StoredJob.skip (h : StoredJob older id job) (hk : jobKey e ≠ some id) :
    StoredJob (e :: older) id job := by
  refine ⟨h.id_eq, h.maxAttempts_pos, ?_, ?_⟩
  · rw [claims_cons, not_claimed_of_key hk]
    exact h.attempts_eq
  · rw [newest_cons, if_neg hk]
    exact h.left

/-- A report changes a job but not its id and attempts. -/
theorem StoredJob.report {f : Job → Job} (h : StoredJob older id job) (hk : jobKey e = some id)
    (hc : claimedJob e.exchange = none) (hid : (f job).id = job.id)
    (hmax : (f job).maxAttempts = job.maxAttempts) (hatt : (f job).attempts = job.attempts)
    (hleft : LeftBy (f job) (some e)) : StoredJob (e :: older) id (f job) := by
  refine ⟨hid.trans h.id_eq, hmax ▸ h.maxAttempts_pos, ?_, ?_⟩
  · rw [claims_cons, hc, hatt]
    exact h.attempts_eq
  · rw [newest_cons, if_pos hk]
    exact hleft

/-- A call that neither claims, reports nor enqueues leaves the store alone. -/
theorem exec_quiet {env : QueueEnv} {c : QueueEffect} {a : c.Answer}
    (h : QueueWorld.exec env c w = some (a, w')) (hc : claimedJob ⟨c, a⟩ = none)
    (hr : reportedID ⟨c, a⟩ = none) (he : enqueuedJob ⟨c, a⟩ = none) : w'.store = w.store := by
  cases c with
  | now => cases h; rfl
  | newID pfx =>
    simp only [QueueWorld.exec] at h
    split at h
    · cases h
    · cases h; rfl
  | enqueue job => cases he
  | claimNext workerID now visibilityTimeout =>
    obtain ⟨⟨job?, s⟩, hs, heq⟩ := Option.map_eq_some_iff.mp h
    cases heq
    rcases MemoryStore.claimNext_cases hs with ⟨rfl, rfl⟩ | ⟨id, job, -, -, rfl, -⟩
    · rfl
    · cases hc
  | handle job => cases h; rfl
  | complete jobID now => cases hr
  | retry jobID nextRun lastError now => cases hr
  | deadLetter jobID lastError now => cases hr

/-- A claim locks a stored job that is ready. -/
theorem exec_claimed {env : QueueEnv} {c : QueueEffect} {a : c.Answer}
    (h : QueueWorld.exec env c w = some (a, w')) (hc : claimedJob ⟨c, a⟩ = some job) :
    ∃ workerID now visibilityTimeout id job₀, c = .claimNext workerID now visibilityTimeout ∧
      w.store.jobs.lookup id = some job₀ ∧ job₀.ready now = true ∧
      job = job₀.claimed workerID now visibilityTimeout ∧
      w'.store.jobs = w.store.jobs.insert id job := by
  cases c with
  | claimNext workerID now visibilityTimeout =>
    obtain ⟨⟨job?, s⟩, hs, heq⟩ := Option.map_eq_some_iff.mp h
    cases heq
    rcases MemoryStore.claimNext_cases hs with ⟨rfl, rfl⟩ | ⟨id, job₀, hl, hready, rfl, rfl⟩
    · cases hc
    · cases hc
      exact ⟨workerID, now, visibilityTimeout, id, job₀, rfl, hl, hready, rfl, rfl⟩
  | _ => cases hc

/-- **What a call can do to a stored job.** -/
theorem exec_lookup {env : QueueEnv} {c : QueueEffect} {a : c.Answer}
    (h : QueueWorld.exec env c w = some (a, w')) (id : String) :
    w'.store.jobs.lookup id = w.store.jobs.lookup id ∨
    (∃ new, enqueuedJob ⟨c, a⟩ = some new ∧ new.id = id ∧
      w'.store.jobs.lookup id = some new) ∨
    (∃ workerID now visibilityTimeout job, w.store.jobs.lookup id = some job ∧
      job.ready now = true ∧
      claimedJob ⟨c, a⟩ = some (job.claimed workerID now visibilityTimeout) ∧
      w'.store.jobs.lookup id = some (job.claimed workerID now visibilityTimeout)) ∨
    ∃ f : Job → Job, reportedID ⟨c, a⟩ = some id ∧
      w'.store.jobs.lookup id = (w.store.jobs.lookup id).map f ∧
      ∀ job, (f job).attempts = job.attempts ∧ (f job).maxAttempts = job.maxAttempts ∧
        ((f job).status = .completed ∨ (f job).status = .deadLetter ∨
          retriedID ⟨c, a⟩ = some id) := by
  have report : ∀ (jobID : String) (f : Job → Job), w'.store = w.store.update jobID f →
      id ≠ jobID → w'.store.jobs.lookup id = w.store.jobs.lookup id := by
    intro jobID f hw hne
    rw [hw, MemoryStore.lookup_update, if_neg hne]
  cases hc : claimedJob ⟨c, a⟩ with
  | some job =>
    obtain ⟨workerID, now, visibilityTimeout, id', job, -, hl, hready, rfl, hw⟩ :=
      exec_claimed h hc
    rw [hw, Table.lookup_insert_ite]
    by_cases hid : id = id'
    · subst hid
      exact .inr (.inr (.inl
        ⟨workerID, now, visibilityTimeout, job, hl, hready, rfl, if_pos rfl⟩))
    · exact .inl (if_neg hid)
  | none =>
    cases c with
    | enqueue new =>
      cases h
      rcases MemoryStore.lookup_enqueue w.store new id with hsame | ⟨rfl, hin⟩
      · exact .inl hsame
      · exact .inr (.inl ⟨new, rfl, rfl, hin⟩)
    | complete jobID now =>
      cases h
      by_cases hid : id = jobID
      · subst hid
        exact .inr (.inr (.inr ⟨(·.completed now), rfl, by simp [MemoryStore.complete],
          fun job => ⟨rfl, rfl, .inl rfl⟩⟩))
      · exact .inl (report jobID _ rfl hid)
    | retry jobID nextRun lastError now =>
      cases h
      by_cases hid : id = jobID
      · subst hid
        exact .inr (.inr (.inr ⟨(·.retried nextRun lastError now), rfl,
          by simp [MemoryStore.retry], fun job => ⟨rfl, rfl, .inr (.inr rfl)⟩⟩))
      · exact .inl (report jobID _ rfl hid)
    | deadLetter jobID lastError now =>
      cases h
      by_cases hid : id = jobID
      · subst hid
        exact .inr (.inr (.inr ⟨(·.deadLettered lastError now), rfl,
          by simp [MemoryStore.deadLetter], fun job => ⟨rfl, rfl, .inr (.inl rfl)⟩⟩))
      · exact .inl (report jobID _ rfl hid)
    | _ => exact .inl (congrArg (fun s => s.jobs.lookup id) (exec_quiet h hc rfl rfl))

/-- The invariant behind `recorded`. -/
structure Recorded (t : List QueueEntry) (w : QueueWorld) : Prop where
  enqueued : ∀ id job, w.store.jobs.lookup id = some job →
    ∃ e ∈ t, ∃ job, enqueuedJob e.exchange = some job ∧ job.id = id
  kept : ∀ id e, newest jobKey id t = some e → ∃ job, w.store.jobs.lookup id = some job
  stored : ∀ id job, w.store.jobs.lookup id = some job → StoredJob t id job

theorem Recorded.quiet (h : Recorded older w) (hw : w'.store = w.store) (hk : jobKey e = none) :
    Recorded (e :: older) w' := by
  have hid : ∀ id, jobKey e ≠ some id := by simp [hk]
  refine ⟨?_, ?_, ?_⟩
  · intro id job hl
    obtain ⟨f, hf, hjob⟩ := h.enqueued id job (hw ▸ hl)
    exact ⟨f, by simp [hf], hjob⟩
  · intro id f hf
    rw [newest_cons, if_neg (hid id)] at hf
    exact hw ▸ h.kept id f hf
  · intro id job hl
    exact (h.stored id job (hw ▸ hl)).skip (hid id)

theorem Recorded.fresh_absent {new : Job} (h : Recorded older w) (ho : Orderly (e :: older))
    (he : enqueuedJob e.exchange = some new) : w.store.jobs.lookup new.id = none := by
  cases hl : w.store.jobs.lookup new.id with
  | none => rfl
  | some job =>
    obtain ⟨f, hf, job', hjob', hid⟩ := h.enqueued _ _ hl
    exact absurd hid ((ho.fresh.1 new he).2 f hf job' hjob')

theorem Recorded.fresh_untouched {new : Job} (h : Recorded older w) (ho : Orderly (e :: older))
    (he : enqueuedJob e.exchange = some new) : newest jobKey new.id older = none := by
  cases hn : newest jobKey new.id older with
  | none => rfl
  | some f =>
    obtain ⟨job, hl⟩ := h.kept _ _ hn
    rw [h.fresh_absent ho he] at hl
    cases hl

theorem Recorded.enqueue {new : Job} (h : Recorded older w) (ho : Orderly (e :: older))
    (he : enqueuedJob e.exchange = some new) (hk : jobKey e = none)
    (hw : w'.store = w.store.enqueue new) : Recorded (e :: older) w' := by
  have hid : ∀ id, jobKey e ≠ some id := by simp [hk]
  obtain ⟨⟨q, jobType, key, payload, now, hnew⟩, -⟩ := ho.fresh.1 new he
  have huntouched := h.fresh_untouched ho he
  refine ⟨?_, ?_, ?_⟩
  · intro id job hl
    rw [hw] at hl
    rcases MemoryStore.lookup_enqueue w.store new id with hsame | ⟨rfl, -⟩
    · obtain ⟨f, hf, hjob⟩ := h.enqueued id job (hsame ▸ hl)
      exact ⟨f, by simp [hf], hjob⟩
    · exact ⟨e, by simp, new, he, rfl⟩
  · intro id f hf
    rw [newest_cons, if_neg (hid id)] at hf
    obtain ⟨job, hl⟩ := h.kept id f hf
    rw [hw]
    rcases MemoryStore.lookup_enqueue w.store new id with hsame | ⟨-, hin⟩
    · exact ⟨job, hsame ▸ hl⟩
    · exact ⟨new, hin⟩
  · intro id job hl
    rw [hw] at hl
    rcases MemoryStore.lookup_enqueue w.store new id with hsame | ⟨rfl, hin⟩
    · exact (h.stored id job (hsame ▸ hl)).skip (hid id)
    · rw [hin] at hl
      cases hl
      have hclaims : claims new.id older = 0 := by
        rw [claims, List.countP_eq_zero]
        intro f hf
        simpa using not_claimed_of_key (newest_eq_none.mp huntouched f hf)
      refine StoredJob.skip ⟨rfl, ?_, ?_, ?_⟩ (hid new.id)
      · rw [hnew]; exact q.valid.jobMaxAttempts
      · rw [hclaims, hnew]; rfl
      · rw [huntouched, hnew]; rfl

theorem Recorded.claim {workerID : String} {now : Time} {visibilityTimeout : Duration}
    (h : Recorded older w)
    (he : claimedJob e.exchange = some (job.claimed workerID now visibilityTimeout))
    (hcall : ∃ a, e.exchange = ⟨.claimNext workerID now visibilityTimeout, a⟩)
    (hl : w.store.jobs.lookup id = some job)
    (hw : w'.store.jobs = w.store.jobs.insert id (job.claimed workerID now visibilityTimeout)) :
    Recorded (e :: older) w' := by
  have hjob := h.stored id job hl
  have hk : jobKey e = some id := by rw [jobKey_of_claimed he]; exact congrArg some hjob.id_eq
  have hlookup : ∀ id', w'.store.jobs.lookup id' =
      if id' = id then some (job.claimed workerID now visibilityTimeout)
      else w.store.jobs.lookup id' := fun id' => by rw [hw, Table.lookup_insert_ite]
  refine ⟨?_, ?_, ?_⟩
  · intro id' job' hl'
    have hold : ∃ job'', w.store.jobs.lookup id' = some job'' := by
      by_cases hid : id' = id
      · exact ⟨job, hid ▸ hl⟩
      · exact ⟨job', by rw [← hl', hlookup, if_neg hid]⟩
    obtain ⟨job'', hl''⟩ := hold
    obtain ⟨f, hf, hf'⟩ := h.enqueued id' job'' hl''
    exact ⟨f, by simp [hf], hf'⟩
  · intro id' f hf
    rw [hlookup]
    by_cases hid : id' = id
    · exact ⟨_, if_pos hid⟩
    · rw [if_neg hid]
      rw [newest_cons, if_neg (by simpa [hk, eq_comm] using hid)] at hf
      exact h.kept id' f hf
  · intro id' job' hl'
    rw [hlookup] at hl'
    split at hl'
    · subst id'
      cases hl'
      refine ⟨hjob.id_eq, hjob.maxAttempts_pos, ?_, ?_⟩
      · have hatt := hjob.attempts_eq
        simp only [claims_cons, he, Option.any_some, Job.claimed, hjob.id_eq, decide_true, if_true]
        omega
      · rw [newest_cons, if_pos hk]
        obtain ⟨a, ha⟩ := hcall
        obtain ⟨i, cmd, env, x⟩ := e
        subst ha
        cases a with
        | error => cases he
        | ok job? =>
          obtain rfl : job? = some _ := he
          exact ⟨rfl, rfl, rfl⟩
    · rename_i hid
      exact (h.stored id' job' hl').skip (by simpa [hk, eq_comm] using hid)

theorem Recorded.report {f : Job → Job} (h : Recorded older w) (ho : Orderly (e :: older))
    (he : reportedID e.exchange = some id) (hc : claimedJob e.exchange = none)
    (hw : w'.store = w.store.update id f) (hid : ∀ job, (f job).id = job.id)
    (hmax : ∀ job, (f job).maxAttempts = job.maxAttempts)
    (hatt : ∀ job, (f job).attempts = job.attempts) (hleft : ∀ job, LeftBy (f job) (some e)) :
    Recorded (e :: older) w' := by
  have hk : jobKey e = some id := by simp [touchedID, he, hc]
  refine ⟨?_, ?_, ?_⟩
  · intro id' job' hl'
    rw [hw, MemoryStore.lookup_update] at hl'
    have hold : ∃ job, w.store.jobs.lookup id' = some job := by
      split at hl'
      · obtain ⟨job, hl, -⟩ := Option.map_eq_some_iff.mp hl'
        exact ⟨job, hl⟩
      · exact ⟨job', hl'⟩
    obtain ⟨job, hl⟩ := hold
    obtain ⟨g, hg, hg'⟩ := h.enqueued id' job hl
    exact ⟨g, by simp [hg], hg'⟩
  · intro id' g hg
    rw [hw, MemoryStore.lookup_update]
    by_cases hne : id' = id
    · subst id'
      obtain ⟨c, hown, -⟩ := ho.owned.1 id he
      obtain ⟨⟨-, hck⟩, mid, rest, rfl, -⟩ := newestOf_eq_some.mp hown
      have hn : newest jobKey id (mid ++ c :: rest) ≠ none :=
        fun hn => newest_eq_none.mp hn c (by simp) hck
      obtain ⟨c', hc'⟩ := Option.ne_none_iff_exists'.mp hn
      obtain ⟨job, hl⟩ := h.kept id c' hc'
      exact ⟨f job, by simp [hl]⟩
    · rw [newest_cons, if_neg (by simpa [hk, eq_comm] using hne)] at hg
      simpa [hne] using h.kept id' g hg
  · intro id' job' hl'
    rw [hw, MemoryStore.lookup_update] at hl'
    split at hl'
    · subst id'
      obtain ⟨job, hl, rfl⟩ := Option.map_eq_some_iff.mp hl'
      exact (h.stored id job hl).report hk hc (hid job) (hmax job) (hatt job) (hleft job)
    · rename_i hne
      exact (h.stored id' job' hl').skip (by simpa [hk, eq_comm] using hne)

/-- **What is stored.** After an orderly history every stored job is what the
newest call on it left, and its attempts count its claims. -/
theorem recorded (h : queueSystem.Replays t w) (ho : Orderly t) : Recorded t w := by
  revert ho
  refine System.replays_induction (M := queueSystem) (I := fun t w => Orderly t → Recorded t w)
    ?_ ?_ h
  · intro _
    exact ⟨fun _ _ h => absurd h (by simp [queueSystem, QueueWorld.empty, MemoryStore.empty]),
      fun _ _ h => by simp [newest] at h,
      fun _ _ h => absurd h (by simp [queueSystem, QueueWorld.empty, MemoryStore.empty])⟩
  · rintro ⟨i, cmd, env, ⟨c, a⟩⟩ older w₀ w₁ - ih hx ho
    have h₀ := ih ho.tail
    cases c with
    | enqueue job =>
      cases hx
      exact h₀.enqueue ho rfl rfl rfl
    | claimNext workerID now visibilityTimeout =>
      obtain ⟨⟨job?, s⟩, hs, heq⟩ := Option.map_eq_some_iff.mp hx
      cases heq
      rcases MemoryStore.claimNext_cases hs with ⟨rfl, rfl⟩ | ⟨id, job, hl, -, rfl, rfl⟩
      · exact h₀.quiet rfl rfl
      · exact h₀.claim rfl ⟨_, rfl⟩ hl rfl
    | complete jobID now =>
      cases hx
      exact h₀.report ho rfl rfl rfl (fun _ => rfl) (fun _ => rfl) (fun _ => rfl) fun _ => rfl
    | retry jobID nextRun lastError now =>
      cases hx
      exact h₀.report ho rfl rfl rfl (fun _ => rfl) (fun _ => rfl) (fun _ => rfl)
        fun _ => ⟨rfl, rfl⟩
    | deadLetter jobID lastError now =>
      cases hx
      exact h₀.report ho rfl rfl rfl (fun _ => rfl) (fun _ => rfl) (fun _ => rfl) fun _ => rfl
    | now => exact h₀.quiet (exec_quiet (c := .now) (a := a) hx rfl rfl rfl) rfl
    | newID pfx => exact h₀.quiet (exec_quiet (c := .newID pfx) (a := a) hx rfl rfl rfl) rfl
    | handle job => exact h₀.quiet (exec_quiet (c := .handle job) (a := a) hx rfl rfl rfl) rfl

/-! ## Runs are orderly -/

/-- What an enqueue or a worker has exchanged before it enqueues, claims or reports. -/
def QueueAsks (_ : QueueCommand) (h : List QueueExchange) (c : QueueEffect) : Prop :=
  (∀ job, c = .enqueue job → ∃ q id jobType key payload now,
    job = Queue.newJob q id jobType key payload now ∧
    h = [⟨.newID prefixJob, id⟩, ⟨.now, now⟩]) ∧
  (∀ workerID now visibilityTimeout, c = .claimNext workerID now visibilityTimeout →
    ⟨.now, now⟩ ∈ h) ∧
  ∀ a id, reportedID ⟨c, a⟩ = some id → ∃ x job,
    h.find? (touchedID · = some id) = some x ∧ claimedJob x = some job ∧
    ((retriedID ⟨c, a⟩).isSome → job.attempts < job.maxAttempts)

theorem quiet_asks (cmd : QueueCommand) (h : List QueueExchange) {c : QueueEffect}
    (hc : c = .now ∨ (∃ pfx, c = .newID pfx) ∨ ∃ job, c = .handle job) : QueueAsks cmd h c := by
  rcases hc with rfl | ⟨pfx, rfl⟩ | ⟨job, rfl⟩ <;> exact ⟨by simp, by simp, by simp [reportedID]⟩

theorem Queue.enqueue_asks (q : Queue) (jobType key : String) (payload : Except AppError String)
    (cmd : QueueCommand) :
    Program.Follows (QueueAsks cmd) (fun _ _ => True) [] (q.enqueue jobType key payload) := by
  cases payload with
  | error e => trivial
  | ok raw =>
    refine ⟨quiet_asks cmd _ (.inl rfl), fun now => ⟨quiet_asks cmd _ (.inr (.inl ⟨_, rfl⟩)),
      fun id => ⟨⟨?_, by simp, by simp [reportedID]⟩, fun a => ?_⟩⟩⟩
    · rintro job ⟨⟩
      exact ⟨q, id, jobType, key, raw, now, rfl, rfl⟩
    · cases a <;> trivial

theorem find_claim {x : QueueExchange} (hx : claimedJob x = some job) (h : List QueueExchange) :
    (x :: h).find? (touchedID · = some job.id) = some x :=
  List.find?_cons_of_pos (by simp [touchedID, hx])

theorem find_skip {x : QueueExchange} (hx : touchedID x = none) (h : List QueueExchange) :
    (x :: h).find? (touchedID · = some id) = h.find? (touchedID · = some id) :=
  List.find?_cons_of_neg (by simp [hx])

theorem Runner.fail_asks (r : Runner) (message : String) (cmd : QueueCommand)
    {h : List QueueExchange} {x : QueueExchange}
    (hx : h.find? (touchedID · = some job.id) = some x) (hc : claimedJob x = some job) :
    Program.Follows (QueueAsks cmd) (fun _ _ => True) h (r.fail job message) := by
  refine ⟨quiet_asks cmd _ (.inl rfl), fun now => ?_⟩
  have hx' : List.find? (touchedID · = some job.id) ((⟨.now, now⟩ : QueueExchange) :: h) = some x :=
    (find_skip rfl h).trans hx
  simp only [Program.ret_bind]
  by_cases hmax : job.attempts ≥ job.maxAttempts
  · rw [if_pos hmax]
    refine ⟨⟨by simp, by simp, fun a id hid => ?_⟩, fun a => trivial⟩
    cases hid
    exact ⟨x, job, hx', hc, fun hr => by cases hr⟩
  · rw [if_neg hmax]
    refine ⟨⟨by simp, by simp, fun a id hid => ?_⟩, fun a => trivial⟩
    cases hid
    exact ⟨x, job, hx', hc, fun _ => not_le.mp hmax⟩

theorem Runner.processOnce_asks (r : Runner) (cmd : QueueCommand) :
    Program.Follows (QueueAsks cmd) (fun _ _ => True) [] r.processOnce := by
  refine ⟨quiet_asks cmd _ (.inl rfl), fun now =>
    ⟨⟨by simp, by simp, by simp [reportedID]⟩, ?_⟩⟩
  rintro (e | _ | job)
  · trivial
  · trivial
  · by_cases hh : r.handles job.type = true
    · simp only [Program.ret_bind, hh, Bool.not_true, Bool.false_eq_true, ↓reduceIte]
      refine ⟨quiet_asks cmd _ (.inr (.inr ⟨_, rfl⟩)), ?_⟩
      rintro (_ | message)
      · refine ⟨quiet_asks cmd _ (.inl rfl), fun now' =>
          ⟨⟨by simp, by simp, ?_⟩, fun a => trivial⟩⟩
        rintro a id ⟨⟩
        exact ⟨_, job, (find_skip rfl _).trans ((find_skip rfl _).trans (find_claim rfl _)), rfl,
          fun hr => by cases hr⟩
      · exact r.fail_asks message cmd ((find_skip rfl _).trans (find_claim rfl _)) rfl
    · rw [Bool.not_eq_true] at hh
      simp only [Program.ret_bind, hh, Bool.not_false, ↓reduceIte]
      exact r.fail_asks _ cmd (find_claim rfl _) rfl

theorem QueueCommand.program_asks (cmd : QueueCommand) :
    Program.Follows (QueueAsks cmd) (fun _ _ => True) [] cmd.program := by
  cases cmd with
  | enqueue q jobType key payload => exact q.enqueue_asks jobType key payload _
  | processOnce r => exact r.processOnce_asks _

/-- The id a call drew for a job. -/
def jobDraws (e : QueueEntry) : Option String :=
  match e.exchange with
  | ⟨.newID pfx, id⟩ => if pfx = prefixJob then some id else none
  | _ => none

theorem jobDraws_eq_some : jobDraws e = some id → e.exchange = ⟨.newID prefixJob, id⟩ := by
  intro h
  unfold jobDraws at h
  split at h
  · split at h
    · subst_vars; cases h; assumption
    · cases h
  · cases h

theorem exec_issued {env : QueueEnv} {c : QueueEffect} {a : c.Answer}
    (h : QueueWorld.exec env c w = some (a, w')) : w.issued ⊆ w'.issued := by
  cases c with
  | newID pfx =>
    simp only [QueueWorld.exec] at h
    split at h
    · cases h
    · cases h; exact List.subset_cons_self _ _
  | claimNext workerID now visibilityTimeout =>
    obtain ⟨r, -, he⟩ := Option.map_eq_some_iff.mp h
    cases he; exact List.Subset.refl _
  | _ => cases h; exact List.Subset.refl _

theorem fresh_job_draws (h : queueSystem.Replays t w) : FreshDraws jobDraws t := by
  refine System.fresh_of_used (M := queueSystem)
    (U := fun w id => ∃ u ∈ w.issued, id = newID prefixJob u) ?_ ?_ h
  · rintro env c a w₀ w₁ he id ⟨u, hu, rfl⟩
    exact ⟨u, exec_issued he hu, rfl⟩
  · rintro ⟨i, cmd, env, x⟩ w₀ w₁ he id hid
    obtain rfl := jobDraws_eq_some hid
    simp only [queueSystem, QueueWorld.exec] at he
    split at he
    · cases he
    · rename_i hnew
      cases he
      refine ⟨?_, env.ulid, by simp, rfl⟩
      rintro ⟨u, hu, hold⟩
      obtain rfl := newID_injective prefixJob hold
      exact hnew hu

def jobWrites (e : QueueEntry) : Option (String × Job) :=
  (enqueuedJob e.exchange).map fun job => (job.id, job)

theorem jobWrites_eq_some : jobWrites e = some (id, job) ↔
    e.exchange.call = .enqueue job ∧ job.id = id := by
  obtain ⟨i, cmd, env, ⟨c, a⟩⟩ := e
  cases c <;> simp [jobWrites, enqueuedJob]
  rename_i job'
  constructor
  · rintro ⟨rfl, rfl⟩; exact ⟨rfl, rfl⟩
  · rintro ⟨rfl, rfl⟩; exact ⟨rfl, rfl⟩

/-- The newest call of a worker on a job, from the worker's own history. -/
theorem find_threadHistory (i : ℕ) (id : String) (t : List QueueEntry) :
    (threadHistory i t).find? (touchedID · = some id) =
      (newestOf jobKey worker i id t).map (·.exchange) := by
  induction t with
  | nil => rfl
  | cons e t ih =>
    rw [threadHistory_cons]
    by_cases hi : e.thread = i <;> by_cases hk : jobKey e = some id <;>
      simp_all [newestOf]

variable {ms : List QueueMove} {p : QueuePool}

/-- **Runs of the queue are orderly.** -/
theorem run_orderly (h : queueSystem.run ms = some p) : Orderly p.trace := by
  have hasks := System.run_always QueueCommand.program_asks h
  have hfresh := fresh_job_draws (System.run_replays h)
  have hcreates : Always (fun older e => ∀ id job, jobWrites e = some (id, job) →
      Creates jobWrites jobDraws worker older e id) p.trace := by
    refine hasks.mono fun older e ha id job hw => ?_
    obtain ⟨hcall, rfl⟩ := jobWrites_eq_some.mp hw
    obtain ⟨q, id, jobType, key, payload, now, rfl, hh⟩ := ha.1 job hcall
    refine ⟨?_, ?_⟩
    · obtain ⟨d, hd, hi, hx⟩ := mem_threadHistory.mp
        (show (⟨.newID prefixJob, id⟩ : QueueExchange) ∈ threadHistory e.thread older by simp [hh])
      exact ⟨d, hd, hi, by simp [jobDraws, hx, Queue.newJob]⟩
    · intro f hf hi job hw
      have hmem := mem_threadHistory.mpr ⟨f, hf, hi, rfl⟩
      obtain ⟨hcall', -⟩ := jobWrites_eq_some.mp hw
      rw [hh] at hmem
      rcases List.mem_cons.mp hmem with hx | hmem
      · rw [hx] at hcall'; cases hcall'
      · rw [List.mem_singleton.mp hmem] at hcall'; cases hcall'
  have hfounded : Founded jobWrites jobDraws worker p.trace :=
    hcreates.mono fun older e hc id job hw => .inl (hc id job hw)
  refine ⟨?_, ?_⟩
  · rw [always_iff]
    intro newer e older ht job hjob
    have hw : jobWrites e = some (job.id, job) := by simp [jobWrites, hjob]
    obtain ⟨hcall, -⟩ := jobWrites_eq_some.mp hw
    rw [ht] at hasks hcreates hfresh hfounded
    refine ⟨?_, ?_⟩
    · obtain ⟨q, id, jobType, key, payload, now, hnew, -⟩ := hasks.at.1 job hcall
      exact ⟨q, jobType, key, payload, now, by rw [hnew]; rfl⟩
    · intro f hf job' hf' hid
      have hfirst := (hcreates.at job.id job hw).first hfresh.of_append.2 hfounded.of_append.2
      exact lastWrite_eq_none.mp hfirst f hf job' (by simp [jobWrites, hf', hid])
  · refine hasks.mono fun older e ha id hid => ?_
    obtain ⟨x, job, hx, hc, -⟩ := ha.2.2 e.exchange.answer id hid
    rw [find_threadHistory] at hx
    obtain ⟨c, hn, rfl⟩ := Option.map_eq_some_iff.mp hx
    exact ⟨c, hn, by simp [hc]⟩

end WaveCast.Async
