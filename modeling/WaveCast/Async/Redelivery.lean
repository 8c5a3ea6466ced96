import WaveCast.Async.Ownership

/-!
# Redelivery

What late workers can do to a job, in runs with any clock and any timing:

* a completed job is never claimed again iff no worker reports `Retry` on it
  after `Complete` (`completed_stay_done_iff`);
* a job is claimed at most `MaxAttempts` times iff no `Retry` puts back a job
  without attempts left and none that is running its last attempt is the first
  ready one at a claim (`attempts_bounded_iff`).
-/

namespace WaveCast.Async

open Interaction

variable {ms : List QueueMove} {p : QueuePool} {t older : List QueueEntry} {w : QueueWorld}
  {id : String} {job : Job}

/-! ## Completed jobs -/

/-- `Complete` has been applied to the job. -/
def Completed (id : String) (t : List QueueEntry) : Prop :=
  ∃ e ∈ t, completedID e.exchange = some id

instance (id : String) (t : List QueueEntry) : Decidable (Completed id t) :=
  inferInstanceAs (Decidable (∃ e ∈ t, _))

/-- No `ClaimNext` of the run returns a job after `Complete` was applied to it. -/
def NoneClaimedAgain (t : List QueueEntry) : Prop :=
  Always (fun older e => ∀ job ∈ claimedJob e.exchange, ¬ Completed job.id older) t

instance (t : List QueueEntry) : Decidable (NoneClaimedAgain t) :=
  inferInstanceAs (Decidable (Always _ t))

/-- In no state of the run can `ClaimNext` return a job to which `Complete`
was applied. -/
def CompletedStayDone (ms : List QueueMove) : Prop :=
  ∀ n q id, queueSystem.run (ms.take n) = some q → Completed id q.trace →
    ∀ env workerID now visibilityTimeout job w', QueueWorld.exec env
      (.claimNext workerID now visibilityTimeout) q.state = some (.ok (some job), w') → job.id ≠ id

/-- No `Retry` is applied to a job after `Complete`. -/
def NoLateRetry (t : List QueueEntry) : Prop :=
  Always (fun older e => ∀ id ∈ retriedID e.exchange, ¬ Completed id older) t

instance (t : List QueueEntry) : Decidable (NoLateRetry t) :=
  inferInstanceAs (Decidable (Always _ t))

theorem completedID_touches {e : QueueEntry} (h : completedID e.exchange = some id) :
    jobKey e = some id := by
  obtain ⟨i, cmd, env, ⟨c, a⟩⟩ := e
  cases c <;> first | exact h | cases h

/-- Without late retries a completed job stays completed or dead-lettered. -/
theorem terminal_of_completed (h : queueSystem.Replays t w) (ho : Orderly t) (hn : NoLateRetry t)
    (hc : Completed id t) (hl : w.store.jobs.lookup id = some job) :
    job.status = .completed ∨ job.status = .deadLetter := by
  induction t generalizing w job with
  | nil => simp [Completed] at hc
  | cons e older ih =>
    have hrec := recorded h ho
    obtain ⟨w₀, h₀, hx⟩ := h
    by_cases he : completedID e.exchange = some id
    · have hleft := (hrec.stored id job hl).left
      rw [newest_cons, if_pos (completedID_touches he)] at hleft
      obtain ⟨i, cmd, env, ⟨c, a⟩⟩ := e
      cases c <;> first | exact .inl hleft | cases he
    · have hc₀ : Completed id older := by
        obtain ⟨f, hf, hid⟩ := hc
        rcases List.mem_cons.mp hf with rfl | hf
        · exact absurd hid he
        · exact ⟨f, hf, hid⟩
      have ih : ∀ job, w₀.store.jobs.lookup id = some job →
          job.status = .completed ∨ job.status = .deadLetter :=
        fun job hl => ih h₀ ho.tail hn.2 hc₀ hl
      rcases exec_lookup hx id with hsame | ⟨new, hnew, rfl, -⟩ |
        ⟨_, now', _, job', hl', hready, -, -⟩ | ⟨f, -, hmap, hf⟩
      · exact ih job (hsame ▸ hl)
      · obtain ⟨f, hf, hid⟩ := hc₀
        have huntouched := (recorded h₀ ho.tail).fresh_untouched ho hnew
        exact absurd (completedID_touches hid) (newest_eq_none.mp huntouched f hf)
      · rw [Job.not_ready now' (ih job' hl')] at hready
        cases hready
      · rw [hmap] at hl
        obtain ⟨job', hl', rfl⟩ := Option.map_eq_some_iff.mp hl
        rcases (hf job').2.2 with hs | hs | hr
        · exact .inl hs
        · exact .inr hs
        · exact absurd hc₀ (hn.1 id hr)

theorem retriedID_touches {e : QueueEntry} (h : retriedID e.exchange = some id) :
    jobKey e = some id := by
  obtain ⟨i, cmd, env, ⟨c, a⟩⟩ := e
  cases c <;> first | exact h | cases h

/-- After `Retry` the next claim may return the job. -/
theorem exists_claim_after_retry {e : QueueEntry} (h : queueSystem.Replays (e :: older) w)
    (ho : Orderly (e :: older)) (hr : retriedID e.exchange = some id) :
    ∃ env workerID now visibilityTimeout job w', QueueWorld.exec env
      (.claimNext workerID now visibilityTimeout) w = some (.ok (some job), w') ∧ job.id = id := by
  have hrec := recorded h ho
  have hnew : newest jobKey id (e :: older) = some e := by
    rw [newest_cons, if_pos (retriedID_touches hr)]
  obtain ⟨job, hl⟩ := hrec.kept id e hnew
  have hstored := hrec.stored id job hl
  have hleft := hstored.left
  rw [hnew] at hleft
  obtain ⟨i, cmd, env, ⟨c, a⟩⟩ := e
  cases c with
  | retry jobID nextRun lastError now =>
    have hready : job.ready nextRun = true :=
      Job.ready_iff.mpr ⟨hleft.2.le, .inr (.inl hleft.1)⟩
    obtain ⟨order, s', hclaim⟩ := MemoryStore.exists_claim hl hready "" 0
    exact ⟨{ env with order }, "", nextRun, 0, job.claimed "" nextRun 0, { w with store := s' },
      by rw [QueueWorld.exec, hclaim]; rfl, hstored.id_eq⟩
  | _ => cases hr

theorem noneClaimedAgain_of_noLateRetry (h : queueSystem.run ms = some p)
    (hn : NoLateRetry p.trace) : NoneClaimedAgain p.trace := by
  have hrep := System.run_replays h
  have ho := run_orderly h
  rw [NoneClaimedAgain, always_iff]
  intro newer e older ht job hjob hc
  rw [ht] at hrep ho hn
  obtain ⟨w₁, w₀, h₀, hx⟩ := hrep.of_append
  obtain ⟨_, now, _, id, job₀, -, hl, hready, rfl, -⟩ := exec_claimed hx hjob
  have hid := ((recorded h₀ ho.of_append.tail).stored id job₀ hl).id_eq
  have hterm := terminal_of_completed h₀ ho.of_append.tail hn.of_append.2 (hid ▸ hc) hl
  rw [Job.not_ready now hterm] at hready
  cases hready

/-- **A completed job is never claimed again** iff no worker reports `Retry`
on it after `Complete` was applied. -/
theorem completed_stay_done_iff (ms : List QueueMove) (p : QueuePool)
    (h : queueSystem.run ms = some p) :
    (CompletedStayDone ms ↔ NoLateRetry p.trace) ∧
      (NoLateRetry p.trace → NoneClaimedAgain p.trace) := by
  refine ⟨⟨?_, ?_⟩, noneClaimedAgain_of_noLateRetry h⟩
  · intro hdone
    rw [NoLateRetry, always_iff]
    intro newer e older ht id hr hc
    obtain ⟨n, q, hq, hqt⟩ := System.run_prefix h ht
    have hrep := System.run_replays hq
    have ho := run_orderly hq
    rw [hqt] at hrep ho
    obtain ⟨env, workerID, now, visibilityTimeout, job, w', hx, hid⟩ :=
      exists_claim_after_retry hrep ho hr
    have hc' : Completed id q.trace := by
      rw [hqt]
      obtain ⟨f, hf, hf'⟩ := hc
      exact ⟨f, by simp [hf], hf'⟩
    exact hdone n q id hq hc' env workerID now visibilityTimeout job w' hx hid
  · intro hn n q id hq hc env workerID now visibilityTimeout job w' hx hid
    obtain ⟨q', newer, hq', hn'⟩ := System.run_take h n
    rw [hq] at hq'
    cases hq'
    rw [hn'] at hn
    have hrep := System.run_replays hq
    have ho := run_orderly hq
    obtain ⟨_, now', _, id', job₀, -, hl, hready, rfl, -⟩ := exec_claimed hx rfl
    have hid' : id' = id := ((recorded hrep ho).stored id' job₀ hl).id_eq.symm.trans hid
    have hterm := terminal_of_completed hrep ho hn.of_append (hid' ▸ hc) hl
    rw [Job.not_ready now' hterm] at hready
    cases hready

/-- The handler of the first worker outlives its lock of 300 seconds; the
second worker completes the job, then the first one fails. -/
def lateRetryMoves : List QueueMove :=
  enqueueMoves 5 ++ workerMoves 5 1 [callAt 1, callAt 1] ++
    workerMoves 5 2 [callAt 302, callAt 302, callAt 303, callAt 303, callAt 303] ++
    [.call 1 (failingAt 304), .call 1 (callAt 304), .call 1 (callAt 304)] ++
    workerMoves 5 3 [callAt 310, callAt 310]

theorem completed_stay_done_fails :
    ¬ ∀ (ms : List QueueMove) (p : QueuePool), queueSystem.run ms = some p →
      NoneClaimedAgain p.trace := by
  intro hclaim
  have hrun : (queueSystem.run lateRetryMoves).any (fun p => !decide (NoneClaimedAgain p.trace)) =
      true := by decide +kernel
  obtain ⟨p, hp, hagain⟩ := (Option.any_eq_true _ _).mp hrun
  rw [Bool.not_eq_true', decide_eq_false_iff_not] at hagain
  exact hagain (hclaim _ p hp)

theorem completed_stay_done_timely :
    ∃ p, queueSystem.run timelyMoves = some p ∧ Completed sampleJob p.trace ∧
      CompletedStayDone timelyMoves ∧ NoneClaimedAgain p.trace := by
  have hrun : (queueSystem.run timelyMoves).any (fun p =>
      Completed sampleJob p.trace ∧ NoLateRetry p.trace) = true := by decide +kernel
  obtain ⟨p, hp, hfacts⟩ := (Option.any_eq_true _ _).mp hrun
  obtain ⟨hcompleted, hretry⟩ := of_decide_eq_true hfacts
  obtain ⟨hdone, hnone⟩ := completed_stay_done_iff _ p hp
  exact ⟨p, hp, hcompleted, hdone.mpr hretry, hnone hretry⟩

/-! ## Bounded attempts -/

/-- The job has no attempts left. -/
def Job.UsedUp (job : Job) : Prop := job.maxAttempts ≤ job.attempts

/-- In every state of the run every job has been claimed at most `MaxAttempts` times. -/
def AttemptsBounded (ms : List QueueMove) : Prop :=
  ∀ n q id job, queueSystem.run (ms.take n) = some q → q.state.store.jobs.lookup id = some job →
    job.attempts ≤ job.maxAttempts ∧ claims id q.trace ≤ job.maxAttempts

/-- In no state of the run a job without attempts left waits for another delivery. -/
def NoneLeftWaiting (ms : List QueueMove) : Prop :=
  ∀ n q id job, queueSystem.run (ms.take n) = some q → q.state.store.jobs.lookup id = some job →
    job.UsedUp → job.status = .running ∨ job.status = .completed ∨ job.status = .deadLetter

/-- A worker puts a job back only if its claim was not the last one. -/
def LastFailuresDeadLettered (t : List QueueEntry) : Prop :=
  Always (fun older e => ∀ id, retriedID e.exchange = some id → ∃ c job,
    newestOf jobKey worker e.thread id older = some c ∧ claimedJob c.exchange = some job ∧
    job.attempts < job.maxAttempts) t

/-- The call is a `ClaimNext` that comes to the job first of those that are ready in `w`. -/
def ComesFirst (w : QueueWorld) (e : QueueEntry) (id : String) : Prop :=
  ∃ workerID now visibilityTimeout,
    e.exchange.call = .claimNext workerID now visibilityTimeout ∧
    (e.env.order.find? fun id => (w.store.jobs.lookup id).any (·.ready now)) = some id

/-- No `Retry` puts back a job without attempts left, and none that is running
its last attempt is the first ready one, its lock having ended, at a `ClaimNext`. -/
def LastAttemptsKept (t : List QueueEntry) : Prop :=
  ∀ newer e older w id job, t = newer ++ e :: older → queueSystem.Replays older w →
    w.store.jobs.lookup id = some job → job.UsedUp →
    retriedID e.exchange ≠ some id ∧ (ComesFirst w e id → job.status ≠ .running)

section First

variable {w' : QueueWorld} {e : QueueEntry}
  (hx : QueueWorld.exec e.env e.exchange.call w = some (e.exchange.answer, w'))

include hx

theorem ComesFirst.claimed (h : ComesFirst w e id) (hl : w.store.jobs.lookup id = some job) :
    ∃ workerID now visibilityTimeout,
      claimedJob e.exchange = some (job.claimed workerID now visibilityTimeout) := by
  obtain ⟨workerID, now, visibilityTimeout, hcall, hfirst⟩ := h
  refine ⟨workerID, now, visibilityTimeout, ?_⟩
  obtain ⟨i, cmd, env, ⟨c, a⟩⟩ := e
  cases hcall
  obtain ⟨⟨job?, s⟩, hs, heq⟩ := Option.map_eq_some_iff.mp hx
  cases heq
  have hjob := MemoryStore.claimNext_eq hs
  rw [hfirst, Option.bind_some, hl, Option.map_some] at hjob
  exact hjob

theorem comesFirst_of_claimed {job' : Job} (hc : claimedJob e.exchange = some job')
    (hid : ∀ k job, w.store.jobs.lookup k = some job → job.id = k) : ComesFirst w e job'.id := by
  obtain ⟨workerID, now, visibilityTimeout, -, -, hcall, -⟩ := exec_claimed hx hc
  refine ⟨workerID, now, visibilityTimeout, hcall, ?_⟩
  obtain ⟨i, cmd, env, ⟨c, a⟩⟩ := e
  cases hcall
  obtain ⟨⟨job?, s⟩, hs, heq⟩ := Option.map_eq_some_iff.mp hx
  cases heq
  have hjob := (MemoryStore.claimNext_eq hs).symm.trans hc
  obtain ⟨k, hfirst, hmap⟩ := Option.bind_eq_some_iff.mp hjob
  obtain ⟨job, hl, rfl⟩ := Option.map_eq_some_iff.mp hmap
  rw [show (job.claimed workerID now visibilityTimeout).id = k from hid k job hl]
  exact hfirst

end First

theorem LastAttemptsKept.of_append {newer older : List QueueEntry}
    (h : LastAttemptsKept (newer ++ older)) : LastAttemptsKept older := by
  rintro newer' e older' w id job rfl
  exact h (newer ++ newer') e older' w id job (by simp)

theorem LastAttemptsKept.tail {e : QueueEntry} (h : LastAttemptsKept (e :: older)) :
    LastAttemptsKept older :=
  of_append (show LastAttemptsKept ([e] ++ older) from h)

/-- What is done or running its last attempt is only ready when it is running. -/
theorem running_of_ready {now : Time} (hready : job.ready now = true)
    (h : job.status = .running ∨ job.status = .completed ∨ job.status = .deadLetter) :
    job.status = .running := by
  rcases (Job.ready_iff.mp hready).2 with hs | hs | ⟨hs, -⟩
  · rcases h with h | h | h <;> rw [hs] at h <;> cases h
  · rcases h with h | h | h <;> rw [hs] at h <;> cases h
  · exact hs

theorem bounded_of_kept (h : queueSystem.Replays t w) (ho : Orderly t) (hk : LastAttemptsKept t)
    (hl : w.store.jobs.lookup id = some job) : job.attempts ≤ job.maxAttempts ∧
      (job.UsedUp → job.status = .running ∨ job.status = .completed ∨
        job.status = .deadLetter) := by
  induction t generalizing w id job with
  | nil =>
    cases h
    simp [queueSystem, QueueWorld.empty, MemoryStore.empty] at hl
  | cons e older ih =>
    obtain ⟨w₀, h₀, hx⟩ := h
    have hrec := recorded h₀ ho.tail
    have ih : ∀ job, w₀.store.jobs.lookup id = some job → job.attempts ≤ job.maxAttempts ∧
        (job.UsedUp → job.status = .running ∨ job.status = .completed ∨
          job.status = .deadLetter) :=
      fun job hl => ih h₀ ho.tail hk.tail hl
    have hkept : ∀ job, w₀.store.jobs.lookup id = some job → job.UsedUp →
        retriedID e.exchange ≠ some id ∧ (ComesFirst w₀ e id → job.status ≠ .running) :=
      fun job hl hu => hk [] e older w₀ id job rfl h₀ hl hu
    rcases exec_lookup hx id with hsame | ⟨new, hnew, hid, hin⟩ |
      ⟨workerID, now, visibilityTimeout, job₀, hl₀, hready, hc, hin⟩ | ⟨f, -, hmap, hf⟩
    · exact ih job (hsame ▸ hl)
    · -- a new job has made no attempt
      obtain rfl : new = job := Option.some.inj (hin.symm.trans hl)
      obtain ⟨⟨q, jobType, key, payload, now, hnew'⟩, -⟩ := ho.fresh.1 new hnew
      have hpos := q.valid.jobMaxAttempts
      have hatt : new.attempts = 0 ∧ new.maxAttempts = q.cfg.jobMaxAttempts := by
        rw [hnew']; exact ⟨rfl, rfl⟩
      refine ⟨by omega, fun hu => ?_⟩
      unfold Job.UsedUp at hu
      omega
    · rw [hin] at hl
      cases hl
      have hleft : ¬ job₀.UsedUp := by
        intro hu
        have hfirst : ComesFirst w₀ e id := by
          have hfirst := comesFirst_of_claimed hx hc fun k job hl => (hrec.stored k job hl).id_eq
          rwa [show (job₀.claimed workerID now visibilityTimeout).id = id from
            (hrec.stored id job₀ hl₀).id_eq] at hfirst
        exact (hkept job₀ hl₀ hu).2 hfirst (running_of_ready hready ((ih job₀ hl₀).2 hu))
      unfold Job.UsedUp at hleft
      exact ⟨by simp only [Job.claimed]; omega, fun _ => .inl rfl⟩
    · rw [hmap] at hl
      obtain ⟨job₀, hl₀, rfl⟩ := Option.map_eq_some_iff.mp hl
      obtain ⟨hatt, hmax, hst⟩ := hf job₀
      refine ⟨by rw [hatt, hmax]; exact (ih job₀ hl₀).1, fun hu => ?_⟩
      rcases hst with hs | hs | hr
      · exact .inr (.inl hs)
      · exact .inr (.inr hs)
      · rw [Job.UsedUp, hatt, hmax] at hu
        exact absurd hr (hkept job₀ hl₀ hu).1

theorem exec_retry {env : QueueEnv} {c : QueueEffect} {a : c.Answer} {w' : QueueWorld}
    (h : QueueWorld.exec env c w = some (a, w')) (hr : retriedID ⟨c, a⟩ = some id)
    (hl : w.store.jobs.lookup id = some job) :
    ∃ job', w'.store.jobs.lookup id = some job' ∧ job'.status = .retrying ∧
      job'.attempts = job.attempts ∧ job'.maxAttempts = job.maxAttempts := by
  cases c with
  | retry jobID nextRun lastError now =>
    cases h
    cases hr
    exact ⟨job.retried nextRun lastError now, by simp [MemoryStore.retry, hl], rfl, rfl, rfl⟩
  | _ => cases hr

theorem last_failures_deadLettered (h : queueSystem.run ms = some p) :
    LastFailuresDeadLettered p.trace := by
  refine (System.run_always QueueCommand.program_asks h).mono fun older e ha id hr => ?_
  obtain ⟨i, cmd, env, ⟨c, a⟩⟩ := e
  cases c with
  | retry jobID nextRun lastError now =>
    cases hr
    obtain ⟨x, job, hx, hc, hlt⟩ := ha.2.2 a id rfl
    rw [find_threadHistory] at hx
    obtain ⟨c, hn, rfl⟩ := Option.map_eq_some_iff.mp hx
    exact ⟨c, job, hn, hc, hlt rfl⟩
  | _ => cases hr

/-- **Bounded attempts.** A job is claimed at most `MaxAttempts` times and not
put back after that iff no `Retry` puts back a job without attempts left and no
`ClaimNext` comes first to one whose last attempt is running. A last attempt that
reports a failure is never put back by its own worker. -/
theorem attempts_bounded_iff (ms : List QueueMove) (p : QueuePool)
    (h : queueSystem.run ms = some p) :
    (AttemptsBounded ms ∧ NoneLeftWaiting ms ↔ LastAttemptsKept p.trace) ∧
      LastFailuresDeadLettered p.trace := by
  refine ⟨⟨?_, ?_⟩, last_failures_deadLettered h⟩
  · rintro ⟨hbound, hwait⟩ newer e older w id job ht hw hl hu
    obtain ⟨n, q, hq, hqt⟩ := System.run_prefix h ht
    have hrep := System.run_replays hq
    have ho := run_orderly hq
    rw [hqt] at hrep ho
    have hrec := recorded hrep ho
    obtain ⟨w₀, h₀, hx⟩ := hrep
    obtain rfl := h₀.unique hw
    refine ⟨fun hr => ?_, fun hfirst => ?_⟩
    · obtain ⟨job', hl', hs, hatt, hmax⟩ := exec_retry hx hr hl
      have hu' : job'.UsedUp := by rw [Job.UsedUp, hatt, hmax]; exact hu
      rcases hwait n q id job' hq hl' hu' with h | h | h <;> rw [hs] at h <;> cases h
    · obtain ⟨workerID, now, visibilityTimeout, hc⟩ := hfirst.claimed hx hl
      obtain ⟨_, _, _, id', job₀, -, hl₀, -, hjob, hw⟩ := exec_claimed hx hc
      have hstored := (recorded h₀ ho.tail).stored
      have hsame : id' = id := (hstored id' job₀ hl₀).id_eq.symm.trans
        ((congrArg Job.id hjob).symm.trans (hstored id job hl).id_eq)
      subst hsame
      have hle := (hbound n q id' _ hq (by rw [hw, Table.lookup_insert_ite, if_pos rfl])).1
      simp only [Job.claimed] at hle
      unfold Job.UsedUp at hu
      omega
  · intro hk
    have hstate : ∀ n q id job, queueSystem.run (ms.take n) = some q →
        q.state.store.jobs.lookup id = some job → job.attempts ≤ job.maxAttempts ∧
        (job.UsedUp → job.status = .running ∨ job.status = .completed ∨
          job.status = .deadLetter) := by
      intro n q id job hq hl
      obtain ⟨q', newer, hq', hn⟩ := System.run_take h n
      rw [hq] at hq'
      cases hq'
      rw [hn] at hk
      exact bounded_of_kept (System.run_replays hq) (run_orderly hq) hk.of_append hl
    refine ⟨fun n q id job hq hl => ?_, fun n q id job hq hl => (hstate n q id job hq hl).2⟩
    have hle := (hstate n q id job hq hl).1
    have hatt := ((recorded (System.run_replays hq) (run_orderly hq)).stored id job hl).attempts_eq
    exact ⟨hle, hatt ▸ hle⟩

/-- The worker of the only attempt crashes; its lock of 300 seconds ends. -/
def crashMoves : List QueueMove :=
  enqueueMoves 1 ++ workerMoves 1 1 [callAt 1, callAt 1] ++ workerMoves 1 2 [callAt 302, callAt 302]

theorem attempts_bounded_fails :
    ¬ ∀ (ms : List QueueMove) (p : QueuePool), queueSystem.run ms = some p →
      AttemptsBounded ms := by
  intro hclaim
  have hrun : (queueSystem.run crashMoves).any (fun p =>
      (p.state.store.jobs.lookup sampleJob).any fun job => job.maxAttempts < job.attempts) =
      true := by decide +kernel
  obtain ⟨p, hp, hjob⟩ := (Option.any_eq_true _ _).mp hrun
  obtain ⟨job, hl, hlt⟩ := (Option.any_eq_true _ _).mp hjob
  have hle := (hclaim crashMoves p hp crashMoves.length p sampleJob job
    (by rw [List.take_length]; exact hp) hl).1
  exact absurd hle (not_le.mpr (of_decide_eq_true hlt))

/-- Where no job ever uses up its attempts, the last ones are kept. -/
theorem lastAttemptsKept_of_left (h : queueSystem.run ms = some p)
    (hleft : ∀ n q id job, queueSystem.run (ms.take n) = some q →
      q.state.store.jobs.lookup id = some job → job.attempts < job.maxAttempts) :
    LastAttemptsKept p.trace := by
  intro newer e older w id job ht hw hl hu
  obtain ⟨n, q, hq, rfl⟩ := System.run_prefix h
    (show p.trace = (newer ++ [e]) ++ older by rw [ht, List.append_cons])
  obtain rfl := (System.run_replays hq).unique hw
  exact absurd hu (not_le.mpr (hleft n q id job hq hl))

theorem attempts_bounded_timely :
    ∃ p, queueSystem.run timelyMoves = some p ∧ claims sampleJob p.trace = 2 ∧
      AttemptsBounded timelyMoves ∧ NoneLeftWaiting timelyMoves ∧
      LastFailuresDeadLettered p.trace := by
  have hrun : (queueSystem.run timelyMoves).any (fun p => claims sampleJob p.trace = 2) = true := by
    decide +kernel
  obtain ⟨p, hp, htwo⟩ := (Option.any_eq_true _ _).mp hrun
  have hall : ∀ n ∈ List.range (timelyMoves.length + 1),
      (queueSystem.run (timelyMoves.take n)).all (fun q => decide (∀ k ∈ q.state.store.jobs.keys,
        ((q.state.store.jobs.lookup k).all fun job => job.attempts < job.maxAttempts) = true)) =
      true := by decide +kernel
  have hleft : ∀ n q id job, queueSystem.run (timelyMoves.take n) = some q →
      q.state.store.jobs.lookup id = some job → job.attempts < job.maxAttempts := by
    intro n q id job hq hl
    rw [List.take_eq_take_min] at hq
    have hstate := hall _ (List.mem_range.mpr (Nat.lt_succ_of_le (min_le_right n _)))
    rw [hq, Option.all_some] at hstate
    have hjob := of_decide_eq_true hstate id
      (Finmap.mem_keys.mpr (Finmap.mem_of_lookup_eq_some hl))
    rw [hl, Option.all_some] at hjob
    exact of_decide_eq_true hjob
  obtain ⟨hbounded, hlast⟩ := attempts_bounded_iff _ p hp
  obtain ⟨hclaims, hwaiting⟩ := hbounded.mpr (lastAttemptsKept_of_left hp hleft)
  exact ⟨p, hp, of_decide_eq_true htwo, hclaims, hwaiting, hlast⟩

end WaveCast.Async
