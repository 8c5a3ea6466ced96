import WaveCast.Async.Ownership

/-!
# The course of a job

The workers of one runner keep to a protocol (`WorkerAsks`): a worker claims a
job, runs its handler if there is one, and reports. When every worker reports
before its lock ends (`Prompt`) only one of them has a job in its hands
(`unreported_newest`), and then each call takes a job from one point of its
`Course` to the next one (`course_step`).
-/

namespace WaveCast.Async

open Interaction

/-! ## The protocol of a worker -/

/-- A worker has claimed the job and done nothing else. -/
def JustClaimed (job : Job) (h : List QueueExchange) : Prop :=
  ∃ workerID now visibilityTimeout,
    h = [⟨.claimNext workerID now visibilityTimeout, .ok (some job)⟩, ⟨.now, now⟩]

/-- A worker has claimed the job, and its handler has failed or there is none. -/
def JustFailed (r : Runner) (job : Job) (message : String) (h : List QueueExchange) : Prop :=
  (r.handles job.type = true ∧ ∃ h', JustClaimed job h' ∧ h = ⟨.handle job, some message⟩ :: h') ∨
  (r.handles job.type = false ∧ message = "handler not registered" ∧ JustClaimed job h)

/-- The delay after the failure of an attempt. -/
def Runner.delayAfter (r : Runner) (attempt : Int) : Duration :=
  retryDelay attempt r.queue.cfg.retryBaseDelay r.queue.cfg.retryMaxDelay

/-- What a worker of the runner has exchanged before it claims, handles or reports. -/
def WorkerAsks (r : Runner) (h : List QueueExchange) : QueueEffect → Prop
  | .claimNext _ now _ => h = [⟨.now, now⟩]
  | .handle job => r.handles job.type = true ∧ JustClaimed job h
  | .complete jobID now => ∃ job h', job.id = jobID ∧ r.handles job.type = true ∧
      JustClaimed job h' ∧ h = ⟨.now, now⟩ :: ⟨.handle job, none⟩ :: h'
  | .retry jobID nextRun lastError now => ∃ job h', job.id = jobID ∧
      JustFailed r job lastError h' ∧ h = ⟨.now, now⟩ :: h' ∧ job.attempts < job.maxAttempts ∧
      nextRun = now + r.delayAfter job.attempts
  | .deadLetter jobID lastError now => ∃ job h', job.id = jobID ∧
      JustFailed r job lastError h' ∧ h = ⟨.now, now⟩ :: h' ∧ job.maxAttempts ≤ job.attempts
  | _ => True

theorem Runner.fail_workerAsks (r : Runner) {job : Job} {message : String}
    {h : List QueueExchange} (hfailed : JustFailed r job message h) :
    Program.Follows (WorkerAsks r) (fun _ _ => True) h (r.fail job message) := by
  refine ⟨trivial, fun now => ?_⟩
  simp only [Program.ret_bind]
  by_cases hmax : job.attempts ≥ job.maxAttempts
  · rw [if_pos hmax]
    exact ⟨⟨job, h, rfl, hfailed, rfl, hmax⟩, fun a => trivial⟩
  · rw [if_neg hmax]
    exact ⟨⟨job, h, rfl, hfailed, rfl, not_le.mp hmax, rfl⟩, fun a => trivial⟩

theorem Runner.processOnce_workerAsks (r : Runner) :
    Program.Follows (WorkerAsks r) (fun _ _ => True) [] r.processOnce := by
  refine ⟨trivial, fun now => ⟨rfl, ?_⟩⟩
  rintro (e | _ | job)
  · trivial
  · trivial
  have hclaimed : JustClaimed job [⟨.claimNext r.workerID now r.queue.cfg.visibilityTimeout,
      .ok (some job)⟩, ⟨.now, now⟩] := ⟨_, _, _, rfl⟩
  by_cases hh : r.handles job.type = true
  · simp only [Program.ret_bind, hh, Bool.not_true, Bool.false_eq_true, ↓reduceIte]
    refine ⟨⟨hh, hclaimed⟩, ?_⟩
    rintro (_ | message)
    · exact ⟨trivial, fun now' => ⟨⟨job, _, rfl, hh, hclaimed, rfl⟩, fun a => trivial⟩⟩
    · exact r.fail_workerAsks (.inl ⟨hh, _, hclaimed, rfl⟩)
  · rw [Bool.not_eq_true] at hh
    simp only [Program.ret_bind, hh, Bool.not_false, ↓reduceIte]
    exact r.fail_workerAsks (.inr ⟨hh, rfl, hclaimed⟩)

/-- All workers are workers of the runner. -/
def OneRunner (r : Runner) (t : List QueueEntry) : Prop :=
  ∀ e ∈ t, ∀ r', e.cmd = .processOnce r' → r' = r

theorem enqueue_workerAsks (r : Runner) (q : Queue) (jobType key : String)
    (payload : Except AppError String) :
    Program.Follows (WorkerAsks r) (fun _ _ => True) [] (q.enqueue jobType key payload) := by
  cases payload with
  | error e => trivial
  | ok raw =>
    refine ⟨trivial, fun now => ⟨trivial, fun id => ⟨trivial, fun a => ?_⟩⟩⟩
    cases a <;> trivial

/-- All calls keep to the protocol. -/
def ByWorkers (r : Runner) (t : List QueueEntry) : Prop :=
  Always (fun older e => WorkerAsks r (threadHistory e.thread older) e.exchange.call) t

/-- The workers of the runner keep to its protocol, whatever the others do. -/
theorem run_workerAsks (r : Runner) {ms : List QueueMove} {p : QueuePool}
    (h : queueSystem.run ms = some p) :
    Always (fun older e => (∀ r', e.cmd = .processOnce r' → r' = r) →
      WorkerAsks r (threadHistory e.thread older) e.exchange.call) p.trace := by
  refine System.run_always (P := fun cmd h c =>
    (∀ r', cmd = .processOnce r' → r' = r) → WorkerAsks r h c) (Q := fun _ _ _ => True)
    (fun cmd => ?_) h
  cases cmd with
  | enqueue q jobType key payload =>
    exact (enqueue_workerAsks r q jobType key payload).mono (fun _ _ ha _ => ha) fun _ _ h => h
  | processOnce r' =>
    refine r'.processOnce_workerAsks.mono (fun _ _ ha hr => ?_) fun _ _ h => h
    exact hr r' rfl ▸ ha

theorem run_byWorkers {r : Runner} {ms : List QueueMove} {p : QueuePool}
    (h : queueSystem.run ms = some p) (hone : OneRunner r p.trace) : ByWorkers r p.trace := by
  have hasks := run_workerAsks r h
  rw [always_iff] at hasks
  rw [ByWorkers, always_iff]
  exact fun newer e older ht => hasks newer e older ht (hone e (by simp [ht]))

/-! ## One worker at a time -/

/-- The thread of the call has not reported on the job. -/
def Unreported (c : QueueEntry) (id : String) (t : List QueueEntry) : Prop :=
  ∀ g ∈ t, g.thread = c.thread → reportedID g.exchange ≠ some id

instance (c : QueueEntry) (id : String) (t : List QueueEntry) : Decidable (Unreported c id t) :=
  inferInstanceAs (Decidable (∀ g ∈ t, _))

/-- A worker reports on the job it has claimed before its lock ends: no claim is
made with a time after the lock of a claim that is not reported on. -/
def Prompt (t : List QueueEntry) : Prop :=
  Always (fun older e => ∀ now ∈ claimTime e.exchange.call, ∀ c ∈ older,
    ∀ job ∈ claimedJob c.exchange, ∀ u ∈ job.lockedUntil, Unreported c job.id older → now ≤ u) t

instance (t : List QueueEntry) : Decidable (Prompt t) := inferInstanceAs (Decidable (Always _ t))

variable {r : Runner} {t older : List QueueEntry} {w w₀ : QueueWorld} {e c : QueueEntry}
  {id : String} {job : Job}

/-- The job was claimed, and nothing was reported yet. -/
def ClaimedOnly (job : Job) (h : List QueueExchange) : Prop :=
  (∃ x ∈ h, claimedJob x = some job) ∧ ∀ x ∈ h, reportedID x = none

theorem ClaimedOnly.cons {h : List QueueExchange} {x : QueueExchange} (hj : ClaimedOnly job h)
    (hx : reportedID x = none) : ClaimedOnly job (x :: h) := by
  obtain ⟨⟨y, hy, hc⟩, hnone⟩ := hj
  exact ⟨⟨y, List.mem_cons_of_mem _ hy, hc⟩, List.forall_mem_cons.mpr ⟨hx, hnone⟩⟩

theorem JustClaimed.claimedOnly {h : List QueueExchange} (hj : JustClaimed job h) :
    ClaimedOnly job h := by
  obtain ⟨workerID, now, visibilityTimeout, rfl⟩ := hj
  exact ⟨⟨_, List.mem_cons_self, rfl⟩, by simp [reportedID]⟩

theorem JustFailed.claimedOnly {message : String} {h : List QueueExchange}
    (hj : JustFailed r job message h) : ClaimedOnly job h := by
  rcases hj with ⟨-, h', hj, rfl⟩ | ⟨-, -, hj⟩
  · exact hj.claimedOnly.cons rfl
  · exact hj.claimedOnly

/-- A worker that reports has claimed the job and not reported before. -/
theorem WorkerAsks.claimedOnly {h : List QueueExchange} {x : QueueExchange}
    (ha : WorkerAsks r h x.call) (hr : reportedID x = some id) :
    ∃ job, job.id = id ∧ ClaimedOnly job h := by
  obtain ⟨c, a⟩ := x
  cases c with
  | complete jobID now =>
    obtain ⟨job, h', rfl, -, hj, rfl⟩ := ha
    exact ⟨job, Option.some.inj hr, (hj.claimedOnly.cons rfl).cons rfl⟩
  | retry jobID nextRun lastError now =>
    obtain ⟨job, h', rfl, hj, rfl, -⟩ := ha
    exact ⟨job, Option.some.inj hr, hj.claimedOnly.cons rfl⟩
  | deadLetter jobID lastError now =>
    obtain ⟨job, h', rfl, hj, rfl, -⟩ := ha
    exact ⟨job, Option.some.inj hr, hj.claimedOnly.cons rfl⟩
  | _ => cases hr

/-- The claim of a worker that has claimed the job and not reported on it. -/
theorem ClaimedOnly.exists_entry {i : ℕ} (hj : ClaimedOnly job (threadHistory i t)) :
    ∃ c ∈ t, c.thread = i ∧ claimedJob c.exchange = some job ∧ Unreported c job.id t := by
  obtain ⟨⟨x, hx, hc⟩, hnone⟩ := hj
  obtain ⟨c, hmem, hi, rfl⟩ := mem_threadHistory.mp hx
  refine ⟨c, hmem, hi, hc, fun g hg hgi hr => ?_⟩
  have hg := hnone g.exchange (mem_threadHistory.mpr ⟨g, hg, hgi.trans hi, rfl⟩)
  rw [hr] at hg
  cases hg

/-- A worker has not claimed anything before it claims. -/
theorem WorkerAsks.claims_first (ha : WorkerAsks r (threadHistory e.thread older) e.exchange.call)
    (hc : claimedJob e.exchange = some job) : Unreported e id older := by
  obtain ⟨i, cmd, env, ⟨c, a⟩⟩ := e
  intro g hg hgi hr
  have hmem := mem_threadHistory.mpr ⟨g, hg, hgi, rfl⟩
  cases c with
  | claimNext workerID now visibilityTimeout =>
    rw [show threadHistory i older = _ from ha] at hmem
    rw [List.mem_singleton.mp hmem] at hr
    cases hr
  | _ => cases hc

/-- The worker of a claim that nothing was done to since has not reported. -/
theorem newest_unreported (hasks : ByWorkers r t)
    (hn : newest jobKey id t = some c) (hc : claimedJob c.exchange = some job) :
    Unreported c id t := by
  obtain ⟨hk, mid, rest, rfl, hmid⟩ := newest_eq_some.mp hn
  intro g hg hgi hr
  have hgk : claimedJob g.exchange = none → jobKey g = some id := by
    intro hcl
    simp [touchedID, hr, hcl]
  have hgn : claimedJob g.exchange = none := by
    obtain ⟨i, cmd, env, ⟨c, a⟩⟩ := g
    cases c <;> first | rfl | cases hr
  rcases List.mem_append.mp hg with hg | hg
  · exact hmid g hg (hgk hgn)
  · rcases List.mem_cons.mp hg with rfl | hg
    · rw [hc] at hgn
      cases hgn
    · exact hasks.at.claims_first hc g hg hgi hr

/-- **One worker at a time.** A claim that is not reported on is the newest call on its job. -/
theorem unreported_newest (h : queueSystem.Replays t w) (ho : Orderly t) (hasks : ByWorkers r t)
    (hp : Prompt t) (hmem : c ∈ t) (hc : claimedJob c.exchange = some job)
    (hu : Unreported c job.id t) : newest jobKey job.id t = some c := by
  induction t generalizing w c job with
  | nil => cases hmem
  | cons e older ih =>
    obtain ⟨w₀, h₀, hx⟩ := h
    rw [newest_cons]
    rcases List.mem_cons.mp hmem with rfl | hmem
    · exact if_pos (jobKey_of_claimed hc)
    have hu₀ : Unreported c job.id older := fun g hg => hu g (List.mem_cons_of_mem e hg)
    have hnew := ih h₀ ho.tail hasks.2 hp.2 hmem hc hu₀
    refine (if_neg fun hk => ?_).trans hnew
    cases hcl : claimedJob e.exchange with
    | some job' =>
      -- the claim would take over a lock that has not ended
      obtain ⟨workerID, now, visibilityTimeout, id', job₀, hcall, hl, hready, rfl, -⟩ :=
        exec_claimed hx hcl
      have hrec := recorded h₀ ho.tail
      have hid : id' = job.id := by
        rw [jobKey_of_claimed hcl] at hk
        exact (hrec.stored id' job₀ hl).id_eq.symm.trans (Option.some.inj hk)
      subst hid
      obtain ⟨rfl, hs⟩ := hrec.newest_claim hnew hc hl
      rcases (Job.ready_iff.mp hready).2 with hs' | hs' | ⟨-, u, hlock, hlt⟩
      · rw [hs] at hs'; cases hs'
      · rw [hs] at hs'; cases hs'
      · have hle := hp.1 now (by rw [hcall]; rfl) c hmem _ hc u hlock hu₀
        exact absurd hlt (not_lt.mpr hle)
    | none =>
      -- the report would be of this very worker
      have hr : reportedID e.exchange = some job.id := by simpa [touchedID, hcl] using hk
      obtain ⟨job', hid, hclaimed⟩ := hasks.1.claimedOnly hr
      obtain ⟨c', hmem', hi, hc', hu'⟩ := hclaimed.exists_entry
      have hnew' := ih h₀ ho.tail hasks.2 hp.2 hmem' hc' hu'
      rw [hid, hnew] at hnew'
      cases hnew'
      exact hu e List.mem_cons_self hi.symm hr

/-! ## The course of a job -/

/-- What a handler answered for the job. -/
def handlerAnswer (id : String) : QueueExchange → Option (Option String)
  | ⟨.handle job, answer⟩ => if job.id = id then some answer else none
  | _ => none

/-- What the handlers answered for the job, the first answer first. -/
def answers (id : String) (h : List QueueExchange) : List (Option String) :=
  (h.filterMap (handlerAnswer id)).reverse

/-- The outcomes of the runs of the handler of the job. -/
def runs (id : String) (t : List QueueEntry) : List (Option String) :=
  answers id (t.map (·.exchange))

theorem answers_cons (id : String) (x : QueueExchange) (h : List QueueExchange) :
    answers id (x :: h) = answers id h ++ (handlerAnswer id x).toList := by
  unfold answers
  cases hx : handlerAnswer id x <;> simp [hx]

theorem runs_cons (id : String) (e : QueueEntry) (t : List QueueEntry) :
    runs id (e :: t) = runs id t ++ (handlerAnswer id e.exchange).toList :=
  answers_cons id e.exchange _

/-- A worker has claimed the job and not reported on it. -/
def Held (id : String) (t : List QueueEntry) : Prop :=
  ∃ c, newest jobKey id t = some c ∧ (claimedJob c.exchange).isSome

/-- The handler has failed `n` times and not succeeded, or there is none. -/
def FailedTimes (r : Runner) (job : Job) (n : ℕ) (outcomes : List (Option String)) : Prop :=
  if r.handles job.type then outcomes.length = n ∧ none ∉ outcomes else outcomes = []

/-- The error that is stored is the one of the last run. -/
def LastError (r : Runner) (job : Job) (outcomes : List (Option String)) : Prop :=
  if r.handles job.type then outcomes.getLast? = some (some job.lastError)
  else job.lastError = "handler not registered"

/-- The newest call on the job put it back after a failure, until the delay has passed. -/
def PutBack (r : Runner) (id : String) (t : List QueueEntry) (runAfter : Time) : Prop :=
  ∃ f failedAt message, newest jobKey id t = some f ∧
    f.exchange.call = .retry id runAfter message failedAt ∧
    runAfter = failedAt + r.delayAfter (claims id t)

/-- The job waits for its next claim. -/
structure Waiting (r : Runner) (t : List QueueEntry) (id : String) (job : Job) : Prop where
  free : ¬ Held id t
  status : job.status = .pending ∨ job.status = .retrying
  left : claims id t < job.maxAttempts
  failed : FailedTimes r job (claims id t) (runs id t)
  putBack : claims id t ≠ 0 → PutBack r id t job.runAfter

/-- Where a job is between its enqueueing and its end. -/
inductive Course (r : Runner) (t : List QueueEntry) (id : String) (job : Job) : Prop
  | waiting (h : Waiting r t id job)
  | held (c : QueueEntry) (past : List (Option String)) (claim : newest jobKey id t = some c)
      (isClaim : (claimedJob c.exchange).isSome) (bounded : claims id t ≤ job.maxAttempts)
      (failed : ∃ n, claims id t = n + 1 ∧ FailedTimes r job n past)
      (outcomes : runs id t = past ++ answers id (threadHistory c.thread t))
      (answered : answers id (threadHistory c.thread t) = [] ∨
        r.handles job.type = true ∧ ∃ a, answers id (threadHistory c.thread t) = [a])
  | completed (past : List (Option String)) (free : ¬ Held id t) (status : job.status = .completed)
      (bounded : claims id t ≤ job.maxAttempts) (handles : r.handles job.type = true)
      (failed : ∃ n, claims id t = n + 1 ∧ FailedTimes r job n past)
      (outcomes : runs id t = past ++ [none])
  | dead (free : ¬ Held id t) (status : job.status = .deadLetter)
      (usedUp : claims id t = job.maxAttempts)
      (failed : FailedTimes r job (claims id t) (runs id t))
      (last : LastError r job (runs id t))

theorem JustClaimed.answers_eq {h : List QueueExchange} (hj : JustClaimed job h) (id : String) :
    answers id h = [] := by
  obtain ⟨workerID, now, visibilityTimeout, rfl⟩ := hj
  rfl

theorem JustFailed.answers_eq {message : String} {h : List QueueExchange}
    (hj : JustFailed r job message h) :
    answers job.id h = if r.handles job.type then [some message] else [] := by
  rcases hj with ⟨hh, h', hj, rfl⟩ | ⟨hh, -, hj⟩
  · rw [answers_cons, hj.answers_eq, if_pos hh]
    simp [handlerAnswer]
  · rw [hj.answers_eq, hh]
    rfl

/-- A failure more. -/
theorem FailedTimes.snoc {n : ℕ} {past : List (Option String)} (hf : FailedTimes r job n past)
    (message : String) : FailedTimes r job (n + 1)
      (past ++ if r.handles job.type then [some message] else []) := by
  unfold FailedTimes at hf ⊢
  split at hf <;> simp_all

theorem not_held_of_report (hk : jobKey e = some id) (hc : claimedJob e.exchange = none) :
    ¬ Held id (e :: older) := by
  rintro ⟨c, hn, hcl⟩
  rw [newest_cons, if_pos hk] at hn
  cases hn
  rw [hc] at hcl
  cases hcl

/-- A call that neither touches the job nor runs its handler. -/
theorem Course.skip (h : Course r older id job) (hk : jobKey e ≠ some id)
    (ha : handlerAnswer id e.exchange = none) : Course r (e :: older) id job := by
  have hnew : newest jobKey id (e :: older) = newest jobKey id older := by
    rw [newest_cons, if_neg hk]
  have hclaims : claims id (e :: older) = claims id older := by
    rw [claims_cons, not_claimed_of_key hk]
    rfl
  have hruns : runs id (e :: older) = runs id older := by
    rw [runs_cons, ha]
    exact List.append_nil _
  have hanswers : ∀ i, answers id (threadHistory i (e :: older)) =
      answers id (threadHistory i older) := by
    intro i
    rw [threadHistory_cons]
    split
    · rw [answers_cons, ha]
      exact List.append_nil _
    · rfl
  cases h with
  | waiting h =>
    refine .waiting ⟨?_, h.status, hclaims ▸ h.left, by rw [hclaims, hruns]; exact h.failed, ?_⟩
    · rw [Held, hnew]
      exact h.free
    · rw [PutBack, hnew, hclaims]
      exact h.putBack
  | held c past claim isClaim bounded failed outcomes answered =>
    exact .held c past (hnew.trans claim) isClaim (hclaims ▸ bounded) (hclaims ▸ failed)
      (by rwa [hruns, hanswers]) (by rwa [hanswers])
  | completed past free status bounded handles failed outcomes =>
    exact .completed past (by rwa [Held, hnew]) status (hclaims ▸ bounded) handles
      (hclaims ▸ failed) (hruns.trans outcomes)
  | dead free status usedUp failed last =>
    exact .dead (by rwa [Held, hnew]) status (hclaims ▸ usedUp) (by rwa [hclaims, hruns])
      (hruns.symm ▸ last)

/-- A handler is run for the job its worker has just claimed. -/
theorem WorkerAsks.handles {h : List QueueExchange} {x : QueueExchange} {a : Option String}
    (ha : WorkerAsks r h x.call) (hx : handlerAnswer id x = some a) :
    ∃ job, job.id = id ∧ r.handles job.type = true ∧ JustClaimed job h := by
  obtain ⟨c, b⟩ := x
  cases c with
  | handle job =>
    simp only [handlerAnswer] at hx
    split at hx
    · exact ⟨job, ‹_›, ha⟩
    · cases hx
  | _ => cases hx

/-- No handler is run for a job that was never claimed. -/
theorem runs_eq_nil (hasks : ByWorkers r t) (hn : newest jobKey id t = none) : runs id t = [] := by
  induction t with
  | nil => rfl
  | cons e older ih =>
    have hfree : ∀ f ∈ e :: older, jobKey f ≠ some id := newest_eq_none.mp hn
    have hnil := ih hasks.2 (newest_eq_none.mpr fun f hf => hfree f (List.mem_cons_of_mem e hf))
    rw [runs_cons, hnil, List.nil_append]
    cases ha : handlerAnswer id e.exchange with
    | none => rfl
    | some a =>
      obtain ⟨job, hid, -, hclaimed⟩ := hasks.1.handles ha
      obtain ⟨c, hmem, -, hc, -⟩ := hclaimed.claimedOnly.exists_entry
      exact absurd (hid ▸ jobKey_of_claimed hc) (hfree c (List.mem_cons_of_mem e hmem))

/-- The job in the hands of a worker is the one that is stored. -/
theorem Course.in_hand {job' : Job} {i : ℕ} (h : Course r older id job)
    (h₀ : queueSystem.Replays older w₀) (ho : Orderly older) (hasks : ByWorkers r older)
    (hp : Prompt older) (hl : w₀.store.jobs.lookup id = some job) (hid : job'.id = id)
    (hj : ClaimedOnly job' (threadHistory i older)) :
    job = job' ∧ claims id older ≤ job.maxAttempts ∧ ∃ c past, c.thread = i ∧
      newest jobKey id older = some c ∧ (claimedJob c.exchange).isSome ∧
      (∃ n, claims id older = n + 1 ∧ FailedTimes r job n past) ∧
      runs id older = past ++ answers id (threadHistory i older) := by
  obtain ⟨c, hmem, rfl, hc, hu⟩ := hj.exists_entry
  have hnew : newest jobKey id older = some c := hid ▸ unreported_newest h₀ ho hasks hp hmem hc hu
  have hheld : Held id older := ⟨c, hnew, by simp [hc]⟩
  cases h with
  | waiting h => exact absurd hheld h.free
  | held c' past claim isClaim bounded failed outcomes answered =>
    obtain rfl := Option.some.inj (claim.symm.trans hnew)
    exact ⟨((recorded h₀ ho).newest_claim hnew hc hl).1, bounded, c', past, rfl, hnew, isClaim,
      failed, outcomes⟩
  | completed past free => exact absurd hheld free
  | dead free => exact absurd hheld free

/-- Only a job that waits is claimed. -/
theorem Course.waiting_of_ready {now : Time} (h : Course r older id job)
    (h₀ : queueSystem.Replays older w₀) (ho : Orderly older) (hasks : ByWorkers r older)
    (hp : Prompt (e :: older)) (hl : w₀.store.jobs.lookup id = some job)
    (hready : job.ready now = true) (hnow : claimTime e.exchange.call = some now) :
    Waiting r older id job := by
  cases h with
  | waiting h => exact h
  | held c past claim isClaim bounded failed outcomes answered =>
    -- its lock has not ended
    obtain ⟨job', hc⟩ := Option.isSome_iff_exists.mp isClaim
    obtain ⟨rfl, hs⟩ := (recorded h₀ ho).newest_claim claim hc hl
    rcases (Job.ready_iff.mp hready).2 with hs' | hs' | ⟨-, u, hlock, hlt⟩
    · rw [hs] at hs'; cases hs'
    · rw [hs] at hs'; cases hs'
    · have hid : job.id = id := ((recorded h₀ ho).stored id job hl).id_eq
      have hu : Unreported c job.id older := hid.symm ▸ newest_unreported hasks claim hc
      have hle := hp.1 now hnow c (List.mem_of_find?_eq_some claim) job hc u hlock hu
      exact absurd hlt (not_lt.mpr hle)
  | completed past free status =>
    rw [Job.not_ready now (.inl status)] at hready
    cases hready
  | dead free status =>
    rw [Job.not_ready now (.inr status)] at hready
    cases hready

theorem Course.claim {workerID : String} {now : Time} {visibilityTimeout : Duration}
    (h : Waiting r older id job) (hid : job.id = id) (hasks : ByWorkers r (e :: older))
    (hcall : e.exchange.call = .claimNext workerID now visibilityTimeout)
    (hc : claimedJob e.exchange = some (job.claimed workerID now visibilityTimeout)) :
    Course r (e :: older) id (job.claimed workerID now visibilityTimeout) := by
  have hk : jobKey e = some id := by
    rw [jobKey_of_claimed hc]
    exact congrArg some hid
  have hclaims : claims id (e :: older) = claims id older + 1 := by
    rw [claims_cons, hc]
    simp [Job.claimed, hid]
  have hquiet : handlerAnswer id e.exchange = none := by
    obtain ⟨i, cmd, env, ⟨c, a⟩⟩ := e
    obtain rfl : c = _ := hcall
    rfl
  have hanswers : answers id (threadHistory e.thread (e :: older)) = [] := by
    have hfirst : WorkerAsks r (threadHistory e.thread older)
        (.claimNext workerID now visibilityTimeout) := hcall ▸ hasks.1
    rw [threadHistory_cons, if_pos rfl, answers_cons, hquiet,
      show threadHistory e.thread older = [⟨.now, now⟩] from hfirst]
    rfl
  refine .held e (runs id older) (by rw [newest_cons, if_pos hk]) (by simp [hc]) ?_
    ⟨claims id older, hclaims, h.failed⟩ ?_ (.inl hanswers)
  · rw [hclaims]
    exact_mod_cast h.left
  · rw [hanswers, runs_cons, hquiet]
    rfl

theorem Course.handle {a : Option String} (h : Course r older id job)
    (h₀ : queueSystem.Replays older w₀) (ho : Orderly older) (hasks : ByWorkers r (e :: older))
    (hp : Prompt older) (hl : w₀.store.jobs.lookup id = some job)
    (ha : handlerAnswer id e.exchange = some a) : Course r (e :: older) id job := by
  obtain ⟨job', hid, hh, hclaimed⟩ := hasks.1.handles ha
  obtain ⟨rfl, bounded, c, past, hi, hnew, isClaim, ⟨n, hn, failed⟩, outcomes⟩ :=
    h.in_hand h₀ ho hasks.2 hp hl hid hclaimed.claimedOnly
  have hk : jobKey e = none := by
    obtain ⟨i, cmd, env, ⟨c, b⟩⟩ := e
    cases c <;> first | rfl | cases ha
  have hclaims : claims id (e :: older) = claims id older := by
    rw [claims_cons, not_claimed_of_key (by simp [hk])]
    rfl
  have hanswers : answers id (threadHistory c.thread (e :: older)) = [a] := by
    rw [hi, threadHistory_cons, if_pos rfl, answers_cons, ha, hclaimed.answers_eq]
    rfl
  have hruns : runs id (e :: older) = past ++ [a] := by
    rw [runs_cons, ha, outcomes, hclaimed.answers_eq, List.append_nil]
    rfl
  exact .held c past (by rw [newest_cons, if_neg (by simp [hk])]; exact hnew) isClaim
    (hclaims ▸ bounded) ⟨n, hclaims.trans hn, failed⟩ (by rw [hruns, hanswers])
    (.inr ⟨hh, a, hanswers⟩)

/-- What a report leaves of the history of its job. -/
theorem report_cons (older : List QueueEntry) (hr : reportedID e.exchange = some id) :
    newest jobKey id (e :: older) = some e ∧ ¬ Held id (e :: older) ∧
      claims id (e :: older) = claims id older ∧ runs id (e :: older) = runs id older := by
  have hc : claimedJob e.exchange = none := by
    obtain ⟨i, cmd, env, ⟨c, a⟩⟩ := e
    cases c <;> first | rfl | cases hr
  have ha : handlerAnswer id e.exchange = none := by
    obtain ⟨i, cmd, env, ⟨c, a⟩⟩ := e
    cases c <;> first | rfl | cases hr
  have hk : jobKey e = some id := by simp [touchedID, hc, hr]
  refine ⟨by rw [newest_cons, if_pos hk], not_held_of_report hk hc, ?_, ?_⟩
  · rw [claims_cons, hc]
    rfl
  · rw [runs_cons, ha]
    exact List.append_nil _

theorem Course.complete {now : Time} (h : Course r older id job)
    (h₀ : queueSystem.Replays older w₀) (ho : Orderly older) (hasks : ByWorkers r (e :: older))
    (hp : Prompt older) (hl : w₀.store.jobs.lookup id = some job)
    (hcall : e.exchange.call = .complete id now) :
    Course r (e :: older) id (job.completed now) := by
  have hr : reportedID e.exchange = some id := by
    obtain ⟨i, cmd, env, ⟨c, a⟩⟩ := e
    obtain rfl : c = _ := hcall
    rfl
  obtain ⟨-, free, hclaims, hruns⟩ := report_cons older hr
  obtain ⟨job', h', hid, hh, hj, hhist⟩ : WorkerAsks r (threadHistory e.thread older)
    (.complete id now) := hcall ▸ hasks.1
  obtain ⟨rfl, bounded, c, past, -, -, -, ⟨n, hn, failed⟩, outcomes⟩ :=
    h.in_hand h₀ ho hasks.2 hp hl hid
      (hhist ▸ (hj.claimedOnly.cons rfl).cons rfl : ClaimedOnly job' (threadHistory e.thread older))
  refine .completed past free rfl (hclaims ▸ bounded) hh ⟨n, hclaims.trans hn, failed⟩ ?_
  rw [hruns, outcomes, hhist, answers_cons, answers_cons, hj.answers_eq]
  simp [handlerAnswer, hid]

/-- A failed run of the handler. -/
theorem Course.failed {message : String} {now : Time} {h' : List QueueExchange} {job' : Job}
    (h : Course r older id job) (h₀ : queueSystem.Replays older w₀) (ho : Orderly older)
    (hasks : ByWorkers r older) (hp : Prompt older) (hl : w₀.store.jobs.lookup id = some job)
    (hid : job'.id = id) (hj : JustFailed r job' message h')
    (hhist : threadHistory e.thread older = ⟨.now, now⟩ :: h') :
    job = job' ∧ claims id older ≤ job.maxAttempts ∧
      FailedTimes r job (claims id older) (runs id older) ∧
      ∃ past, runs id older = past ++ if r.handles job.type then [some message] else [] := by
  obtain ⟨rfl, bounded, c, past, -, -, -, ⟨n, hn, failed⟩, outcomes⟩ :=
    h.in_hand h₀ ho hasks hp hl hid
      (hhist ▸ hj.claimedOnly.cons rfl : ClaimedOnly job' (threadHistory e.thread older))
  have hruns : runs id older = past ++ if r.handles job.type then [some message] else [] := by
    rw [outcomes, hhist, answers_cons, ← hid, hj.answers_eq]
    exact congrArg _ (List.append_nil _)
  refine ⟨rfl, bounded, ?_, past, hruns⟩
  rw [hruns, hn]
  exact failed.snoc message

theorem Course.retry {nextRun now : Time} {message : String} (h : Course r older id job)
    (h₀ : queueSystem.Replays older w₀) (ho : Orderly older) (hasks : ByWorkers r (e :: older))
    (hp : Prompt older) (hl : w₀.store.jobs.lookup id = some job)
    (hcall : e.exchange.call = .retry id nextRun message now) :
    Course r (e :: older) id (job.retried nextRun message now) := by
  have hr : reportedID e.exchange = some id := by
    obtain ⟨i, cmd, env, ⟨c, a⟩⟩ := e
    obtain rfl : c = _ := hcall
    rfl
  obtain ⟨hnew, free, hclaims, hruns⟩ := report_cons older hr
  obtain ⟨job', h', hid, hj, hhist, hlt, hnext⟩ : WorkerAsks r (threadHistory e.thread older)
    (.retry id nextRun message now) := hcall ▸ hasks.1
  obtain ⟨rfl, bounded, failed, -⟩ := h.failed h₀ ho hasks.2 hp hl hid hj hhist
  have hatt : job.attempts = claims id older := ((recorded h₀ ho).stored id job hl).attempts_eq
  refine .waiting ⟨free, .inr rfl, ?_, by rw [hclaims, hruns]; exact failed, fun _ => ?_⟩
  · rw [hclaims, ← hatt]
    exact hlt
  · exact ⟨e, now, message, hnew, hcall, by rw [hclaims, ← hatt]; exact hnext⟩

theorem Course.deadLetter {now : Time} {message : String} (h : Course r older id job)
    (h₀ : queueSystem.Replays older w₀) (ho : Orderly older) (hasks : ByWorkers r (e :: older))
    (hp : Prompt older) (hl : w₀.store.jobs.lookup id = some job)
    (hcall : e.exchange.call = .deadLetter id message now) :
    Course r (e :: older) id (job.deadLettered message now) := by
  have hr : reportedID e.exchange = some id := by
    obtain ⟨i, cmd, env, ⟨c, a⟩⟩ := e
    obtain rfl : c = _ := hcall
    rfl
  obtain ⟨-, free, hclaims, hruns⟩ := report_cons older hr
  obtain ⟨job', h', hid, hj, hhist, hle⟩ : WorkerAsks r (threadHistory e.thread older)
    (.deadLetter id message now) := hcall ▸ hasks.1
  obtain ⟨rfl, bounded, failed, past, houtcomes⟩ := h.failed h₀ ho hasks.2 hp hl hid hj hhist
  have hatt : job.attempts = claims id older := ((recorded h₀ ho).stored id job hl).attempts_eq
  have hmax : claims id older = job.maxAttempts := le_antisymm bounded (hatt ▸ hle)
  refine .dead free rfl (hclaims ▸ hmax) (by rw [hclaims, hruns]; exact failed) ?_
  rw [hruns]
  show if r.handles job.type then _ else _
  split <;> rename_i hh
  · rw [houtcomes, if_pos hh]
    exact List.getLast?_concat
  · rcases hj with ⟨hh', -⟩ | ⟨-, rfl, -⟩
    · exact absurd hh' hh
    · rfl

/-- A job that was just enqueued. -/
theorem Course.new (hasks : ByWorkers r older) (hn : newest jobKey id older = none)
    (hstatus : job.status = .pending) (hmax : 0 < job.maxAttempts) : Course r older id job := by
  have hclaims : claims id older = 0 := by
    rw [claims, List.countP_eq_zero]
    intro f hf
    simpa using not_claimed_of_key (newest_eq_none.mp hn f hf)
  refine .waiting ⟨?_, .inl hstatus, by rw [hclaims]; exact hmax, ?_, absurd hclaims⟩
  · rintro ⟨c, hc, -⟩
    rw [hn] at hc
    cases hc
  · rw [hclaims, runs_eq_nil hasks hn]
    unfold FailedTimes
    split <;> simp

theorem course_report
    (hx : queueSystem.exec e.env e.exchange.call w₀ = some (e.exchange.answer, w))
    (h₀ : queueSystem.Replays older w₀) (ho : Orderly older) (hasks : ByWorkers r (e :: older))
    (hp : Prompt older) (ih : ∀ job₀, w₀.store.jobs.lookup id = some job₀ → Course r older id job₀)
    (hl : w.store.jobs.lookup id = some job) (hr : reportedID e.exchange = some id) :
    Course r (e :: older) id job := by
  obtain ⟨i, cmd, env, ⟨c, a⟩⟩ := e
  cases c with
  | complete jobID now =>
    cases hx
    obtain rfl := Option.some.inj hr
    simp only [MemoryStore.complete, MemoryStore.lookup_update, if_pos] at hl
    obtain ⟨job₀, hl₀, rfl⟩ := Option.map_eq_some_iff.mp hl
    exact (ih job₀ hl₀).complete h₀ ho hasks hp hl₀ rfl
  | retry jobID nextRun lastError now =>
    cases hx
    obtain rfl := Option.some.inj hr
    simp only [MemoryStore.retry, MemoryStore.lookup_update, if_pos] at hl
    obtain ⟨job₀, hl₀, rfl⟩ := Option.map_eq_some_iff.mp hl
    exact (ih job₀ hl₀).retry h₀ ho hasks hp hl₀ rfl
  | deadLetter jobID lastError now =>
    cases hx
    obtain rfl := Option.some.inj hr
    simp only [MemoryStore.deadLetter, MemoryStore.lookup_update, if_pos] at hl
    obtain ⟨job₀, hl₀, rfl⟩ := Option.map_eq_some_iff.mp hl
    exact (ih job₀ hl₀).deadLetter h₀ ho hasks hp hl₀ rfl
  | _ => cases hr

/-- **One call.** What a job has been through before the call gives what it has
been through after it. -/
theorem course_step (hx : queueSystem.exec e.env e.exchange.call w₀ = some (e.exchange.answer, w))
    (h₀ : queueSystem.Replays older w₀) (ho : Orderly (e :: older))
    (hasks : ByWorkers r (e :: older)) (hp : Prompt (e :: older))
    (ih : ∀ job₀, w₀.store.jobs.lookup id = some job₀ → Course r older id job₀)
    (hl : w.store.jobs.lookup id = some job) : Course r (e :: older) id job := by
  have hrec := recorded h₀ ho.tail
  by_cases hr : reportedID e.exchange = some id
  · exact course_report hx h₀ ho.tail hasks hp.2 ih hl hr
  cases hc : claimedJob e.exchange with
  | some job' =>
    obtain ⟨workerID, now, visibilityTimeout, id', job₀, hcall, hl₀, hready, rfl, hw⟩ :=
      exec_claimed hx hc
    rw [hw, Table.lookup_insert_ite] at hl
    split at hl
    · subst id'
      cases hl
      have hwaiting := (ih job₀ hl₀).waiting_of_ready h₀ ho.tail hasks.2 hp hl₀ hready
        (by rw [hcall]; rfl)
      exact .claim hwaiting (hrec.stored id job₀ hl₀).id_eq hasks hcall hc
    · rename_i hne
      refine (ih job hl).skip ?_ ?_
      · rw [jobKey_of_claimed hc]
        intro hid
        exact hne ((Option.some.inj hid).symm.trans (hrec.stored id' job₀ hl₀).id_eq)
      · obtain ⟨i, cmd, env, ⟨c, a⟩⟩ := e
        obtain rfl : c = _ := hcall
        rfl
  | none =>
    have hk : jobKey e ≠ some id := by simpa [touchedID, hc] using hr
    rcases exec_lookup hx id with hsame | ⟨new, hnew, rfl, hin⟩ |
      ⟨_, _, _, _, -, -, hc', -⟩ | ⟨f, hr', -⟩
    · rw [hsame] at hl
      cases ha : handlerAnswer id e.exchange with
      | some a => exact (ih job hl).handle h₀ ho.tail hasks hp.2 hl ha
      | none => exact (ih job hl).skip hk ha
    · obtain rfl := Option.some.inj (hin.symm.trans hl)
      obtain ⟨⟨q, jobType, key, payload, now, hjob⟩, -⟩ := ho.fresh.1 new hnew
      refine (Course.new hasks.2 (hrec.fresh_untouched ho hnew) ?_ ?_).skip hk ?_
      · rw [hjob]; rfl
      · rw [hjob]; exact q.valid.jobMaxAttempts
      · obtain ⟨i, cmd, env, ⟨c, a⟩⟩ := e
        cases c <;> first | rfl | cases hnew
    · rw [hc] at hc'
      cases hc'
    · exact absurd hr' hr

/-- **All calls of a run.** -/
theorem course (h : queueSystem.Replays t w) (ho : Orderly t) (hasks : ByWorkers r t)
    (hp : Prompt t) (hl : w.store.jobs.lookup id = some job) : Course r t id job := by
  induction t generalizing w job with
  | nil =>
    cases h
    simp [queueSystem, QueueWorld.empty, MemoryStore.empty] at hl
  | cons e older ih =>
    obtain ⟨w₀, h₀, hx⟩ := h
    exact course_step hx h₀ ho hasks hp (fun job₀ hl₀ => ih h₀ ho.tail hasks.2 hp.2 hl₀) hl

end WaveCast.Async
