import WaveCast.Async.Attempts

/-!
# Retries

A job is claimed again after each failure, up to `MaxAttempts` times, and not
after a success (`retries_exact`).
-/

namespace WaveCast.Async

open Interaction

variable {r : Runner} {t older : List QueueEntry} {w w₀ : QueueWorld} {e c : QueueEntry}
  {id : String} {job : Job}

/-! ## Retries are exact -/

/-- A job is not claimed again before the delay after its last failure has passed. -/
def Spaced (r : Runner) (id : String) (t : List QueueEntry) : Prop :=
  Always (fun older e => ∀ job ∈ claimedJob e.exchange, job.id = id → claims id older ≠ 0 →
    ∃ f nextRun failedAt message, newest jobKey id older = some f ∧
      f.exchange.call = .retry id nextRun message failedAt ∧
      nextRun = failedAt + r.delayAfter (claims id older) ∧
      ∀ now ∈ claimTime e.exchange.call, nextRun ≤ now) t

structure RetriesExact (r : Runner) (t : List QueueEntry) (id : String) (job : Job) : Prop where
  bounded : claims id t ≤ job.maxAttempts
  /-- The first success is the last run, and the job is completed when it is reported. -/
  succeeded : ∀ k, (runs id t)[k]? = some none → (runs id t).length = k + 1 ∧
    claims id t = k + 1 ∧ (¬ Held id t → job.status = .completed)
  /-- Without a success every claim fails, the last one for good. -/
  failed : none ∉ runs id t → ¬ Held id t → FailedTimes r job (claims id t) (runs id t) ∧
    (claims id t = job.maxAttempts → job.status = .deadLetter ∧ LastError r job (runs id t))
  /-- A job with attempts left can be claimed as soon as its time has come. -/
  goesOn : none ∉ runs id t → ¬ Held id t → claims id t < job.maxAttempts →
    ∀ now, job.runAfter ≤ now → job.ready now = true
  /-- A job that is not claimed though its time has come is at its end. -/
  ended : ¬ Held id t → ∀ now, job.runAfter ≤ now → job.ready now = false →
    (none ∈ runs id t ∧ job.status = .completed) ∨
    (none ∉ runs id t ∧ claims id t = job.maxAttempts ∧ job.status = .deadLetter ∧
      LastError r job (runs id t))
  spaced : Spaced r id t

theorem FailedTimes.not_mem {n : ℕ} {outcomes : List (Option String)}
    (hf : FailedTimes r job n outcomes) : none ∉ outcomes := by
  unfold FailedTimes at hf
  split at hf
  · exact hf.2
  · simp [hf]

/-- A success is the last of the outcomes. -/
theorem FailedTimes.success {n k : ℕ} {past last : List (Option String)}
    (hf : FailedTimes r job n past) (hh : r.handles job.type = true) (hlast : last.length ≤ 1)
    (hk : (past ++ last)[k]? = some none) : (past ++ last).length = k + 1 ∧ n = k := by
  rw [FailedTimes, if_pos hh] at hf
  obtain ⟨hlt, hget⟩ := List.getElem?_eq_some_iff.mp hk
  rw [List.length_append] at hlt
  have hge : past.length ≤ k := by
    by_contra hlt'
    rw [List.getElem_append_left (not_le.mp hlt')] at hget
    exact hf.2 (hget ▸ List.getElem_mem _)
  rw [List.length_append]
  omega

/-- A job that no worker has in its hands. -/
theorem Course.of_free (h : Course r t id job) (hfree : ¬ Held id t) :
    Waiting r t id job ∨ (none ∈ runs id t ∧ job.status = .completed) ∨
      (FailedTimes r job (claims id t) (runs id t) ∧ claims id t = job.maxAttempts ∧
        job.status = .deadLetter ∧ LastError r job (runs id t)) := by
  cases h with
  | waiting h => exact .inl h
  | held c past claim isClaim => exact absurd ⟨c, claim, isClaim⟩ hfree
  | completed past free status bounded handles failed outcomes =>
    exact .inr (.inl ⟨by simp [outcomes], status⟩)
  | dead free status usedUp failed last => exact .inr (.inr ⟨failed, usedUp, status, last⟩)

theorem Waiting.ready (h : Waiting r t id job) {now : Time} (hrun : job.runAfter ≤ now) :
    job.ready now = true :=
  Job.ready_iff.mpr ⟨hrun, by rcases h.status with hs | hs <;> simp [hs]⟩

theorem Course.success {k : ℕ} (h : Course r t id job) (hk : (runs id t)[k]? = some none) :
    (runs id t).length = k + 1 ∧ claims id t = k + 1 ∧ (¬ Held id t → job.status = .completed) := by
  have hmem : none ∈ runs id t := List.mem_of_getElem? hk
  cases h with
  | waiting h => exact absurd hmem h.failed.not_mem
  | held c past claim isClaim bounded failed outcomes answered =>
    obtain ⟨n, hn, failed⟩ := failed
    rcases answered with hnil | ⟨hh, a, ha⟩
    · rw [outcomes, hnil, List.append_nil] at hmem
      exact absurd hmem failed.not_mem
    · rw [outcomes, ha] at hk ⊢
      obtain ⟨hlen, rfl⟩ := failed.success hh (by simp) hk
      exact ⟨hlen, hn, fun hfree => absurd ⟨c, claim, isClaim⟩ hfree⟩
  | completed past free status bounded handles failed outcomes =>
    obtain ⟨n, hn, failed⟩ := failed
    rw [outcomes] at hk ⊢
    obtain ⟨hlen, rfl⟩ := failed.success handles (by simp) hk
    exact ⟨hlen, hn, fun _ => status⟩
  | dead free status usedUp failed last => exact absurd hmem failed.not_mem

theorem Course.bounded (h : Course r t id job) : claims id t ≤ job.maxAttempts := by
  cases h with
  | waiting h => exact h.left.le
  | held c past claim isClaim bounded => exact bounded
  | completed past free status bounded => exact bounded
  | dead free status usedUp => exact usedUp.le

theorem spaced (h : queueSystem.Replays t w) (ho : Orderly t) (hasks : ByWorkers r t)
    (hp : Prompt t) : Spaced r id t := by
  rw [Spaced, always_iff]
  rintro newer e older rfl job hc rfl hne
  obtain ⟨w₁, w₀, h₀, hx⟩ := h.of_append
  obtain ⟨workerID, now, visibilityTimeout, id, job₀, hcall, hl, hready, rfl, -⟩ :=
    exec_claimed hx hc
  have hrec := recorded h₀ ho.of_append.tail
  obtain rfl : job₀.id = id := (hrec.stored id job₀ hl).id_eq
  have hcourse := course h₀ ho.of_append.tail hasks.of_append.2 hp.of_append.2 hl
  have hwaiting := hcourse.waiting_of_ready h₀ ho.of_append.tail hasks.of_append.2 hp.of_append
    hl hready (by rw [hcall]; rfl)
  obtain ⟨f, failedAt, message, hnew, hf, hrun⟩ := hwaiting.putBack hne
  refine ⟨f, job₀.runAfter, failedAt, message, hnew, hf, hrun, fun now' hnow => ?_⟩
  rw [hcall] at hnow
  cases hnow
  exact (Job.ready_iff.mp hready).1

/-! ## Going on -/

/-- The entries of a thread that makes all its calls with the same choices. -/
def madeBy (i : ℕ) (cmd : QueueCommand) (env : QueueEnv) (h : List QueueExchange) :
    List QueueEntry := h.map (⟨i, cmd, env, ·⟩)

/-- The job is stored with this number of attempts. -/
def Limits (w : QueueWorld) (id : String) (maxAttempts : Int) : Prop :=
  ∃ job, w.store.jobs.lookup id = some job ∧ job.maxAttempts = maxAttempts

theorem Limits.update {maxAttempts : Int} (h : Limits w id maxAttempts) (jobID : String)
    {f : Job → Job} (hf : ∀ job, (f job).maxAttempts = job.maxAttempts) :
    Limits { w with store := w.store.update jobID f } id maxAttempts := by
  obtain ⟨job, hl, hmax⟩ := h
  rw [Limits]
  simp only [MemoryStore.lookup_update]
  split
  · exact ⟨f job, by rw [hl]; rfl, (hf job).trans hmax⟩
  · exact ⟨job, hl, hmax⟩

/-- The worker has reported on the job. -/
def Reported (id : String) (maxAttempts : Int) (i : ℕ) (cmd : QueueCommand) (env : QueueEnv)
    (t : List QueueEntry) (p : QueuePool) : Prop :=
  Limits p.state id maxAttempts ∧ ∃ report, reportedID report = some id ∧
    p.trace = madeBy i cmd env [report, ⟨.now, env.now⟩] ++ t

/-- A worker with a failure can report it. -/
theorem Runner.fail_reaches (r : Runner) (message : String) (cmd : QueueCommand) (env : QueueEnv)
    (threads : List (Thread queueEffects QueueCommand AppError Unit)) (t : List QueueEntry)
    {maxAttempts : Int} (hid : job.id = id) (hlim : Limits w id maxAttempts) :
    queueSystem.Reaches (Reported id maxAttempts threads.length cmd env t)
      ⟨w, threads ++ [⟨cmd, r.fail job message⟩], t⟩ := by
  refine System.reaches_call env rfl ?_
  simp only [Program.ret_bind]
  by_cases hmax : job.attempts ≥ job.maxAttempts
  · rw [if_pos hmax]
    refine System.reaches_call env rfl (.of_holds ⟨?_, _, ?_, rfl⟩)
    · exact hlim.update job.id fun _ => rfl
    · exact congrArg some hid
  · rw [if_neg hmax]
    refine System.reaches_call env rfl (.of_holds ⟨?_, _, ?_, rfl⟩)
    · exact hlim.update job.id fun _ => rfl
    · exact congrArg some hid

/-- A worker of the runner has claimed the job, run its handler with this
answer if there is one, and reported, with no call of another thread in between. -/
def Round (r : Runner) (id : String) (answer : Option String) (t t' : List QueueEntry) : Prop :=
  ∃ i env job claim report, job.id = id ∧ claimedJob claim = some job ∧
    reportedID report = some id ∧
    t' = madeBy i (.processOnce r) env ([report, ⟨.now, env.now⟩] ++
      ((if r.handles job.type then [⟨.handle job, answer⟩] else []) ++
        [claim, ⟨.now, env.now⟩])) ++ t

/-- A job that is ready can be given a round. -/
theorem Runner.processOnce_reaches (r : Runner) (p : QueuePool) {now : Time}
    (hl : p.state.store.jobs.lookup id = some job) (hid : job.id = id)
    (hready : job.ready now = true) (answer : Option String) :
    queueSystem.Reaches (fun q => Limits q.state id job.maxAttempts ∧
      Round r id answer p.trace q.trace) p := by
  obtain ⟨order, s, hclaim⟩ := MemoryStore.exists_claim hl hready r.workerID
    r.queue.cfg.visibilityTimeout
  let env : QueueEnv := ⟨now, sampleUlid 0, order, answer⟩
  let claimed := job.claimed r.workerID now r.queue.cfg.visibilityTimeout
  let claim : QueueExchange :=
    ⟨.claimNext r.workerID now r.queue.cfg.visibilityTimeout, .ok (some claimed)⟩
  have hx : QueueWorld.exec env (.claimNext r.workerID now r.queue.cfg.visibilityTimeout) p.state =
      some (.ok (some claimed), { p.state with store := s }) := by
    rw [QueueWorld.exec, show env.order = order from rfl, hclaim]
    rfl
  have hlim : Limits { p.state with store := s } id job.maxAttempts := by
    rcases exec_lookup hx id with hsame | ⟨_, hnew, -⟩ | ⟨_, _, _, job', hl', -, -, hin⟩ |
      ⟨_, hrep, -⟩
    · exact ⟨job, hsame.trans hl, rfl⟩
    · cases hnew
    · obtain rfl := Option.some.inj (hl'.symm.trans hl)
      exact ⟨_, hin, rfl⟩
    · cases hrep
  refine System.reaches_start (.processOnce r) ?_
  refine System.reaches_call env rfl (System.reaches_call env hx ?_)
  have hid : claimed.id = id := hid
  simp only [Program.ret_bind]
  by_cases hh : r.handles claimed.type = true
  · simp only [hh, Bool.not_true, Bool.false_eq_true, ↓reduceIte]
    refine System.reaches_call env rfl ?_
    simp only [Program.ret_bind]
    cases answer with
    | some message =>
      refine (r.fail_reaches message _ env _ _ hid hlim).trans ?_
      rintro q ⟨hq, report, hr, ht⟩
      refine .of_holds ⟨hq, p.threads.length, env, claimed, claim, report, hid, rfl, hr, ?_⟩
      rw [if_pos hh, ht]
      rfl
    | none =>
      refine System.reaches_call env rfl (System.reaches_call env rfl (.of_holds ⟨?_, ?_⟩))
      · exact hlim.update job.id fun _ => rfl
      · refine ⟨p.threads.length, env, claimed, claim, ⟨.complete claimed.id now, .ok ()⟩, hid,
          rfl, congrArg some hid, ?_⟩
        rw [if_pos hh]
        rfl
  · rw [Bool.not_eq_true] at hh
    simp only [hh, Bool.not_false, ↓reduceIte]
    refine (r.fail_reaches "handler not registered" _ env _ _ hid hlim).trans ?_
    rintro q ⟨hq, report, hr, ht⟩
    refine .of_holds ⟨hq, p.threads.length, env, claimed, claim, report, hid, rfl, hr, ?_⟩
    rw [hh, ht]
    rfl

theorem mem_madeBy {i : ℕ} {cmd : QueueCommand} {env : QueueEnv} {h : List QueueExchange} :
    e ∈ madeBy i cmd env h ↔ ∃ x ∈ h, e = ⟨i, cmd, env, x⟩ := by
  simp [madeBy, eq_comm]

/-- What a round adds to the history of its job. -/
theorem Round.history {a : Option String} {t' : List QueueEntry} (h : Round r id a t t') :
    claims id t' = claims id t + 1 ∧ (runs id t' = runs id t ∨ runs id t' = runs id t ++ [a]) := by
  obtain ⟨i, env, job, claim, report, rfl, hc, hr, rfl⟩ := h
  have hreport : claimedJob report = none ∧ handlerAnswer job.id report = none := by
    obtain ⟨c, b⟩ := report
    cases c <;> first | exact ⟨rfl, rfl⟩ | cases hr
  have hclaim : handlerAnswer job.id claim = none := by
    obtain ⟨c, b⟩ := claim
    cases c <;> first | rfl | cases hc
  have hnow : claimedJob ⟨.now, env.now⟩ = none ∧ handlerAnswer job.id ⟨.now, env.now⟩ = none :=
    ⟨rfl, rfl⟩
  have hrun : claimedJob ⟨.handle job, a⟩ = none ∧
      handlerAnswer job.id ⟨.handle job, a⟩ = some a := ⟨rfl, if_pos rfl⟩
  constructor
  · split <;> simp [madeBy, claims_cons, hc, hreport, hnow, hrun]
  · split <;> simp [madeBy, runs_cons, hclaim, hreport, hnow, hrun]

/-- After a round its worker has nothing in its hands. -/
theorem Round.free {a : Option String} {t' : List QueueEntry} (h : Round r id a t t')
    (hfree : ∀ id', ¬ Held id' t) (id' : String) : ¬ Held id' t' := by
  obtain ⟨i, env, job, claim, report, rfl, hc, hr, rfl⟩ := h
  rintro ⟨c, hn, hcl⟩
  have hreport : claimedJob report = none := by
    obtain ⟨c, b⟩ := report
    cases c <;> first | rfl | cases hr
  by_cases hid : job.id = id'
  · subst hid
    rw [madeBy, List.cons_append, List.map_cons, List.cons_append, newest_cons,
      if_pos (by simp [touchedID, hreport, hr])] at hn
    cases hn
    rw [hreport] at hcl
    cases hcl
  · refine hfree id' ⟨c, ?_, hcl⟩
    rw [newest, List.find?_append, List.find?_eq_none.mpr ?_] at hn
    · exact hn
    intro f hf hk
    obtain ⟨x, hx, rfl⟩ := mem_madeBy.mp hf
    have hk := of_decide_eq_true hk
    have hx : x = report ∨ x = ⟨.now, env.now⟩ ∨ x = ⟨.handle job, a⟩ ∨ x = claim := by
      revert hx
      split <;> simp <;> tauto
    rcases hx with rfl | rfl | rfl | rfl
    · simp [touchedID, hreport, hr, hid] at hk
    · cases hk
    · cases hk
    · simp [touchedID, hc, hid] at hk

theorem Round.oneRunner {a : Option String} {t' : List QueueEntry} (h : Round r id a t t')
    (hone : OneRunner r t) : OneRunner r t' := by
  obtain ⟨i, env, job, claim, report, -, -, -, rfl⟩ := h
  intro e he r' hcmd
  rcases List.mem_append.mp he with he | he
  · obtain ⟨x, -, rfl⟩ := mem_madeBy.mp he
    exact (QueueCommand.processOnce.inj hcmd).symm
  · exact hone e he r' hcmd

/-- When no worker has a job in its hands, a round is in time. -/
theorem Round.prompt {a : Option String} {t' : List QueueEntry} (h : Round r id a t t')
    (hrep : queueSystem.Replays t w) (ho : Orderly t) (hasks : ByWorkers r t) (hp : Prompt t)
    (hfree : ∀ id', ¬ Held id' t) : Prompt t' := by
  obtain ⟨i, env, job, claim, report, rfl, hc, hr, rfl⟩ := h
  have hreport : claimTime report.call = none := by
    obtain ⟨c, b⟩ := report
    cases c <;> first | rfl | cases hr
  have hnone : ∀ c ∈ t, ∀ job' ∈ claimedJob c.exchange, ¬ Unreported c job'.id t := by
    intro c hmem job' hc' hu
    exact hfree job'.id ⟨c, unreported_newest hrep ho hasks hp hmem hc' hu, by
      rw [show claimedJob c.exchange = some job' from hc']; rfl⟩
  have hclaim : ∀ now ∈ claimTime claim.call,
      ∀ c ∈ (⟨i, .processOnce r, env, ⟨.now, env.now⟩⟩ :: t),
      ∀ job' ∈ claimedJob c.exchange, ∀ u ∈ job'.lockedUntil,
      Unreported c job'.id (⟨i, .processOnce r, env, ⟨.now, env.now⟩⟩ :: t) → now ≤ u := by
    intro now _ c hmem job' hc' u _ hu
    rcases List.mem_cons.mp hmem with rfl | hmem
    · cases hc'
    · exact absurd (fun g hg => hu g (List.mem_cons_of_mem _ hg)) (hnone c hmem job' hc')
  have hquiet : ∀ {e : QueueEntry} {older : List QueueEntry}, claimTime e.exchange.call = none →
      Prompt older → Prompt (e :: older) := by
    intro e older hnow hp
    refine ⟨fun now hmem => ?_, hp⟩
    rw [hnow] at hmem
    cases hmem
  refine hquiet hreport (hquiet rfl ?_)
  split
  · exact hquiet rfl ⟨hclaim, hquiet rfl hp⟩
  · exact ⟨hclaim, hquiet rfl hp⟩

/-- The run can go on, by workers of the runner that report in time, until the
job is at its end, with any outcomes of the runs of its handler to come. -/
def CanEnd (r : Runner) (p : QueuePool) (id : String) : Prop :=
  ∀ outcome : ℕ → Option String, queueSystem.Reaches (fun q =>
    OneRunner r q.trace ∧ Prompt q.trace ∧
    (∃ n, runs id q.trace =
      runs id p.trace ++ (List.range' (runs id p.trace).length n).map outcome) ∧
    ∃ job, q.state.store.jobs.lookup id = some job ∧
      (job.status = .completed ∨ job.status = .deadLetter)) p

/-- **Progress.** Every round uses up an attempt of the job. -/
theorem can_end {ms : List QueueMove} {p : QueuePool} (h : queueSystem.run ms = some p)
    (hone : OneRunner r p.trace) (hp : Prompt p.trace)
    (hl : p.state.store.jobs.lookup id = some job) (hfree : ∀ id', ¬ Held id' p.trace) :
    CanEnd r p id := by
  intro outcome
  obtain ⟨n, hn⟩ : ∃ n : ℕ, job.maxAttempts ≤ claims id p.trace + n :=
    ⟨job.maxAttempts.toNat, by omega⟩
  induction n generalizing ms p job with
  | zero =>
    rcases (course (System.run_replays h) (run_orderly h) (run_byWorkers h hone) hp
      hl).of_free (hfree id) with hwait | ⟨-, hend⟩ | ⟨-, -, hend, -⟩
    · have hleft := hwait.left
      omega
    · exact .of_holds ⟨hone, hp, ⟨0, by simp⟩, job, hl, .inl hend⟩
    · exact .of_holds ⟨hone, hp, ⟨0, by simp⟩, job, hl, .inr hend⟩
  | succ n ih =>
    have hrep := System.run_replays h
    have ho := run_orderly h
    have hasks := run_byWorkers h hone
    rcases (course hrep ho hasks hp hl).of_free (hfree id) with hwait | ⟨-, hend⟩ | ⟨-, -, hend, -⟩
    · have hid : job.id = id := ((recorded hrep ho).stored id job hl).id_eq
      obtain ⟨ms₁, p₁, hp₁, ⟨job₁, hl₁, hmax⟩, hround⟩ := r.processOnce_reaches p hl hid
        (hwait.ready (le_refl _)) (outcome (runs id p.trace).length)
      have hrun : queueSystem.run (ms ++ ms₁) = some p₁ := by
        rw [System.run, System.runFrom_append, show queueSystem.runFrom ms _ = some p from h]
        exact hp₁
      obtain ⟨hclaims, hruns⟩ := hround.history
      obtain ⟨ms₂, p₂, hp₂, hone₂, hprompt₂, ⟨m, hm⟩, hend⟩ := ih hrun (hround.oneRunner hone)
        (hround.prompt hrep ho hasks hp hfree) hl₁ (hround.free hfree)
        (by rw [hmax, hclaims]; push_cast; omega)
      refine ⟨ms₁ ++ ms₂, p₂, by rw [System.runFrom_append, hp₁]; exact hp₂, hone₂, hprompt₂, ?_,
        hend⟩
      rcases hruns with hruns | hruns
      · exact ⟨m, by rw [hm, hruns]⟩
      · refine ⟨m + 1, ?_⟩
        rw [hm, hruns, List.range'_succ]
        simp
    · exact .of_holds ⟨hone, hp, ⟨0, by simp⟩, job, hl, .inl hend⟩
    · exact .of_holds ⟨hone, hp, ⟨0, by simp⟩, job, hl, .inr hend⟩

/-- **Retries are exact.** When the workers of one runner report on their jobs
before the locks end, a job is run until its first success and claimed at most
`MaxAttempts` times, after a failure not before the delay, and ends completed or
dead-lettered; and while no worker has a job in its hands the run can go on to
this end. -/
theorem retries_exact (r : Runner) (ms : List QueueMove) (p : QueuePool)
    (h : queueSystem.run ms = some p) (hone : OneRunner r p.trace) (hp : Prompt p.trace)
    (id : String) (job : Job) (hl : p.state.store.jobs.lookup id = some job) :
    RetriesExact r p.trace id job ∧ ((∀ id', ¬ Held id' p.trace) → CanEnd r p id) := by
  have hrep := System.run_replays h
  have ho := run_orderly h
  have hasks := run_byWorkers h hone
  have hcourse := course hrep ho hasks hp hl
  refine ⟨⟨hcourse.bounded, fun k => hcourse.success, ?_, ?_, ?_, spaced hrep ho hasks hp⟩,
    can_end h hone hp hl⟩
  · intro hno hfree
    rcases hcourse.of_free hfree with hwait | ⟨hsome, -⟩ | ⟨hfailed, -, hend⟩
    · exact ⟨hwait.failed, fun hmax => absurd hmax hwait.left.ne⟩
    · exact absurd hsome hno
    · exact ⟨hfailed, fun _ => hend⟩
  · intro hno hfree hlt now hrun
    rcases hcourse.of_free hfree with hwait | ⟨hsome, -⟩ | ⟨-, hmax, -⟩
    · exact hwait.ready hrun
    · exact absurd hsome hno
    · exact absurd hmax hlt.ne
  · intro hfree now hrun hready
    rcases hcourse.of_free hfree with hwait | hend | ⟨hfailed, hend⟩
    · rw [hwait.ready hrun] at hready
      cases hready
    · exact .inl hend
    · exact .inr ⟨hfailed.not_mem, hend⟩

/-- The runner of the workers of `workerMoves`. -/
def sampleRunner (jobMaxAttempts : Int) : Runner :=
  ⟨sampleQueue jobMaxAttempts, "worker", fun _ => true⟩

theorem timelyMoves_oneRunner {p : QueuePool} (h : queueSystem.run timelyMoves = some p) :
    OneRunner (sampleRunner 5) p.trace := by
  intro e he r' hcmd
  have hstart := System.run_started h e he
  rw [hcmd] at hstart
  simpa [timelyMoves, enqueueMoves, workerMoves, sampleRunner] using hstart

theorem retries_exact_retried :
    ∃ p job, queueSystem.run timelyMoves = some p ∧
      p.state.store.jobs.lookup sampleJob = some job ∧ job.status = .completed ∧
      runs sampleJob p.trace = [some "unavailable", none] ∧
      RetriesExact (sampleRunner 5) p.trace sampleJob job ∧
      ((∀ id', ¬ Held id' p.trace) → CanEnd (sampleRunner 5) p sampleJob) := by
  have hrun : (queueSystem.run timelyMoves).any (fun p =>
      (p.state.store.jobs.lookup sampleJob).any (·.status = .completed) &&
        decide (runs sampleJob p.trace = [some "unavailable", none]) &&
        decide (Prompt p.trace)) = true := by decide +kernel
  obtain ⟨p, hp, hcheck⟩ := (Option.any_eq_true _ _).mp hrun
  obtain ⟨hcheck, hprompt⟩ := Bool.and_eq_true_iff.mp hcheck
  obtain ⟨hjob, hruns⟩ := Bool.and_eq_true_iff.mp hcheck
  obtain ⟨job, hl, hstatus⟩ := (Option.any_eq_true _ _).mp hjob
  exact ⟨p, job, hp, hl, of_decide_eq_true hstatus, of_decide_eq_true hruns,
    retries_exact _ _ p hp (timelyMoves_oneRunner hp) (of_decide_eq_true hprompt) sampleJob job hl⟩

end WaveCast.Async
