import WaveCast.Async.Deliveries

/-!
# Ownership of jobs

When every worker reports in time, the lock of a job is a lease
(`jobs_leased`) and the queue keeps its promises (`timely_ownership`): claims
of a job do not overlap, completed and dead-lettered jobs stay as they are, the
attempts of a job count its claims, and no other job is ever stranded.
-/

namespace WaveCast.Async

open Interaction

/-- The time a claim is made with. -/
def claimTime : QueueEffect → Option Time
  | .claimNext _ now _ => some now
  | _ => none

structure Timely (t : List QueueEntry) : Prop where
  /-- The clock does not go back. -/
  forward : Always (fun older e => ∀ f ∈ older, f.env.now ≤ e.env.now) t
  /-- Claims are made with a reading of the clock. -/
  current : Always (fun _ e => ∀ now ∈ claimTime e.exchange.call, now ≤ e.env.now) t
  /-- A worker reports on a job no later than the lock of its claim ends. -/
  inTime : Always (fun older e => ∀ id ∈ reportedID e.exchange,
    ∀ c ∈ newestOf jobKey worker e.thread id older, ∀ u ∈ lockExpiry c, e.env.now ≤ u) t

instance (t : List QueueEntry) : Decidable (Timely t) :=
  decidable_of_iff
    (Always (fun older e => ∀ f ∈ older, f.env.now ≤ e.env.now) t ∧
      Always (fun _ e => ∀ now ∈ claimTime e.exchange.call, now ≤ e.env.now) t ∧
      Always (fun older e => ∀ id ∈ reportedID e.exchange,
        ∀ c ∈ newestOf jobKey worker e.thread id older, ∀ u ∈ lockExpiry c, e.env.now ≤ u) t)
    ⟨fun h => ⟨h.1, h.2.1, h.2.2⟩, fun h => ⟨h.1, h.2, h.3⟩⟩

/-- Between two claims of a job, the worker of the first one reports on it
before anyone else claims it or reports on it, or its lock ends. -/
def ClaimsSeparated (t : List QueueEntry) : Prop :=
  ∀ newer e₂ mid e₁ older job₁ job₂, t = newer ++ e₂ :: (mid ++ e₁ :: older) →
    claimedJob e₁.exchange = some job₁ → claimedJob e₂.exchange = some job₂ → job₂.id = job₁.id →
    (∃ m₁ r m₂, mid = m₁ ++ r :: m₂ ∧ reportedID r.exchange = some job₁.id ∧
      r.thread = e₁.thread ∧ ∀ f ∈ m₂, jobKey f ≠ some job₁.id) ∨
    ∃ u, job₁.lockedUntil = some u ∧ u < e₂.env.now

/-- What was once completed or dead-lettered is still stored as it was. -/
def TerminalStays (t : List QueueEntry) (w : QueueWorld) : Prop :=
  ∀ newer older w₀ id job, t = newer ++ older → queueSystem.Replays older w₀ →
    w₀.store.jobs.lookup id = some job → (job.status = .completed ∨ job.status = .deadLetter) →
    w.store.jobs.lookup id = some job

def AttemptsCounted (t : List QueueEntry) (w : QueueWorld) : Prop :=
  ∀ id job, w.store.jobs.lookup id = some job → job.attempts = claims id t

/-- A job that is neither completed nor dead-lettered can be claimed whenever
its time has come and its lock has ended. -/
def NeverStranded (w : QueueWorld) : Prop :=
  ∀ id job, w.store.jobs.lookup id = some job → job.status ≠ .completed →
    job.status ≠ .deadLetter → ∀ now, job.runAfter < now →
    (∀ u, job.lockedUntil = some u → u < now) → job.ready now = true

variable {t newer older : List QueueEntry} {w w₀ w₁ : QueueWorld} {e : QueueEntry} {id : String}
  {job : Job}

theorem Timely.tail (h : Timely (e :: older)) : Timely older :=
  ⟨h.forward.2, h.current.2, h.inTime.2⟩

theorem never_stranded (h : Recorded t w) : NeverStranded w := by
  intro id job hl hc hd now hrun hlock
  refine Job.ready_iff.mpr ⟨hrun.le, ?_⟩
  have hleft := (h.stored id job hl).left
  unfold LeftBy at hleft
  split at hleft
  · exact .inl hleft
  · split at hleft
    · obtain ⟨-, hs, hu⟩ := hleft
      obtain ⟨u, hu⟩ := Option.isSome_iff_exists.mp hu
      exact .inr (.inr ⟨hs, u, hu, hlock u hu⟩)
    · exact absurd hleft hc
    · exact .inr (.inl hleft.1)
    · exact absurd hleft hd
    · exact hleft.elim

/-! ## Locks are leases -/

theorem reported_of_unlocked (h : queueSystem.exec e.env e.exchange.call w₀ =
    some (e.exchange.answer, w₁)) (hk : jobKey e = some id) (hu : lockExpiry e = none) :
    reportedID e.exchange = some id := by
  cases hc : claimedJob e.exchange with
  | some job =>
    obtain ⟨workerID, now, visibilityTimeout, id', job₀, -, -, -, rfl, -⟩ := exec_claimed h hc
    simp [lockExpiry, hc, Job.claimed] at hu
  | none => simpa [touchedID, hc] using hk

/-- The newest claim of a job is the one that is stored. -/
theorem Recorded.newest_claim (h : Recorded t w) {c : QueueEntry} {id : String}
    (hn : newest jobKey id t = some c) {job' : Job} (hc : claimedJob c.exchange = some job')
    (hl : w.store.jobs.lookup id = some job) : job = job' ∧ job.status = .running := by
  have hleft := (h.stored id job hl).left
  obtain ⟨i, cmd, env, x⟩ := c
  rw [hn] at hleft
  simp only [LeftBy] at hleft
  split at hleft
  · cases hc
    exact ⟨hleft.1, hleft.2.1⟩
  · cases hc
  · cases hc
  · cases hc
  · exact hleft.elim

/-- **The lock of a job is a lease** when reports come in time. -/
theorem jobs_leased (h : queueSystem.Replays t w) (ho : Orderly t) (ht : Timely t) :
    Leased jobKey lockExpiry worker (fun e => e.env.now) t := by
  refine ⟨ht.forward, ?_, ?_⟩
  · rw [always_iff]
    rintro newer e older rfl k c u hk hlock hnew hu
    obtain ⟨w₁, w₀, h₀, hx⟩ := h.of_append
    have hrec := recorded h₀ ho.of_append.tail
    obtain ⟨job, hc⟩ : ∃ job, claimedJob e.exchange = some job := by
      cases hc : claimedJob e.exchange with
      | some job => exact ⟨job, rfl⟩
      | none => simp [lockExpiry, hc] at hlock
    obtain ⟨workerID, now, visibilityTimeout, id, job₀, hcall, hl, hready, rfl, -⟩ :=
      exec_claimed hx hc
    have hid : id = k := by
      rw [jobKey_of_claimed hc] at hk
      exact (hrec.stored id job₀ hl).id_eq.symm.trans (Option.some.inj hk)
    subst hid
    obtain ⟨job', hc', hu'⟩ := Option.bind_eq_some_iff.mp hu
    obtain ⟨rfl, hs⟩ := hrec.newest_claim hnew hc' hl
    have hnow := ht.current.at now (by rw [hcall]; rfl)
    rcases (Job.ready_iff.mp hready).2 with hs' | hs' | ⟨-, u', hu₁, hlt⟩
    · rw [hs] at hs'; cases hs'
    · rw [hs] at hs'; cases hs'
    · rw [hu'] at hu₁
      cases hu₁
      exact hlt.trans_le hnow
  · rw [always_iff]
    rintro newer e older rfl k hk hlock
    obtain ⟨w₁, w₀, h₀, hx⟩ := h.of_append
    have hrep := reported_of_unlocked hx hk hlock
    obtain ⟨c, hown, hc⟩ := ho.owned.at k hrep
    obtain ⟨⟨-, -⟩, mid, rest, rfl, -⟩ := newestOf_eq_some.mp hown
    obtain ⟨job, hc⟩ := Option.isSome_iff_exists.mp hc
    obtain ⟨w₂, w₃, hx'⟩ := h₀.executed (show c ∈ mid ++ c :: rest by simp)
    obtain ⟨workerID, now, visibilityTimeout, id, job₀, -, -, -, rfl, -⟩ := exec_claimed hx' hc
    have hu : lockExpiry c = some (now + visibilityTimeout) := by simp [lockExpiry, hc, Job.claimed]
    exact ⟨c, _, hown, hu, ht.inTime.at k hrep c hown _ hu⟩

/-- A timely report finds its job running. -/
theorem report_finds_running (h : queueSystem.Replays (e :: older) w)
    (ho : Orderly (e :: older)) (ht : Timely (e :: older))
    (hr : reportedID e.exchange = some id) (h₀ : queueSystem.Replays older w₀)
    (hl : w₀.store.jobs.lookup id = some job) : job.status = .running := by
  have hlease := (jobs_leased h ho ht).report_newest.1
  have hc : claimedJob e.exchange = none := by
    obtain ⟨i, cmd, env, ⟨c, a⟩⟩ := e
    cases c <;> first | rfl | cases hr
  have hnew := hlease id (by simp [touchedID, hc, hr]) (by simp [lockExpiry, hc])
  obtain ⟨c, hown, hcl⟩ := ho.owned.1 id hr
  obtain ⟨job', hcl⟩ := Option.isSome_iff_exists.mp hcl
  rw [hown] at hnew
  exact ((recorded h₀ ho.tail).newest_claim hnew hcl hl).2

/-! ## Terminal jobs -/

/-- A job that nothing claims stays as it is until a report on it. -/
theorem Recorded.keeps (h : Recorded older w₀) (ho : Orderly (e :: older))
    (hx : queueSystem.exec e.env e.exchange.call w₀ = some (e.exchange.answer, w₁))
    (hl : w₀.store.jobs.lookup id = some job)
    (hready : ∀ now, job.ready now = false) (hr : reportedID e.exchange ≠ some id) :
    w₁.store.jobs.lookup id = some job := by
  rcases exec_lookup hx id with hsame | ⟨new, hnew, hid, -⟩ |
    ⟨_, now, _, job', hl', hready', -, -⟩ | ⟨f, hrep, -⟩
  · exact hsame.trans hl
  · rw [← hid, h.fresh_absent ho hnew] at hl
    cases hl
  · rw [hl] at hl'
    cases hl'
    rw [hready now] at hready'
    cases hready'
  · exact absurd hrep hr

theorem terminal_stays (h : queueSystem.Replays t w) (ho : Orderly t) (ht : Timely t) :
    TerminalStays t w := by
  intro newer older w₀ id job hsplit h₀ hl hterm
  subst hsplit
  induction newer generalizing w with
  | nil =>
    obtain rfl := h.unique h₀
    exact hl
  | cons e newer ih =>
    obtain ⟨w₁, h₁, hx⟩ := h
    have hl₁ := ih h₁ ho.tail ht.tail
    refine (recorded h₁ ho.tail).keeps ho hx hl₁ (fun now => Job.not_ready now hterm) ?_
    intro hr
    have hs := report_finds_running ⟨w₁, h₁, hx⟩ ho ht hr h₁ hl₁
    rcases hterm with hterm | hterm <;> rw [hs] at hterm <;> cases hterm

theorem claims_separated (h : queueSystem.Replays t w) (ho : Orderly t) (ht : Timely t) :
    ClaimsSeparated t := by
  rintro newer e₂ mid e₁ older job₁ job₂ rfl h₁ h₂ hid
  have hlease := jobs_leased h ho ht
  have hlocked : ∀ e ∈ newer ++ e₂ :: (mid ++ e₁ :: older), ∀ job,
      claimedJob e.exchange = some job → ∃ u, job.lockedUntil = some u := by
    intro e he job hc
    obtain ⟨w₂, w₃, hx⟩ := h.executed he
    obtain ⟨_, now, visibilityTimeout, _, _, -, -, -, rfl, -⟩ := exec_claimed hx hc
    exact ⟨_, rfl⟩
  obtain ⟨u₁, hu₁⟩ := hlocked e₁ (by simp) job₁ h₁
  obtain ⟨u₂, hu₂⟩ := hlocked e₂ (by simp) job₂ h₂
  rcases hlease.separated (k := job₁.id) (u := u₁) (jobKey_of_claimed h₁)
    (by simp [lockExpiry, h₁, hu₁]) (by rw [jobKey_of_claimed h₂, hid])
    (by simp [lockExpiry, h₂, hu₂]) with
    ⟨m₁, r, m₂, rfl, hk, hr, hcl, hm₂⟩ | hlt
  · obtain ⟨w₂, w₃, hx⟩ := h.executed
      (show r ∈ newer ++ e₂ :: (m₁ ++ r :: m₂ ++ e₁ :: older) by simp)
    exact .inl ⟨m₁, r, m₂, rfl, reported_of_unlocked hx hk hr, hcl, hm₂⟩
  · exact .inr ⟨u₁, hu₁, hlt⟩

/-- **Ownership.** When every worker reports at most once on each claim and
before its lock ends, claims of a job do not overlap, completed and
dead-lettered are terminal, the attempts count the claims, and every other job
can be claimed again. -/
theorem timely_ownership (t : List QueueEntry) (w : QueueWorld) (h : queueSystem.Replays t w)
    (ho : Orderly t) (ht : Timely t) :
    ClaimsSeparated t ∧ TerminalStays t w ∧ AttemptsCounted t w ∧ NeverStranded w :=
  ⟨claims_separated h ho ht, terminal_stays h ho ht,
    fun id job hl => ((recorded h ho).stored id job hl).attempts_eq,
    never_stranded (recorded h ho)⟩

/-! ## A small deployment

Used for concrete runs. -/

def sampleQueue (jobMaxAttempts : Int) : Queue :=
  newQueue ⟨0, jobMaxAttempts, 0, 0, 0, false, 0⟩

def sampleJob : String := newID prefixJob (sampleUlid 0)

/-- A call at a time given in seconds. -/
def callAt (now : Int) : QueueEnv := ⟨now * second, sampleUlid 0, [sampleJob], none⟩

/-- A handler that fails. -/
def failingAt (now : Int) : QueueEnv := { callAt now with handlerError := some "unavailable" }

/-- One job is enqueued by thread 0. -/
def enqueueMoves (jobMaxAttempts : Int) : List QueueMove :=
  .start (.enqueue (sampleQueue jobMaxAttempts) "close_room_sessions" "key" (.ok "{}")) ::
    List.replicate 3 (.call 0 (callAt 0))

/-- Thread `i` is a worker that makes the given calls. -/
def workerMoves (jobMaxAttempts : Int) (i : ℕ) (envs : List QueueEnv) : List QueueMove :=
  .start (.processOnce ⟨sampleQueue jobMaxAttempts, "worker", fun _ => true⟩) ::
    envs.map (.call i)

/-- The first worker fails and the job is retried by the second one. -/
def timelyMoves : List QueueMove :=
  enqueueMoves 5 ++ workerMoves 5 1 [callAt 1, callAt 1, failingAt 2, callAt 2, callAt 2] ++
    workerMoves 5 2 [callAt 10, callAt 10, callAt 11, callAt 12, callAt 12]

theorem timely_ownership_retried :
    ∃ p, queueSystem.run timelyMoves = some p ∧
      p.state.store.jobs.lookup sampleJob ≠ none ∧
      ClaimsSeparated p.trace ∧ TerminalStays p.trace p.state ∧
      AttemptsCounted p.trace p.state ∧ NeverStranded p.state := by
  have hrun : (queueSystem.run timelyMoves).any (fun p =>
      (p.state.store.jobs.lookup sampleJob).any (·.attempts = 2) && decide (Timely p.trace)) =
      true := by decide +kernel
  obtain ⟨p, hp, hcheck⟩ := (Option.any_eq_true _ _).mp hrun
  obtain ⟨hjob, ht⟩ := Bool.and_eq_true_iff.mp hcheck
  refine ⟨p, hp, ?_, timely_ownership p.trace p.state (System.run_replays hp) (run_orderly hp)
    (of_decide_eq_true ht)⟩
  intro hnone
  rw [hnone] at hjob
  cases hjob

end WaveCast.Async
