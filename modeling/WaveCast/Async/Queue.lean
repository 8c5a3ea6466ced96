import WaveCast.Platform

/-!
# The job queue

`internal/core/async/types.go` and `memory_store.go`: jobs, the queue's
configuration and `MemoryStore`. Outcomes are stored under the job's id alone:
`complete`, `retry` and `deadLetter` look neither at the status of the job nor
at the owner of its lock.
-/

namespace WaveCast.Async

inductive JobStatus where
  | pending
  | running
  | completed
  | retrying
  | failed
  | deadLetter
  | cancelled
  deriving DecidableEq, Repr

/-- Counters are unbounded here; `payload` is the JSON text. -/
structure Job where
  id : String
  type : String
  status : JobStatus
  idempotencyKey : String
  payload : String
  attempts : Int
  maxAttempts : Int
  lockedBy : String
  lockedUntil : Option Time
  runAfter : Time
  lastError : String
  failedAt : Option Time
  createdAt : Time
  updatedAt : Time
  deriving DecidableEq, Repr

structure Config where
  workerConcurrency : Int
  jobMaxAttempts : Int
  visibilityTimeout : Duration
  retryBaseDelay : Duration
  retryMaxDelay : Duration
  deadLetterEnabled : Bool
  pollInterval : Duration

structure Config.Valid (cfg : Config) : Prop where
  workerConcurrency : 0 < cfg.workerConcurrency
  jobMaxAttempts : 0 < cfg.jobMaxAttempts
  visibilityTimeout : 0 < cfg.visibilityTimeout
  retryBaseDelay : 0 < cfg.retryBaseDelay
  retryMaxDelay : 0 < cfg.retryMaxDelay
  pollInterval : 0 < cfg.pollInterval

structure Queue where
  cfg : Config
  valid : cfg.Valid

def orDefault (n d : Int) : Int := if n ≤ 0 then d else n

theorem orDefault_pos {n d : Int} (h : 0 < d) : 0 < orDefault n d := by
  unfold orDefault
  split <;> omega

def newQueue (cfg : Config) : Queue where
  cfg :=
    { cfg with
      jobMaxAttempts := orDefault cfg.jobMaxAttempts 5
      visibilityTimeout := orDefault cfg.visibilityTimeout (300 * second)
      retryBaseDelay := orDefault cfg.retryBaseDelay (5 * second)
      retryMaxDelay := orDefault cfg.retryMaxDelay (300 * second)
      pollInterval := orDefault cfg.pollInterval second
      workerConcurrency := orDefault cfg.workerConcurrency 1 }
  valid := by constructor <;> exact orDefault_pos (by decide)

/-- The job that `Queue.Enqueue` hands to the store. -/
def Queue.newJob (q : Queue) (id jobType idempotencyKey payload : String) (now : Time) : Job where
  id
  type := jobType
  status := .pending
  idempotencyKey
  payload
  attempts := 0
  maxAttempts := q.cfg.jobMaxAttempts
  lockedBy := ""
  lockedUntil := none
  runAfter := now
  lastError := ""
  failedAt := none
  createdAt := now
  updatedAt := now

/-! ## What the store does to a job -/

/-- `readyToClaim` -/
def Job.ready (job : Job) (now : Time) : Bool :=
  if now < job.runAfter then false
  else if job.status ≠ .pending ∧ job.status ≠ .retrying ∧ job.status ≠ .running then false
  else if job.status = .running then job.lockedUntil.any (· < now)
  else true

def Job.claimed (job : Job) (workerID : String) (now : Time) (visibilityTimeout : Duration) : Job :=
  { job with
    status := .running
    attempts := job.attempts + 1
    lockedBy := workerID
    lockedUntil := some (now + visibilityTimeout)
    updatedAt := now }

def Job.completed (job : Job) (now : Time) : Job :=
  { job with status := .completed, lockedBy := "", lockedUntil := none, updatedAt := now }

def Job.retried (job : Job) (nextRun : Time) (lastError : String) (now : Time) : Job :=
  { job with
    status := .retrying
    runAfter := nextRun
    lastError
    lockedBy := ""
    lockedUntil := none
    updatedAt := now }

def Job.deadLettered (job : Job) (lastError : String) (now : Time) : Job :=
  { job with
    status := .deadLetter
    lastError
    failedAt := some now
    lockedBy := ""
    lockedUntil := none
    updatedAt := now }

theorem Job.ready_iff {job : Job} {now : Time} :
    job.ready now = true ↔ job.runAfter ≤ now ∧
      (job.status = .pending ∨ job.status = .retrying ∨
        job.status = .running ∧ ∃ u, job.lockedUntil = some u ∧ u < now) := by
  unfold Job.ready
  by_cases hr : now < job.runAfter
  · simp [hr]
  · rw [if_neg hr]
    have hle : job.runAfter ≤ now := not_lt.mp hr
    cases job.status <;> cases job.lockedUntil <;> simp [hle]

/-- Nothing claims a job that is completed or dead-lettered. -/
theorem Job.not_ready {job : Job} (now : Time)
    (h : job.status = .completed ∨ job.status = .deadLetter) : job.ready now = false := by
  unfold Job.ready
  rcases h with h | h <;> simp [h]

/-! ## The memory store -/

structure MemoryStore where
  jobs : Table Job
  byIDKey : Table String

namespace MemoryStore

def empty : MemoryStore := ⟨∅, ∅⟩

/-- A job under the idempotency key of `job` that is neither dead-lettered nor failed. -/
def hasLive (s : MemoryStore) (job : Job) : Bool :=
  let existingID := (s.byIDKey.lookup job.idempotencyKey).getD ""
  existingID ≠ "" && (s.jobs.lookup existingID).any fun existing =>
    existing.status ≠ .deadLetter && existing.status ≠ .failed

def enqueue (s : MemoryStore) (job : Job) : MemoryStore :=
  if s.hasLive job then s
  else ⟨s.jobs.insert job.id job, s.byIDKey.insert job.idempotencyKey job.id⟩

/-- The first job that is ready in the order in which the loop visits the ids. -/
def claimNext (s : MemoryStore) (order : List String) (workerID : String) (now : Time)
    (visibilityTimeout : Duration) : Option (Option Job × MemoryStore) :=
  if order.Nodup ∧ order.toFinset = s.jobs.keys then
    match order.find? fun id => (s.jobs.lookup id).any (·.ready now) with
    | none => some (none, s)
    | some id => (s.jobs.lookup id).map fun job =>
        let job := job.claimed workerID now visibilityTimeout
        (some job, { s with jobs := s.jobs.insert id job })
  else none

/-- Change the job with the given id, if there is one. -/
def update (s : MemoryStore) (jobID : String) (f : Job → Job) : MemoryStore :=
  match s.jobs.lookup jobID with
  | some job => { s with jobs := s.jobs.insert jobID (f job) }
  | none => s

def complete (s : MemoryStore) (jobID : String) (now : Time) : MemoryStore :=
  s.update jobID (·.completed now)

def retry (s : MemoryStore) (jobID : String) (nextRun : Time) (lastError : String) (now : Time) :
    MemoryStore :=
  s.update jobID (·.retried nextRun lastError now)

def deadLetter (s : MemoryStore) (jobID lastError : String) (now : Time) : MemoryStore :=
  s.update jobID (·.deadLettered lastError now)

@[simp] theorem lookup_update (s : MemoryStore) (jobID id : String) (f : Job → Job) :
    (s.update jobID f).jobs.lookup id =
      if id = jobID then (s.jobs.lookup id).map f else s.jobs.lookup id := by
  unfold update
  cases h : s.jobs.lookup jobID with
  | some job =>
    rw [Table.lookup_insert_ite]
    split
    · subst id; simp [h]
    · rfl
  | none =>
    by_cases hid : id = jobID
    · subst id; simp [h]
    · simp [hid]

theorem lookup_enqueue (s : MemoryStore) (job : Job) (id : String) :
    (s.enqueue job).jobs.lookup id = s.jobs.lookup id ∨
      id = job.id ∧ (s.enqueue job).jobs.lookup id = some job := by
  unfold enqueue
  split
  · exact .inl rfl
  · rw [Table.lookup_insert_ite]
    split
    · exact .inr ⟨‹_›, rfl⟩
    · exact .inl rfl

/-- What a claim can do: it returns nothing, or locks one job that is ready. -/
theorem claimNext_cases {s s' : MemoryStore} {order : List String} {workerID : String} {now : Time}
    {visibilityTimeout : Duration} {job? : Option Job}
    (h : s.claimNext order workerID now visibilityTimeout = some (job?, s')) :
    (job? = none ∧ s' = s) ∨
    ∃ id job, s.jobs.lookup id = some job ∧ job.ready now = true ∧
      job? = some (job.claimed workerID now visibilityTimeout) ∧
      s' = { s with jobs := s.jobs.insert id (job.claimed workerID now visibilityTimeout) } := by
  unfold claimNext at h
  split at h
  · split at h
    · cases h; exact .inl ⟨rfl, rfl⟩
    · rename_i id hid
      obtain ⟨job, hjob, he⟩ := Option.map_eq_some_iff.mp h
      cases he
      have hready := List.find?_some hid
      rw [hjob, Option.any_some] at hready
      exact .inr ⟨id, job, hjob, hready, rfl, rfl⟩
  · cases h

/-- A claim returns the first job that is ready in the order of visiting. -/
theorem claimNext_eq {s s' : MemoryStore} {order : List String} {workerID : String} {now : Time}
    {visibilityTimeout : Duration} {job? : Option Job}
    (h : s.claimNext order workerID now visibilityTimeout = some (job?, s')) :
    job? = (order.find? fun id => (s.jobs.lookup id).any (·.ready now)).bind fun id =>
      (s.jobs.lookup id).map (·.claimed workerID now visibilityTimeout) := by
  unfold claimNext at h
  split at h
  · split at h
    · rename_i hnone
      cases h
      rw [hnone, Option.bind_none]
    · rename_i id hid
      obtain ⟨job, hjob, he⟩ := Option.map_eq_some_iff.mp h
      cases he
      rw [hid, Option.bind_some, hjob, Option.map_some]
  · cases h

/-- A stored job that is ready is returned by a claim that visits it first. -/
theorem exists_claim {s : MemoryStore} {id : String} {job : Job} (h : s.jobs.lookup id = some job)
    {now : Time} (hr : job.ready now = true) (workerID : String) (visibilityTimeout : Duration) :
    ∃ order s', s.claimNext order workerID now visibilityTimeout =
      some (some (job.claimed workerID now visibilityTimeout), s') := by
  have hmem : id ∈ s.jobs.keys := Finmap.mem_keys.mpr (Finmap.mem_of_lookup_eq_some h)
  refine ⟨id :: (s.jobs.keys.erase id).toList,
    { s with jobs := s.jobs.insert id (job.claimed workerID now visibilityTimeout) }, ?_⟩
  have horder : (id :: (s.jobs.keys.erase id).toList).Nodup ∧
      (id :: (s.jobs.keys.erase id).toList).toFinset = s.jobs.keys := by
    constructor
    · simp [Finset.nodup_toList]
    · simp [Finset.insert_erase hmem]
  unfold claimNext
  rw [if_pos horder, List.find?_cons_of_pos (by simp [h, hr])]
  simp [h]

end MemoryStore

end WaveCast.Async
