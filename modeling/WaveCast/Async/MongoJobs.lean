import WaveCast.Async.Queue
import WaveCast.Documents.Collection
import WaveCast.Interaction.Lockstep

/-!
# The job store on MongoDB

`internal/infra/mongo/async_job_store.go`, and what it has in common with the
memory store of the queue. Both keep the same jobs as long as no job is
enqueued under the idempotency key of one that is dead-lettered or failed, and
none that is running without a lock (`job_stores_agree_iff`): the memory store
takes a key of a dead-lettered job again, the unique index does not.

Instants are at the precision of the stores. A field that is left out of a
document when it is empty is empty when the document is read.
-/

namespace WaveCast.Async

open Interaction Documents

/-- The collection `async_jobs`; `idempotencyKey` has a unique index. -/
def asyncJobs : Schema Job String String := ⟨Job.id, Job.idempotencyKey⟩

abbrev JobStore := Collection asyncJobs

/-- The filter of `ClaimNext`. -/
def Job.eligible (job : Job) (now : Time) : Bool :=
  job.runAfter ≤ now &&
    (job.status = .pending || job.status = .retrying ||
      job.status = .running && (job.lockedUntil.any (· < now) || job.lockedUntil = none))

/-- The order of `ClaimNext`. -/
def Job.Precedes (job job' : Job) : Prop :=
  job.runAfter < job'.runAfter ∨ job.runAfter = job'.runAfter ∧ job.createdAt ≤ job'.createdAt

instance : DecidableRel Job.Precedes := fun job job' =>
  inferInstanceAs (Decidable (job.runAfter < job'.runAfter ∨
    job.runAfter = job'.runAfter ∧ job.createdAt ≤ job'.createdAt))

namespace JobStore

def empty : JobStore := Collection.empty asyncJobs

/-- A duplicate key is no error: the job is dropped. -/
def enqueue (s : JobStore) (job : Job) : Except WriteError JobStore :=
  match s.insertOne job with
  | .error .duplicateKey => .ok s
  | r => r

def setRunning (workerID : String) (now : Time) (visibilityTimeout : Duration) :
    Collection.Update asyncJobs where
  run job :=
    { job with
      status := .running, lockedBy := workerID, lockedUntil := some (now + visibilityTimeout)
      updatedAt := now, attempts := job.attempts + 1 }
  keepsID _ := rfl
  keepsUnique _ := rfl

def setCompleted (now : Time) : Collection.Update asyncJobs where
  run job :=
    { job with status := .completed, updatedAt := now, lockedBy := "", lockedUntil := none }
  keepsID _ := rfl
  keepsUnique _ := rfl

def setRetrying (nextRun : Time) (lastError : String) (now : Time) :
    Collection.Update asyncJobs where
  run job :=
    { job with
      status := .retrying, runAfter := nextRun, lastError, updatedAt := now
      lockedBy := "", lockedUntil := none }
  keepsID _ := rfl
  keepsUnique _ := rfl

def setDeadLetter (lastError : String) (now : Time) : Collection.Update asyncJobs where
  run job :=
    { job with
      status := .deadLetter, lastError, failedAt := some now, updatedAt := now
      lockedBy := "", lockedUntil := none }
  keepsID _ := rfl
  keepsUnique _ := rfl

/-- `order` is the order in which the server visits jobs that are equal by `Precedes`. -/
def claimNext (s : JobStore) (order : List String) (workerID : String) (now : Time)
    (visibilityTimeout : Duration) : Option (Option Job × JobStore) :=
  s.findOneAndUpdate (·.eligible now) Job.Precedes order
    (setRunning workerID now visibilityTimeout)

def complete (s : JobStore) (jobID : String) (now : Time) : JobStore :=
  s.updateByID jobID (setCompleted now)

def retry (s : JobStore) (jobID : String) (nextRun : Time) (lastError : String) (now : Time) :
    JobStore := s.updateByID jobID (setRetrying nextRun lastError now)

def deadLetter (s : JobStore) (jobID lastError : String) (now : Time) : JobStore :=
  s.updateByID jobID (setDeadLetter lastError now)

end JobStore

/-! ## Both stores side by side -/

/-- The methods of `async.Store`. -/
inductive JobCall where
  | enqueue (job : Job)
  | claimNext (workerID : String) (now : Time) (visibilityTimeout : Duration)
  | complete (jobID : String) (now : Time)
  | retry (jobID : String) (nextRun : Time) (lastError : String) (now : Time)
  | deadLetter (jobID lastError : String) (now : Time)

/-- One method of the memory store: the job it claims, and the store. -/
def MemoryStore.step (order : List String) (s : MemoryStore) :
    JobCall → Option (Option Job × MemoryStore)
  | .enqueue job => some (none, s.enqueue job)
  | .claimNext workerID now visibilityTimeout => s.claimNext order workerID now visibilityTimeout
  | .complete jobID now => some (none, s.complete jobID now)
  | .retry jobID nextRun lastError now => some (none, s.retry jobID nextRun lastError now)
  | .deadLetter jobID lastError now => some (none, s.deadLetter jobID lastError now)

/-- One method of the store on MongoDB. A method that fails leaves it as it is. -/
def JobStore.step (order : List String) (s : JobStore) : JobCall → Option (Option Job × JobStore)
  | .enqueue job =>
      match s.enqueue job with
      | .ok s' => some (none, s')
      | .error _ => some (none, s)
  | .claimNext workerID now visibilityTimeout => s.claimNext order workerID now visibilityTimeout
  | .complete jobID now => some (none, s.complete jobID now)
  | .retry jobID nextRun lastError now => some (none, s.retry jobID nextRun lastError now)
  | .deadLetter jobID lastError now => some (none, s.deadLetter jobID lastError now)

/-- A call, and the orders in which the stores visit their jobs. -/
structure JobStep where
  call : JobCall
  order : List String
  order' : List String

/-- The same call on both stores, which claim the same job. -/
def lockstep (x : JobStep) (p : MemoryStore × JobStore) : Option (MemoryStore × JobStore) :=
  (p.1.step x.order x.call).bind fun r => (p.2.step x.order' x.call).bind fun r' =>
    if r.1.map (·.id) = r'.1.map (·.id) then some (r.2, r'.2) else none

def bothEmpty : MemoryStore × JobStore := (.empty, .empty)

/-- The stores hold the same jobs with the same statuses, so they accepted the
same jobs, and at any time the same of them can be claimed. -/
def SameJobs (m : MemoryStore) (g : JobStore) : Prop :=
  ∀ id, (m.jobs.lookup id).map (·.status) = (g.docs.lookup id).map (·.status) ∧
    ∀ now, (m.jobs.lookup id).any (·.ready now) = (g.docs.lookup id).any (·.eligible now)

/-- The job a call enqueues. -/
def JobCall.enqueued : JobCall → Option Job
  | enqueue job => some job
  | _ => none

/-- The ids of the jobs enqueued are fresh. -/
def FreshIDs (xs : List JobStep) : Prop :=
  (xs.filterMap fun x => x.call.enqueued.map (·.id)).Nodup ∧
    ∀ x ∈ xs, ∀ job, x.call.enqueued = some job → job.id ≠ ""

/-- A job is not enqueued under the idempotency key of one that is dead-lettered
or failed, and a job that is taken is not running without a lock. -/
def CleanEnqueue (m : MemoryStore) (x : JobStep) : Prop :=
  ∀ job, x.call.enqueued = some job →
    (∀ id old, m.jobs.lookup id = some old → old.idempotencyKey = job.idempotencyKey →
      old.status ≠ .deadLetter ∧ old.status ≠ .failed) ∧
    ((∀ id old, m.jobs.lookup id = some old → old.idempotencyKey ≠ job.idempotencyKey) →
      job.status = .running → job.lockedUntil ≠ none)

/-! ## The simulation -/

/-- What the stores have in common while every enqueue is clean. -/
structure Mirrors (xs : List JobStep) (m : MemoryStore) (g : JobStore) : Prop where
  jobs : m.jobs = g.docs
  keys : ∀ key id, m.byIDKey.lookup key = some id ↔
    ∃ job, m.jobs.lookup id = some job ∧ job.idempotencyKey = key
  locked : ∀ id job, m.jobs.lookup id = some job → job.status = .running → job.lockedUntil ≠ none
  named : ∀ id job, m.jobs.lookup id = some job → id ≠ ""
  fresh : FreshIDs xs
  unused : ∀ x ∈ xs, ∀ job, x.call.enqueued = some job → m.jobs.lookup job.id = none

/-- On a job that is not running without a lock, both predicates agree. -/
theorem Job.eligible_eq_ready {job : Job} (h : job.status = .running → job.lockedUntil ≠ none)
    (now : Time) : job.ready now = job.eligible now := by
  rw [Bool.eq_iff_iff, Job.ready_iff]
  cases hs : job.status <;> cases hl : job.lockedUntil <;>
    simp_all [Job.eligible, Option.any]

/-- On a job that is running without a lock they differ once it is due. -/
theorem Job.eligible_ne_ready {job : Job} (hs : job.status = .running)
    (hl : job.lockedUntil = none) : job.ready job.runAfter ≠ job.eligible job.runAfter := by
  simp [Job.ready, Job.eligible, hs, hl]

theorem Mirrors.sameJobs {xs : List JobStep} {m : MemoryStore} {g : JobStore}
    (h : Mirrors xs m g) : SameJobs m g := by
  intro id
  rw [← h.jobs]
  refine ⟨rfl, fun now => ?_⟩
  cases hl : m.jobs.lookup id with
  | none => rfl
  | some job => exact Job.eligible_eq_ready (h.locked id job hl) now

theorem Mirrors.id_eq {xs : List JobStep} {m : MemoryStore} {g : JobStore} (h : Mirrors xs m g)
    {id : String} {job : Job} (hl : m.jobs.lookup id = some job) : job.id = id := by
  rw [h.jobs] at hl
  exact g.keyed id job hl

/-- A call that enqueues nothing uses up no id. -/
theorem FreshIDs.tail {x : JobStep} {xs : List JobStep} (h : FreshIDs (x :: xs)) :
    FreshIDs xs := by
  refine ⟨?_, fun y hy => h.2 y (by simp [hy])⟩
  exact (List.Sublist.filterMap _ (List.sublist_cons_self x xs)).nodup h.1

theorem FreshIDs.head_ne {x y : JobStep} {xs : List JobStep} (h : FreshIDs (x :: xs)) (hy : y ∈ xs)
    {job job' : Job} (hx : x.call.enqueued = some job) (hy' : y.call.enqueued = some job') :
    job'.id ≠ job.id := by
  have hn := h.1
  rw [List.filterMap_cons, hx] at hn
  intro he
  refine (List.nodup_cons.mp hn).1 (List.mem_filterMap.mpr ⟨y, hy, ?_⟩)
  rw [hy', Option.map_some, he]

theorem Mirrors.skip {x : JobStep} {xs : List JobStep} {m : MemoryStore} {g : JobStore}
    (h : Mirrors (x :: xs) m g) : Mirrors xs m g :=
  ⟨h.jobs, h.keys, h.locked, h.named, h.fresh.tail, fun y hy => h.unused y (by simp [hy])⟩

/-- Both stores change one stored job in the same way. -/
theorem Mirrors.update {x : JobStep} {xs : List JobStep} {m m' : MemoryStore} {g g' : JobStore}
    {id : String} {old new : Job} (h : Mirrors (x :: xs) m g) (hl : m.jobs.lookup id = some old)
    (hm : m' = { m with jobs := m.jobs.insert id new }) (hg : g'.docs = g.docs.insert id new)
    (hkey : new.idempotencyKey = old.idempotencyKey)
    (hlock : new.status = .running → new.lockedUntil ≠ none) : Mirrors xs m' g' := by
  obtain ⟨hjobs, hkeys, hlocked, hnamed, hfresh, hunused⟩ := h
  subst hm
  refine ⟨by simp [hg, hjobs], ?_, ?_, ?_, hfresh.tail, ?_⟩
  · intro key id'
    simp only [hkeys, Table.lookup_insert_ite]
    split
    · subst id'
      simp [hl, hkey]
    · rfl
  · intro id' job hjob
    simp only [Table.lookup_insert_ite] at hjob
    split at hjob
    · cases hjob
      exact hlock
    · exact hlocked id' job hjob
  · intro id' job hjob
    simp only [Table.lookup_insert_ite] at hjob
    split at hjob
    · subst id'
      exact hnamed id old hl
    · exact hnamed id' job hjob
  · intro y hy job hjob
    have hnone := hunused y (by simp [hy]) job hjob
    simp only [Table.lookup_insert_ite]
    split
    · rename_i he
      rw [he, hl] at hnone
      cases hnone
    · exact hnone

/-- The reports on a job change it in both stores, if it is stored. -/
theorem Mirrors.report {x : JobStep} {xs : List JobStep} {m : MemoryStore} {g : JobStore}
    (h : Mirrors (x :: xs) m g) (id : String) {f : Job → Job} {u : Collection.Update asyncJobs}
    (hf : ∀ job, u.run job = f job) (hidle : ∀ job, (f job).status ≠ .running) :
    Mirrors xs (m.update id f) (g.updateByID id u) := by
  have hg := g.updateByID_docs id u
  rw [← h.jobs] at hg
  cases hl : m.jobs.lookup id with
  | some job =>
    simp only [hl, hf] at hg
    have hm : m.update id f = { m with jobs := m.jobs.insert id (f job) } := by
      simp [MemoryStore.update, hl]
    refine h.update hl hm (hg.trans (by rw [h.jobs])) ?_ fun hr => absurd hr (hidle job)
    rw [← hf]
    exact u.keepsUnique job
  | none =>
    rw [hl] at hg
    have hm : m.update id f = m := by simp [MemoryStore.update, hl]
    obtain ⟨-, hkeys, hlocked, hnamed, hfresh, hunused⟩ := h.skip
    exact ⟨by rw [hm, hg], by rwa [hm], by rwa [hm], by rwa [hm], hfresh, by rwa [hm]⟩

section Enqueue

variable {x : JobStep} {xs : List JobStep} {m : MemoryStore} {g : JobStore} {job : Job}

/-- An enqueue under the key of a stored job: the server drops the new one, the
memory store does unless the old one is dead-lettered or failed. -/
theorem Mirrors.enqueue_taken (h : Mirrors (x :: xs) m g) (hx : x.call.enqueued = some job)
    {id : String} {old : Job} (hl : m.jobs.lookup id = some old)
    (hkey : old.idempotencyKey = job.idempotencyKey) :
    g.enqueue job = .ok g ∧
      m.hasLive job = (decide (old.status ≠ .deadLetter) && decide (old.status ≠ .failed)) := by
  have hnew : m.jobs.lookup job.id = none := h.unused x (by simp) job hx
  constructor
  · have hg : g.docs = m.jobs := h.jobs.symm
    have hclash : g.Clashes job := by
      refine Collection.clashes_iff.mpr ⟨old, Collection.holds_of_lookup (hg ▸ hl), ?_, hkey⟩
      intro he
      have hid := h.id_eq hl
      rw [show asyncJobs.id old = old.id from rfl, hid] at he
      rw [show job.id = id from he.symm, hl] at hnew
      cases hnew
    rw [JobStore.enqueue, Collection.insertOne_clash hclash]
  · have hindex : m.byIDKey.lookup job.idempotencyKey = some id := (h.keys _ _).mpr ⟨old, hl, hkey⟩
    rw [MemoryStore.hasLive, hindex, Option.getD_some, hl, Option.any_some]
    simp [h.named id old hl]

/-- An enqueue under a new key: both stores take the job. -/
theorem Mirrors.enqueue_new (h : Mirrors (x :: xs) m g) (hx : x.call.enqueued = some job)
    (hno : ∀ id old, m.jobs.lookup id = some old → old.idempotencyKey ≠ job.idempotencyKey) :
    m.hasLive job = false ∧ ∃ g', g.enqueue job = .ok g' ∧ g'.docs = g.docs.insert job.id job := by
  constructor
  · have hindex : m.byIDKey.lookup job.idempotencyKey = none := by
      rw [Option.eq_none_iff_forall_ne_some]
      intro id hid
      obtain ⟨old, hl, hkey⟩ := (h.keys _ _).mp hid
      exact hno id old hl hkey
    simp [MemoryStore.hasLive, hindex]
  · have hg : g.docs = m.jobs := h.jobs.symm
    have hclash : ¬ g.Clashes job := by
      rw [Collection.clashes_iff]
      rintro ⟨old, hold, -, hkey⟩
      rw [Collection.Holds, hg] at hold
      exact hno _ old hold hkey
    have habsent : g.docs.lookup job.id = none := hg ▸ h.unused x (by simp) job hx
    refine ⟨g.put job hclash, ?_, rfl⟩
    rw [JobStore.enqueue, Collection.insertOne_put habsent hclash]

/-- A job that both stores take leaves them alike unless it is running without a lock. -/
theorem Mirrors.insert (h : Mirrors (x :: xs) m g) (hx : x.call.enqueued = some job)
    (hno : ∀ id old, m.jobs.lookup id = some old → old.idempotencyKey ≠ job.idempotencyKey)
    (hlock : job.status = .running → job.lockedUntil ≠ none) {g' : JobStore}
    (hg : g'.docs = g.docs.insert job.id job) :
    Mirrors xs ⟨m.jobs.insert job.id job, m.byIDKey.insert job.idempotencyKey job.id⟩ g' := by
  have hnew : m.jobs.lookup job.id = none := h.unused x (by simp) job hx
  obtain ⟨hjobs, hkeys, hlocked, hnamed, hfresh, hunused⟩ := h
  refine ⟨by simp [hg, hjobs], ?_, ?_, ?_, hfresh.tail, ?_⟩
  · intro key id
    simp only [Table.lookup_insert_ite]
    by_cases hid : id = job.id
    · subst hid
      by_cases hk : key = job.idempotencyKey
      · simp [hk]
      · simp only [if_neg hk, hkeys, hnew, Option.some.injEq, exists_eq_left', reduceCtorEq,
          false_and, exists_false, false_iff, if_pos]
        exact fun he => hk he.symm
    · by_cases hk : key = job.idempotencyKey
      · subst hk
        simp only [if_pos, if_neg hid, Option.some.injEq]
        exact iff_of_false (fun he => hid he.symm) fun ⟨old, hl, he⟩ => hno id old hl he
      · simp only [if_neg hk, if_neg hid]
        exact hkeys key id
  · intro id old hl
    simp only [Table.lookup_insert_ite] at hl
    split at hl
    · cases hl
      exact hlock
    · exact hlocked id old hl
  · intro id old hl
    simp only [Table.lookup_insert_ite] at hl
    split at hl
    · subst id
      exact hfresh.2 x (by simp) job hx
    · exact hnamed id old hl
  · intro y hy job' hjob'
    simp only [Table.lookup_insert_ite]
    rw [if_neg (hfresh.head_ne hy hx hjob')]
    exact hunused y (by simp [hy]) job' hjob'

end Enqueue

theorem lockstep_cases {x : JobStep} {m m' : MemoryStore} {g g' : JobStore}
    (h : lockstep x (m, g) = some (m', g')) : ∃ r r', m.step x.order x.call = some (r, m') ∧
      g.step x.order' x.call = some (r', g') ∧ r.map (·.id) = r'.map (·.id) := by
  obtain ⟨⟨r, m₁⟩, hm, h⟩ := Option.bind_eq_some_iff.mp h
  obtain ⟨⟨r', g₁⟩, hg, h⟩ := Option.bind_eq_some_iff.mp h
  split at h
  · cases h
    exact ⟨r, r', hm, hg, ‹_›⟩
  · cases h

/-- Both stores claim the same job. -/
theorem Mirrors.claim {x : JobStep} {xs : List JobStep} {m m' : MemoryStore} {g g' : JobStore}
    (h : Mirrors (x :: xs) m g) {workerID : String} {now : Time} {visibilityTimeout : Duration}
    {r r' : Option Job} (hm : m.claimNext x.order workerID now visibilityTimeout = some (r, m'))
    (hg : g.claimNext x.order' workerID now visibilityTimeout = some (r', g'))
    (hid : r.map (·.id) = r'.map (·.id)) : Mirrors xs m' g' := by
  rcases MemoryStore.claimNext_cases hm with ⟨rfl, rfl⟩ | ⟨id, job, hl, -, rfl, rfl⟩ <;>
    rcases Collection.findOneAndUpdate_cases hg with ⟨rfl, rfl, -⟩ | ⟨job', hl', -, rfl, rfl⟩
  · exact h.skip
  · cases hid
  · cases hid
  · have hsame : job'.id = id :=
      (show job.id = job'.id from Option.some.inj hid).symm.trans (h.id_eq hl)
    rw [Collection.Holds, show asyncJobs.id job' = id from hsame, ← h.jobs, hl] at hl'
    cases hl'
    refine h.update hl rfl ?_ rfl (by simp [Job.claimed])
    rw [Collection.updateByID_docs, show asyncJobs.id job = id from hsame, ← h.jobs, hl]
    rfl

/-- **The simulation.** A step whose enqueue is clean keeps the stores alike. -/
theorem Mirrors.step {x : JobStep} {xs : List JobStep} {m m' : MemoryStore} {g g' : JobStore}
    (h : Mirrors (x :: xs) m g) (hs : lockstep x (m, g) = some (m', g'))
    (hclean : CleanEnqueue m x) : Mirrors xs m' g' := by
  obtain ⟨r, r', hm, hg, hid⟩ := lockstep_cases hs
  cases hx : x.call with
  | enqueue job =>
    have hjob : x.call.enqueued = some job := by rw [hx]; rfl
    obtain ⟨hlive, hlock⟩ := hclean job hjob
    rw [hx] at hm hg
    cases hm
    by_cases hkey : ∃ id old, m.jobs.lookup id = some old ∧ old.idempotencyKey = job.idempotencyKey
    · obtain ⟨id, old, hl, hkey⟩ := hkey
      obtain ⟨hdrop, hhas⟩ := h.enqueue_taken hjob hl hkey
      rw [JobStore.step, hdrop] at hg
      cases hg
      rw [MemoryStore.enqueue, if_pos (by simp [hhas, hlive id old hl hkey])]
      exact h.skip
    · have hno : ∀ id old, m.jobs.lookup id = some old →
          old.idempotencyKey ≠ job.idempotencyKey := fun id old hl he => hkey ⟨id, old, hl, he⟩
      obtain ⟨hhas, g₁, htake, hdocs⟩ := h.enqueue_new hjob hno
      rw [JobStore.step, htake] at hg
      cases hg
      rw [MemoryStore.enqueue, if_neg (by simp [hhas])]
      exact h.insert hjob hno (hlock hno) hdocs
  | claimNext workerID now visibilityTimeout =>
    rw [hx] at hm hg
    exact h.claim hm hg hid
  | complete jobID now =>
    rw [hx] at hm hg
    cases hm
    cases hg
    exact h.report jobID (fun _ => rfl) (by simp [Job.completed])
  | retry jobID nextRun lastError now =>
    rw [hx] at hm hg
    cases hm
    cases hg
    exact h.report jobID (fun _ => rfl) (by simp [Job.retried])
  | deadLetter jobID lastError now =>
    rw [hx] at hm hg
    cases hm
    cases hg
    exact h.report jobID (fun _ => rfl) (by simp [Job.deadLettered])

/-- An enqueue that is not clean tells the stores apart. -/
theorem Mirrors.diverge {x : JobStep} {xs : List JobStep} {m m' : MemoryStore} {g g' : JobStore}
    (h : Mirrors (x :: xs) m g) (hs : lockstep x (m, g) = some (m', g'))
    (hclean : ¬ CleanEnqueue m x) : ¬ SameJobs m' g' := by
  intro hsame
  refine hclean fun job hjob => ?_
  obtain ⟨r, r', hm, hg, -⟩ := lockstep_cases hs
  obtain ⟨call, order, order'⟩ := x
  cases call with
  | enqueue job' =>
    cases hjob
    cases hm
    have hnew : m.jobs.lookup job.id = none := h.unused _ List.mem_cons_self job rfl
    constructor
    · intro id old hl hkey
      obtain ⟨hdrop, hhas⟩ := h.enqueue_taken rfl hl hkey
      rw [JobStore.step, hdrop] at hg
      cases hg
      by_contra hdead
      -- the memory store takes the job, the server has dropped it
      have hstatus := (hsame job.id).1
      rw [MemoryStore.enqueue, if_neg (by simpa [hhas, not_and_or] using hdead), ← h.jobs, hnew,
        Finmap.lookup_insert] at hstatus
      cases hstatus
    · intro hno hrun hnone
      obtain ⟨hhas, g₁, htake, hdocs⟩ := h.enqueue_new rfl hno
      rw [JobStore.step, htake] at hg
      cases hg
      have hdue := (hsame job.id).2 job.runAfter
      rw [MemoryStore.enqueue, if_neg (by simp [hhas]), hdocs, Finmap.lookup_insert,
        Finmap.lookup_insert, Option.any_some, Option.any_some] at hdue
      exact Job.eligible_ne_ready hrun hnone hdue
  | _ => cases hjob

/-- **When the job stores agree.** Over any sequence of calls with fresh job ids
in which both claim the same jobs, they hold the same jobs, and the same of
them can be claimed, iff every enqueue is clean. -/
theorem job_stores_agree_iff (xs : List JobStep) (hfresh : FreshIDs xs) :
    EachStep lockstep (fun _ _ p => SameJobs p.1 p.2) xs bothEmpty ↔
      EachStep lockstep (fun p x _ => CleanEnqueue p.1 x) xs bothEmpty := by
  refine eachStep_iff (R := fun xs (p : MemoryStore × JobStore) => Mirrors xs p.1 p.2)
    (C := fun (p : MemoryStore × JobStore) x => CleanEnqueue p.1 x) ?_ ?_ ?_
  · intro x xs p p' h hs hclean
    exact ⟨h.step hs hclean, (h.step hs hclean).sameJobs⟩
  · intro x xs p p' h hs hclean
    exact h.diverge hs hclean
  · exact ⟨rfl, by simp [bothEmpty, MemoryStore.empty], by simp [bothEmpty, MemoryStore.empty],
      by simp [bothEmpty, MemoryStore.empty], hfresh, by simp [bothEmpty, MemoryStore.empty]⟩

/-- A job with id `n` under one key is enqueued. -/
def enqueueStep (n : Fin 100) : JobStep :=
  ⟨.enqueue ((newQueue ⟨1, 5, 300 * second, 5 * second, 300 * second, true, second⟩).newJob
    (newID prefixJob (sampleUlid n)) "generate_room_report" "key" "" 0), [], []⟩

/-- Job 0 is claimed and then reported by `report`. -/
def reportSteps (report : String → JobCall) : List JobStep :=
  [enqueueStep 0, ⟨.claimNext "worker" second second, [newID prefixJob (sampleUlid 0)],
    [newID prefixJob (sampleUlid 0)]⟩, ⟨report (newID prefixJob (sampleUlid 0)), [], []⟩]

/-- A job is dead-lettered, and another one comes under its key. -/
def reusedSteps : List JobStep :=
  reportSteps (.deadLetter · "failed" (2 * second)) ++ [enqueueStep 1]

/-- The memory store takes the second job, the unique index drops it. -/
theorem job_stores_agree_fails :
    ¬ EachStep lockstep (fun _ _ p => SameJobs p.1 p.2) reusedSteps bothEmpty := by
  intro hall
  have hrun : (runSteps lockstep (reportSteps (.deadLetter · "failed" (2 * second)))
      bothEmpty).any (fun p => (lockstep (enqueueStep 1) p).any fun p' =>
        (p'.1.jobs.lookup (newID prefixJob (sampleUlid 1))).isSome &&
          (p'.2.docs.lookup (newID prefixJob (sampleUlid 1))).isNone) = true := by
    decide +kernel
  obtain ⟨p, hp, hrun⟩ := (Option.any_eq_true _ _).mp hrun
  obtain ⟨p', hp', hrun⟩ := (Option.any_eq_true _ _).mp hrun
  obtain ⟨htaken, hdropped⟩ := Bool.and_eq_true_iff.mp hrun
  have hsame := (hall _ _ [] p p' rfl hp hp' (newID prefixJob (sampleUlid 1))).1
  obtain ⟨job, hjob⟩ := Option.isSome_iff_exists.mp htaken
  rw [hjob, Option.isNone_iff_eq_none.mp hdropped] at hsame
  cases hsame

/-- If the step enqueues a job, it is not running, and no job with its key is
dead-lettered or failed in the memory store. -/
def enqueuesCleanly (p : MemoryStore × JobStore) (x : JobStep) : Bool :=
  x.call.enqueued.all fun job => job.status ≠ .running &&
    decide (∀ id ∈ p.1.jobs.keys, (p.1.jobs.lookup id).all fun old =>
      old.idempotencyKey ≠ job.idempotencyKey ||
        (old.status ≠ .deadLetter && old.status ≠ .failed))

theorem cleanEnqueue_of_enqueues (p : MemoryStore × JobStore) (x : JobStep)
    (h : enqueuesCleanly p x = true) : CleanEnqueue p.1 x := by
  intro job hjob
  rw [enqueuesCleanly, hjob, Option.all_some] at h
  obtain ⟨hstatus, hkeys⟩ := Bool.and_eq_true_iff.mp h
  refine ⟨fun id old hl hkey => ?_, fun _ hrunning => absurd hrunning (of_decide_eq_true hstatus)⟩
  have hold := of_decide_eq_true hkeys id (Finmap.mem_keys.mpr (Finmap.mem_of_lookup_eq_some hl))
  rw [hl, Option.all_some] at hold
  simpa [hkey] using hold

/-- A completed job keeps its key in both stores. -/
theorem job_stores_agree_iff_completed :
    (runSteps lockstep (reportSteps (.complete · (2 * second)) ++ [enqueueStep 1])
      bothEmpty).isSome = true ∧
    EachStep lockstep (fun _ _ p => SameJobs p.1 p.2)
      (reportSteps (.complete · (2 * second)) ++ [enqueueStep 1]) bothEmpty := by
  have hfresh : FreshIDs (reportSteps (.complete · (2 * second)) ++ [enqueueStep 1]) :=
    ⟨by decide +kernel, by
      simp [reportSteps, enqueueStep, JobCall.enqueued, Queue.newJob, newID, prefixJob]⟩
  refine ⟨by decide +kernel, (job_stores_agree_iff _ hfresh).mpr ?_⟩
  exact eachStep_of_checkSteps cleanEnqueue_of_enqueues (by decide +kernel)

end WaveCast.Async
