import WaveCast.Interaction.Pool
import WaveCast.Async.Queue

/-!
# The workers of the job queue

`Queue.Enqueue` and `internal/core/async/runner.go` as programs over the
queue's store, and the system they form on a `MemoryStore`. In a run any number
of workers and clients interleave their calls; a worker whose thread makes no
further call has crashed or hangs.
-/

namespace WaveCast.Async

open Interaction Program

/-- What enqueueing and the workers ask of their surroundings. -/
inductive QueueEffect where
  /-- `time.Now().UTC()` -/
  | now
  /-- `ids.New(prefix)` -/
  | newID (pfx : String)
  | enqueue (job : Job)
  | claimNext (workerID : String) (now : Time) (visibilityTimeout : Duration)
  /-- The handler registered for the type of the job. -/
  | handle (job : Job)
  | complete (jobID : String) (now : Time)
  | retry (jobID : String) (nextRun : Time) (lastError : String) (now : Time)
  | deadLetter (jobID lastError : String) (now : Time)
  deriving DecidableEq

/-- A handler answers with the text of its error, if there is one. -/
@[reducible] def QueueEffect.Answer : QueueEffect → Type
  | now => Time
  | newID _ => String
  | enqueue _ => Except AppError Unit
  | claimNext _ _ _ => Except AppError (Option Job)
  | handle _ => Option String
  | complete _ _ => Except AppError Unit
  | retry _ _ _ _ => Except AppError Unit
  | deadLetter _ _ _ => Except AppError Unit

abbrev queueEffects : Signature := ⟨QueueEffect, QueueEffect.Answer⟩

abbrev QueueAction := Program queueEffects AppError

def ask (e : QueueEffect) : QueueAction e.Answer := perform (S := queueEffects) e

/-- `payload` is what `json.Marshal` returned. -/
def Queue.enqueue (q : Queue) (jobType idempotencyKey : String) (payload : Except AppError String) :
    QueueAction Unit := do
  let raw ← ofExcept payload
  let now ← ask .now
  let id ← ask (.newID prefixJob)
  ofExcept (← ask (.enqueue (q.newJob id jobType idempotencyKey raw now)))

/-- `d << n` on 64-bit durations. -/
def shiftLeft (d : Duration) (n : Nat) : Duration := Int.bmod (d * 2 ^ n) (2 ^ 64)

def retryDelay (attempt : Int) (base max : Duration) : Duration :=
  if attempt ≤ 0 then base
  else
    let delay := shiftLeft base (min (attempt - 1) 10).toNat
    if delay > max then max else delay

structure Runner where
  queue : Queue
  workerID : String
  /-- The job types with a handler. -/
  handles : String → Bool

def Runner.fail (r : Runner) (job : Job) (message : String) : QueueAction Unit := do
  let now ← ask .now
  if job.attempts ≥ job.maxAttempts then
    -- with and without `DeadLetterEnabled`
    let _ ← ask (.deadLetter job.id message now)
    return
  let delay := retryDelay job.attempts r.queue.cfg.retryBaseDelay r.queue.cfg.retryMaxDelay
  let _ ← ask (.retry job.id (now + delay) message now)

def Runner.processOnce (r : Runner) : QueueAction Unit := do
  let now ← ask .now
  match ← ask (.claimNext r.workerID now r.queue.cfg.visibilityTimeout) with
  | .error _ => return
  | .ok none => return
  | .ok (some job) =>
      if !r.handles job.type then
        r.fail job "handler not registered"
      else
        match ← ask (.handle job) with
        | some message => r.fail job message
        | none =>
            let now ← ask .now
            let _ ← ask (.complete job.id now)

/-! ## The system -/

inductive QueueCommand where
  | enqueue (q : Queue) (jobType idempotencyKey : String) (payload : Except AppError String)
  | processOnce (r : Runner)

def QueueCommand.program : QueueCommand → QueueAction Unit
  | enqueue q jobType idempotencyKey payload => q.enqueue jobType idempotencyKey payload
  | processOnce r => r.processOnce

structure QueueWorld where
  store : MemoryStore
  /-- The ULIDs drawn so far. -/
  issued : List Ulid

/-- The choices of the surroundings at one call. -/
structure QueueEnv where
  now : Time
  ulid : Ulid
  /-- The order in which `ClaimNext` visits the jobs. -/
  order : List String
  /-- What the handler returns. -/
  handlerError : Option String
  deriving DecidableEq

namespace QueueWorld

def empty : QueueWorld := ⟨.empty, []⟩

def exec (env : QueueEnv) : (e : QueueEffect) → QueueWorld → Option (e.Answer × QueueWorld)
  | .now, w => some (env.now, w)
  | .newID pfx, w =>
      if env.ulid ∈ w.issued then none
      else some (newID pfx env.ulid, { w with issued := env.ulid :: w.issued })
  | .enqueue job, w => some (.ok (), { w with store := w.store.enqueue job })
  | .claimNext workerID now visibilityTimeout, w =>
      (w.store.claimNext env.order workerID now visibilityTimeout).map fun r =>
        (.ok r.1, { w with store := r.2 })
  | .handle _, w => some (env.handlerError, w)
  | .complete jobID now, w => some (.ok (), { w with store := w.store.complete jobID now })
  | .retry jobID nextRun lastError now, w =>
      some (.ok (), { w with store := w.store.retry jobID nextRun lastError now })
  | .deadLetter jobID lastError now, w =>
      some (.ok (), { w with store := w.store.deadLetter jobID lastError now })

end QueueWorld

abbrev QueuePool := Pool queueEffects QueueCommand QueueEnv AppError Unit QueueWorld
abbrev QueueEntry := Entry queueEffects QueueCommand QueueEnv
abbrev QueueExchange := Exchange queueEffects
abbrev QueueMove := Move QueueCommand QueueEnv

def queueSystem : System queueEffects QueueCommand QueueEnv AppError Unit QueueWorld :=
  ⟨QueueCommand.program, QueueWorld.exec, .empty⟩

end WaveCast.Async
