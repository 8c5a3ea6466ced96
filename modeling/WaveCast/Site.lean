import WaveCast.Api.Endpoints
import WaveCast.Async.MongoJobs
import WaveCast.Interaction.Linking
import WaveCast.Production
import WaveCast.Registry

/-!
# The whole site

`cmd/api` and `cmd/worker` on one MongoDB and one Redis: any number of requests,
workers and ticks of the scheduler, their calls interleaved in any order. The
processes run the programs of the service and of the job queue: what the service
enqueues goes to the collection of jobs, and what a worker claims from it goes
to the handlers, which call the service.
-/

namespace WaveCast

open Interaction WaveCast.Action Program Async

/-- What the processes ask of their surroundings. -/
inductive SiteEffect where
  | voice (e : Effect)
  /-- A method of `AsyncJobStore`. -/
  | jobs (c : JobCall)

@[reducible] def SiteEffect.Answer : SiteEffect → Type
  | voice e => e.Answer
  | jobs _ => Except AppError (Option Job)

abbrev siteEffects : Signature := ⟨SiteEffect, SiteEffect.Answer⟩

abbrev SiteAction := Program siteEffects Empty

inductive SiteCommand where
  | serve (r : Api.Request)
  /-- `processOnce` of the runner of a worker -/
  | processOnce (workerID : String)
  /-- The ticker of the scheduler fires. -/
  | tick (now : Time)

/-- How the processes are built. -/
structure Site where
  service : Service
  queue : Queue
  json : Json
  /-- `now.UTC().Format("20060102150405")` -/
  formatSecond : Time → String
  /-- `json.Marshal(map[string]any{"scheduledAt": now.UTC()})` -/
  scheduledAt : Time → Except AppError String

namespace Site

variable (S : Site)

/-! ## The processes -/

def registry : Registry := ⟨S.service, S.service.cfg.listenerSessionTimeout, S.json⟩

def runner (workerID : String) : Runner :=
  ⟨S.queue, workerID, fun jobType => (S.registry.handlers jobType).isSome⟩

/-- A call of the job queue. -/
def queueCall (handle : Job → SiteAction (Option String)) :
    (e : QueueEffect) → SiteAction e.Answer
  | .now => perform (S := siteEffects) (.voice .now)
  | .newID pfx => perform (S := siteEffects) (.voice (.newID pfx))
  | .enqueue job => report (.enqueue job)
  | .claimNext workerID now visibilityTimeout =>
      perform (S := siteEffects) (.jobs (.claimNext workerID now visibilityTimeout))
  | .handle job => handle job
  | .complete jobID now => report (.complete jobID now)
  | .retry jobID nextRun lastError now => report (.retry jobID nextRun lastError now)
  | .deadLetter jobID lastError now => report (.deadLetter jobID lastError now)
where
  report (c : JobCall) : SiteAction (Except AppError Unit) :=
    (perform (S := siteEffects) (.jobs c)).bind fun r => .ret (r.map fun _ => ())

/-- `Queue.Enqueue` handles no job. -/
def enqueueCall : (e : QueueEffect) → SiteAction e.Answer := queueCall fun _ => .ret none

/-- A call of the service. -/
def serviceCall : (e : Effect) → SiteAction e.Answer
  | .enqueue request => (request.enqueue S.json S.queue).linked enqueueCall id
  | e => perform (S := siteEffects) (.voice e)

/-- `err.Error()` -/
def errorText : Except AppError Unit → Option String
  | .ok _ => none
  | .error e => some e.message

/-- The handler of the job's type. -/
def handle (job : Job) : SiteAction (Option String) :=
  match S.registry.handlers job.type with
  | some handler => (handler job).linked S.serviceCall errorText
  | none => .ret none

def serve (r : Api.Request) : SiteAction (Option Api.Response) :=
  match r.handler.command with
  | .error b => .ret (some b)
  | .ok cmd => (S.service.program cmd).linked S.serviceCall fun o => some (r.respond o)

def processOnce (workerID : String) : SiteAction (Option Api.Response) :=
  (S.runner workerID).processOnce.linked (queueCall S.handle) fun _ => none

/-- The body of the loop of `Scheduler.Run` -/
def tick (now : Time) : SiteAction (Option Api.Response) :=
  (S.queue.enqueue jobExpireListenerSession
    ("scheduler:expire_stale_listener_sessions:" ++ S.formatSecond now)
    (S.scheduledAt now)).linked enqueueCall fun _ => none

def program : SiteCommand → SiteAction (Option Api.Response)
  | .serve r => S.serve r
  | .processOnce workerID => S.processOnce workerID
  | .tick now => S.tick now

end Site

/-! ## The system -/

structure SiteWorld where
  backends : Backends
  jobs : JobStore

namespace SiteWorld

def empty : SiteWorld := ⟨.empty, .empty⟩

/-- Any method of the store of jobs may fail. -/
def exec (redis : Redis.PresenceStore) (I : Infra) (env : ServerEnv) :
    (e : SiteEffect) → SiteWorld → Option (e.Answer × SiteWorld)
  | .voice e, w =>
      (Backends.exec redis I env e w.backends).map fun r => (r.1, { w with backends := r.2 })
  | .jobs c, w =>
      if env.fails then some (.error unavailable, w)
      else (w.jobs.step env.order c).map fun r => (.ok r.1, { w with jobs := r.2 })

end SiteWorld

def Site.system (S : Site) (redis : Redis.PresenceStore) (I : Infra) :
    System siteEffects SiteCommand ServerEnv Empty (Option Api.Response) SiteWorld :=
  ⟨S.program, SiteWorld.exec redis I, .empty⟩

abbrev SitePool := Pool siteEffects SiteCommand ServerEnv Empty (Option Api.Response) SiteWorld
abbrev SiteEntry := Entry siteEffects SiteCommand ServerEnv
abbrev SiteExchange := Exchange siteEffects
abbrev SiteMove := Move SiteCommand ServerEnv

end WaveCast
