import WaveCast.Async.Runner
import WaveCast.Service

/-!
# The handlers of the jobs

`internal/worker/asyncjobs/registry.go` and the payloads of
`internal/core/async/types.go`. The service enqueues a map and the handlers
read a struct: both sides agree through the type of the job and the keys of a
JSON object alone. `encoding/json` is a parameter; what is needed of it is that
it reads back what it wrote (`Json.RoundTrips`).
-/

namespace WaveCast

open Interaction WaveCast.Action Program Async

/-! ## Payloads -/

/-- `json.Marshal` and `json.Unmarshal` on objects whose members are strings,
in the order of their keys. -/
structure Json where
  marshal : List (String × String) → Except AppError String
  unmarshal : String → Except AppError (List (String × String))

/-- Maps with sorted keys are read back as they were written. -/
def Json.RoundTrips (json : Json) : Prop :=
  ∀ members, (members.map Prod.fst).Pairwise (· < ·) →
    ∃ raw, json.marshal members = .ok raw ∧ json.unmarshal raw = .ok members

/-- The map that `FinishRoom` enqueues. -/
def RoomJobPayload.members (payload : RoomJobPayload) : List (String × String) :=
  [("actorUserId", payload.actorUserID), ("roomId", payload.roomID)]

theorem RoomJobPayload.members_sorted (payload : RoomJobPayload) :
    (payload.members.map Prod.fst).Pairwise (· < ·) :=
  show ["actorUserId", "roomId"].Pairwise (· < ·) by decide

/-- Whether a member of an object is one for the tag of a field: case does not matter. -/
def matchesTag (tag key : String) : Bool :=
  key.toList.map Char.toLower = tag.toList.map Char.toLower

/-- The fields of `roomJobPayload` after one more member was read. -/
def RoomJobPayload.read (payload : RoomJobPayload) (member : String × String) : RoomJobPayload :=
  if matchesTag "roomId" member.1 then { payload with roomID := member.2 }
  else if matchesTag "actorUserId" member.1 then { payload with actorUserID := member.2 }
  else payload

/-- `DecodePayload[roomJobPayload]` -/
def decodePayload (json : Json) (job : Job) : Except AppError RoomJobPayload :=
  (json.unmarshal job.payload).map fun members => members.foldl RoomJobPayload.read ⟨"", ""⟩

/-- `Queue.Enqueue` of a request of the service. -/
def JobRequest.enqueue (json : Json) (q : Queue) (request : JobRequest) : QueueAction Unit :=
  q.enqueue request.jobType request.idempotencyKey (json.marshal request.payload.members)

/-- The job is one for the request. -/
structure Carries (json : Json) (job : Job) (request : JobRequest) : Prop where
  type_eq : job.type = request.jobType
  idempotencyKey_eq : job.idempotencyKey = request.idempotencyKey
  payload_eq : json.marshal request.payload.members = .ok job.payload

section Carries

variable {json : Json} {job : Job} {request : JobRequest}

/-- What is enqueued for a request carries it. -/
theorem enqueue_carries (json : Json) (q : Queue) (request : JobRequest) :
    Follows (S := queueEffects) (fun _ e => ∀ job, e = .enqueue job → Carries json job request)
      (fun _ _ => True) [] (request.enqueue json q) := by
  unfold JobRequest.enqueue Queue.enqueue
  cases hraw : json.marshal request.payload.members with
  | error e => trivial
  | ok raw =>
    refine ⟨by simp, fun t => ⟨by simp, fun id => ⟨?_, ?_⟩⟩⟩
    · rintro job ⟨⟩
      exact ⟨rfl, rfl, hraw⟩
    · rintro (e | a) <;> trivial

/-- The request stays the same however often the job is claimed and retried. -/
theorem Carries.claimed (h : Carries json job request) (workerID : String) (t : Time)
    (visibilityTimeout : Duration) :
    Carries json (job.claimed workerID t visibilityTimeout) request := ⟨h.1, h.2, h.3⟩

theorem Carries.retried (h : Carries json job request) (nextRun : Time) (lastError : String)
    (t : Time) : Carries json (job.retried nextRun lastError t) request := ⟨h.1, h.2, h.3⟩

/-- **Payloads round-trip**: the keys of the map are the tags of the struct. -/
theorem decodePayload_eq (hjson : json.RoundTrips) (h : Carries json job request) :
    decodePayload json job = .ok request.payload := by
  obtain ⟨raw, hraw, hback⟩ := hjson _ request.payload.members_sorted
  cases h.payload_eq.symm.trans hraw
  have hread : ∀ payload₀ : RoomJobPayload,
      request.payload.members.foldl RoomJobPayload.read payload₀ = request.payload := fun _ => by
    simp [RoomJobPayload.members, RoomJobPayload.read,
      show matchesTag "roomId" "actorUserId" = false by decide,
      show matchesTag "actorUserId" "actorUserId" = true by decide,
      show matchesTag "roomId" "roomId" = true by decide]
  rw [decodePayload, hback, Except.map, hread]

end Carries

/-! ## The registry -/

abbrev Handler := Job → Action Unit

structure Registry where
  service : Service
  timeout : Duration
  json : Json

namespace Registry

variable (r : Registry)

def closeRoomSessions : Handler := fun job => do
  let payload ← ofExcept (decodePayload r.json job)
  let endedAt ← now
  r.service.closeRoomSessions payload.roomID endedAt job.idempotencyKey

def generateRoomReport : Handler := fun job => do
  let payload ← ofExcept (decodePayload r.json job)
  let actorID ← if payload.actorUserID = "" then do
      let room ← Service.getRoom payload.roomID
      pure room.ownerID
    else pure payload.actorUserID
  let _ ← Service.generateReport ⟨payload.roomID, actorID, job.idempotencyKey⟩

def expireStaleListenerSessions : Handler := fun job => do
  let t ← now
  let _ ← r.service.expireStaleListenerSessions (t - r.timeout) 250 job.idempotencyKey

/-- The payload is only logged. -/
def notImplementedYet : Handler := fun _ => pure ()

/-- The calls of `Register`, in order. -/
def registered : List (String × Handler) :=
  [(jobCloseRoomSessions, r.closeRoomSessions),
   (jobGenerateRoomReport, r.generateRoomReport),
   (jobExpireListenerSession, r.expireStaleListenerSessions),
   (jobFinalizeRecording, notImplementedYet),
   (jobExpireRecording, notImplementedYet),
   (jobDeleteRecordingFile, notImplementedYet),
   (jobDispatchRealtimeEvent, notImplementedYet),
   (jobRetryRealtimeEvent, notImplementedYet),
   (jobProcessLiveKitWebhook, notImplementedYet),
   (jobProcessEgressWebhook, notImplementedYet),
   (jobSendNotification, notImplementedYet),
   (jobSyncAnalytics, notImplementedYet)]

/-- The handlers of the runner after `Register`: `Handle` replaces the handler of a type. -/
def handlers : String → Option Handler :=
  r.registered.foldl (fun handlers entry jobType =>
    if jobType = entry.1 then some entry.2 else handlers jobType) fun _ => none

theorem handlers_closeRoomSessions : r.handlers jobCloseRoomSessions = some r.closeRoomSessions :=
  rfl

theorem handlers_generateRoomReport :
    r.handlers jobGenerateRoomReport = some r.generateRoomReport := rfl

/-- What may be registered for a type. -/
theorem handler_cases {jobType : String} {handler : Handler}
    (h : r.handlers jobType = some handler) :
    jobType = jobCloseRoomSessions ∧ handler = r.closeRoomSessions ∨
      jobType = jobGenerateRoomReport ∧ handler = r.generateRoomReport ∨
      jobType = jobExpireListenerSession ∧ handler = r.expireStaleListenerSessions ∨
      jobType ≠ jobGenerateRoomReport ∧ handler = notImplementedYet := by
  have hlast : ∀ (entries : List (String × Handler)) (found : String → Option Handler),
      entries.foldl (fun handlers entry jobType =>
        if jobType = entry.1 then some entry.2 else handlers jobType) found jobType = some handler →
      (jobType, handler) ∈ entries ∨ found jobType = some handler := by
    intro entries
    induction entries with
    | nil => exact fun found h => .inr h
    | cons entry entries ih =>
      intro found h
      rcases ih _ h with hin | hfound
      · exact .inl (List.mem_cons_of_mem _ hin)
      · dsimp only at hfound
        split at hfound
        · rename_i htype
          cases hfound
          exact .inl (htype ▸ List.mem_cons_self)
        · exact .inr hfound
  rcases hlast r.registered _ h with hin | hnone
  · simp only [registered, List.mem_cons, Prod.mk.injEq, List.not_mem_nil, or_false] at hin
    have hother : ∀ other, jobType = other ∧ handler = notImplementedYet →
        other ≠ jobGenerateRoomReport → jobType ≠ jobGenerateRoomReport ∧
          handler = notImplementedYet := by
      rintro other ⟨rfl, hhandler⟩ hne
      exact ⟨hne, hhandler⟩
    rcases hin with hin | hin | hin | hin | hin | hin | hin | hin | hin | hin | hin | hin
    · exact .inl hin
    · exact .inr (.inl hin)
    · exact .inr (.inr (.inl hin))
    all_goals exact .inr (.inr (.inr (hother _ hin (by decide))))
  · cases hnone

end Registry

end WaveCast
