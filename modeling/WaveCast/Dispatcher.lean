import WaveCast.Interaction.Pool
import WaveCast.Voice

/-!
# The realtime dispatcher

`internal/worker/dispatcher`: `resolve` maps an event to the channels of the
clients, and `handleRecord` is what the dispatcher does with one record of the
Kafka partition. A `Consumer` is the dispatcher's `Run` loop over the partition:
it polls fetches, handles their records one after the other, and may be
restarted between any two calls, at the committed position of its group.
-/

namespace WaveCast.Dispatcher

open Interaction Program

variable {π : Type}

/-! ## Client events -/

structure ClientEvent (π : Type) where
  eventID : String
  name : String
  roomID : String
  actorUserID : String
  targetUserID : String
  occurredAt : String
  payload : π
  deriving DecidableEq

structure ResolvedEvent (π : Type) where
  channel : String
  event : ClientEvent π
  deriving DecidableEq

/-- `strings.TrimPrefix`. -/
def trimPrefix (s pfx : String) : String :=
  if hasPrefix s pfx then .ofList (s.toList.drop pfx.toList.length) else s

def clientEventName (eventType : String) : String :=
  if eventType = eventReportCompleted then "report.ready"
  else if eventType = eventModerationUserRemoved then "participant.removed"
  else trimPrefix eventType "voice."

/-- The events that go to the user they are about. -/
def targetEvents : List String :=
  [eventSpeakerApproved, eventSpeakerDeclined, eventSpeakerRevoked, eventSpeakerBlocked,
    eventSpeakerUnblocked, eventModerationUserRemoved]

/-- What the dispatcher takes from Go: `json.Unmarshal` into an envelope, and
the RFC 3339 text of a time. -/
structure RealtimeDispatcher (π : Type) where
  decode : String → Option (EventEnvelope π)
  formatTime : Time → String

def RealtimeDispatcher.clientEvent (d : RealtimeDispatcher π) (event : EventEnvelope π) :
    ClientEvent π where
  eventID := event.eventID
  name := clientEventName event.eventType
  roomID := event.roomID
  actorUserID := event.actorUserID
  targetUserID := event.targetUserID
  occurredAt := d.formatTime event.occurredAt
  payload := event.payload

def RealtimeDispatcher.resolve (d : RealtimeDispatcher π) (event : EventEnvelope π) :
    List (ResolvedEvent π) :=
  if clientEventName event.eventType = "" then []
  else if event.eventType = eventSpeakerRequested then
    [⟨"room:" ++ event.roomID ++ ":admins", d.clientEvent event⟩]
  else if event.eventType ∈ targetEvents then
    if event.targetUserID = "" then []
    else [⟨"user:" ++ event.targetUserID, d.clientEvent event⟩]
  else if event.eventType = eventRecordingCompleted ∨ event.eventType = eventReportCompleted then
    [⟨"room:" ++ event.roomID ++ ":admins", d.clientEvent event⟩]
  else if event.roomID = "" then []
  else [⟨"room:" ++ event.roomID, d.clientEvent event⟩]

/-! ## Records -/

structure Record where
  offset : ℕ
  value : String
  deriving DecidableEq

/-- The records of a partition, in the order of their offsets. -/
structure Partition where
  records : List Record
  sorted : records.Pairwise (·.offset < ·.offset)

inductive DispatchEffect (π : Type) where
  /-- `Publisher.Publish` -/
  | publish (channel : String) (event : ClientEvent π)
  /-- `kgo.Client.CommitRecords` -/
  | commitRecords (record : Record)
  deriving DecidableEq

abbrev dispatchEffects (π : Type) : Signature := ⟨DispatchEffect π, fun _ => Except AppError Unit⟩

abbrev DispatchAction (π : Type) := Program (dispatchEffects π) AppError

def ask (e : DispatchEffect π) : DispatchAction π (Except AppError Unit) :=
  perform (S := dispatchEffects π) e

/-- A failed publish ends the handling of the record. -/
def RealtimeDispatcher.handleRecord (d : RealtimeDispatcher π) (record : Record) :
    DispatchAction π Unit :=
  match d.decode record.value with
  | none => do
      let _ ← ask (.commitRecords record)
  | some event => do
      forEach (d.resolve event) fun item => do
        ofExcept (← ask (.publish item.channel item.event))
      let _ ← ask (.commitRecords record)

/-! ## The consumer -/

/-- Whether a call fails, and whether a failing commit takes effect nevertheless. -/
structure DispatchEnv where
  fails : Bool
  takesEffect : Bool
  deriving DecidableEq

def DispatchEnv.answer (env : DispatchEnv) : Except AppError Unit :=
  if env.fails then .error (.external "unavailable") else .ok ()

/-- Whether a commit sets the committed position. -/
def DispatchEnv.commits (env : DispatchEnv) : Bool := !env.fails || env.takesEffect

/-- The state is the committed position of the consumer group. -/
def dispatchExec (env : DispatchEnv) (e : DispatchEffect π) (committed : ℕ) :
    Option (Except AppError Unit × ℕ) :=
  match e with
  | .publish _ _ => some (env.answer, committed)
  | .commitRecords record =>
      some (env.answer, if env.commits then record.offset + 1 else committed)

abbrev DispatchPool (π : Type) := Pool (dispatchEffects π) Record DispatchEnv AppError Unit ℕ
abbrev DispatchEntry (π : Type) := Entry (dispatchEffects π) Record DispatchEnv
abbrev DispatchExchange (π : Type) := Exchange (dispatchEffects π)

/-- Every record that is handled is a thread. -/
def RealtimeDispatcher.system (d : RealtimeDispatcher π) :
    System (dispatchEffects π) Record DispatchEnv AppError Unit ℕ :=
  ⟨d.handleRecord, dispatchExec, 0⟩

structure Consumer (π : Type) where
  pool : DispatchPool π
  /-- The thread of the first record handled since the last restart. -/
  session : ℕ
  /-- The records of the current fetch that have not been handled. -/
  fetched : List Record
  /-- The records after the current fetch. -/
  pending : List Record

def Consumer.committed (c : Consumer π) : ℕ := c.pool.state

/-- No record is being handled. -/
def Consumer.idle (c : Consumer π) : Bool :=
  c.pool.threads.length = c.session ||
    match c.pool.threads[c.pool.threads.length - 1]? with
    | some ⟨_, .call _ _⟩ => false
    | _ => true

inductive ConsumerStep where
  /-- `PollFetches` returns the next `n` records, or as many as there are. -/
  | poll (n : ℕ)
  /-- `handleRecord` is called with the next record of the fetch. -/
  | next
  /-- `handleRecord` makes its next call. -/
  | call (env : DispatchEnv)
  /-- The process or its group membership starts anew. -/
  | restart

/-- The records from a position on. -/
def Partition.since (log : Partition) (position : ℕ) : List Record :=
  log.records.filter (position ≤ ·.offset)

def RealtimeDispatcher.step (d : RealtimeDispatcher π) (log : Partition) :
    ConsumerStep → Consumer π → Option (Consumer π)
  | .poll n, c =>
      if c.idle && c.fetched.isEmpty then
        some { c with fetched := c.pending.take n, pending := c.pending.drop n }
      else none
  | .next, c =>
      match c.fetched with
      | record :: rest =>
          if c.idle then
            (d.system.move (.start record) c.pool).map fun pool =>
              { c with pool, fetched := rest }
          else none
      | [] => none
  | .call env, c =>
      if c.idle then none
      else (d.system.move (.call (c.pool.threads.length - 1) env) c.pool).map fun pool =>
        { c with pool }
  | .restart, c =>
      some
        { c with
          session := c.pool.threads.length
          fetched := []
          pending := log.since c.committed }

def RealtimeDispatcher.consumer (d : RealtimeDispatcher π) (log : Partition) : Consumer π :=
  ⟨d.system.start, 0, [], log.since 0⟩

def RealtimeDispatcher.runFrom (d : RealtimeDispatcher π) (log : Partition) :
    List ConsumerStep → Consumer π → Option (Consumer π)
  | [], c => some c
  | step :: steps, c => (d.step log step c).bind (runFrom d log steps)

/-- The consumer after the given steps, if all of them are possible. -/
def RealtimeDispatcher.run (d : RealtimeDispatcher π) (log : Partition)
    (steps : List ConsumerStep) : Option (Consumer π) := d.runFrom log steps (d.consumer log)

end WaveCast.Dispatcher
