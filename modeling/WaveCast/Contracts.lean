import WaveCast.Interaction.Program
import WaveCast.Voice

/-!
# Contracts of the application service

`internal/app/voiceapp/contracts.go`. The interfaces `Store` and
`PresenceStore` are signatures (`StoreCall`, `PresenceCall`): an
implementation interprets them. `Effect` collects everything a command can
ask of its surroundings, the clock and the id generator included, and
`effects` is the signature of the service's programs.
-/

namespace WaveCast

structure ReportStats where
  uniqueListeners : Nat
  uniqueSpeakers : Nat
  totalJoinEvents : Nat
  peakConcurrentListeners : Nat
  totalListeningSeconds : Int
  totalSpeakingSeconds : Int
  deriving DecidableEq, Repr

/-- The methods of `voiceapp.Store`. -/
inductive StoreCall where
  | saveRoom (room : Room)
  | getRoom (roomID : String)
  | saveListenerSession (session : ListenerSession)
  | getListenerSession (sessionID : String)
  | listActiveListenerSessions (roomID : String)
  | listActiveListenerSessionsByUser (roomID userID : String)
  | listStaleListenerSessions (cutoff : Time) (limit : Int)
  | countActiveListeners (roomID : String)
  | saveParticipantSession (session : ParticipantSession)
  | countActiveParticipantSessions (roomID : String)
  | saveSpeakerRequest (request : SpeakerRequest)
  | getSpeakerRequest (requestID : String)
  | findPendingSpeakerRequest (roomID userID : String)
  | findApprovedSpeakerRequest (roomID userID : String)
  | saveSpeakingBlock (block : SpeakingBlock)
  | getActiveSpeakingBlock (roomID userID : String)
  | saveRecording (recording : RoomRecording)
  | getRecording (recordingID : String)
  | listRecordings (roomID : String)
  | saveReport (report : RoomReport)
  | getReport (roomID : String)
  | reportStats (roomID : String)
  | appendEvent (event : VoiceEvent)
  deriving DecidableEq

@[reducible] def StoreCall.Result : StoreCall → Type
  | saveRoom _ => Unit
  | getRoom _ => Room
  | saveListenerSession _ => Unit
  | getListenerSession _ => ListenerSession
  | listActiveListenerSessions _ => List ListenerSession
  | listActiveListenerSessionsByUser _ _ => List ListenerSession
  | listStaleListenerSessions _ _ => List ListenerSession
  | countActiveListeners _ => Nat
  | saveParticipantSession _ => Unit
  | countActiveParticipantSessions _ => Nat
  | saveSpeakerRequest _ => Unit
  | getSpeakerRequest _ => SpeakerRequest
  | findPendingSpeakerRequest _ _ => SpeakerRequest
  | findApprovedSpeakerRequest _ _ => SpeakerRequest
  | saveSpeakingBlock _ => Unit
  | getActiveSpeakingBlock _ _ => SpeakingBlock
  | saveRecording _ => Unit
  | getRecording _ => RoomRecording
  | listRecordings _ => List RoomRecording
  | saveReport _ => Unit
  | getReport _ => RoomReport
  | reportStats _ => ReportStats
  | appendEvent _ => Unit

/-- The methods of `voiceapp.PresenceStore`. -/
inductive PresenceCall where
  | markListenerActive (roomID sessionID userID : String) (ttl : Duration)
  | touchListener (roomID sessionID : String) (ttl : Duration)
  | markListenerInactive (roomID sessionID : String)
  | activeListenerCount (roomID : String)
  | markParticipantActive (roomID sessionID userID : String) (ttl : Duration)
  | markParticipantInactive (roomID sessionID : String)
  | activeParticipantCount (roomID : String)
  deriving DecidableEq

@[reducible] def PresenceCall.Result : PresenceCall → Type
  | markListenerActive _ _ _ _ => Unit
  | touchListener _ _ _ => Unit
  | markListenerInactive _ _ => Unit
  | activeListenerCount _ => Nat
  | markParticipantActive _ _ _ _ => Unit
  | markParticipantInactive _ _ => Unit
  | activeParticipantCount _ => Nat

structure SpeakerTokenInput where
  roomName : String
  identity : String
  role : RoomRole
  deriving DecidableEq, Repr

/-- The payload of the jobs the service enqueues. -/
structure RoomJobPayload where
  roomID : String
  actorUserID : String
  deriving DecidableEq, Repr

structure JobRequest where
  jobType : String
  idempotencyKey : String
  payload : RoomJobPayload
  deriving DecidableEq, Repr

/-- Everything a command asks of its surroundings. -/
inductive Effect where
  /-- `time.Now().UTC()` -/
  | now
  /-- `ids.New(prefix)` -/
  | newID (pfx : String)
  | store (c : StoreCall)
  | presence (c : PresenceCall)
  /-- `EventBus.Publish` -/
  | publish (event : VoiceEvent)
  /-- `JobQueue.Enqueue` -/
  | enqueue (job : JobRequest)
  /-- `LiveKitTokenIssuer.IssueSpeakerToken` -/
  | issueSpeakerToken (input : SpeakerTokenInput)
  /-- `RealtimeTokenIssuer.ConnectionToken` -/
  | connectionToken (userID : String)
  /-- `RealtimeTokenIssuer.SubscriptionToken` -/
  | subscriptionToken (userID channel : String)
  /-- `RecordingURLSigner.PlaybackURL` -/
  | playbackURL (object : StorageObject) (ttl : Duration)
  deriving DecidableEq

@[reducible] def Effect.Answer : Effect → Type
  | now => Time
  | newID _ => String
  | store c => Except AppError c.Result
  | presence c => Except AppError c.Result
  | publish _ => Except AppError Unit
  | enqueue _ => Except AppError Unit
  | issueSpeakerToken _ => Except AppError SpeakerMediaDescriptor
  | connectionToken _ => Except AppError String
  | subscriptionToken _ _ => Except AppError String
  | playbackURL _ _ => Except AppError String

abbrev effects : Interaction.Signature := ⟨Effect, Effect.Answer⟩

structure ServiceConfig where
  realtimeURL : String
  heartbeatInterval : Duration
  listenerSessionTimeout : Duration
  recordingEnabled : Bool
  recordingRetentionDays : Int
  s3Bucket : String
  s3Region : String
  s3RecordingsPrefix : String
  s3PresignedURLTTL : Duration

/-- `voiceapp.MediaGateway`: both methods only compute. -/
structure MediaGateway where
  passiveMedia : String → PassiveMedia
  listenerDescriptor : Room → String → Duration → ListenerMediaDescriptor

structure CreateRoomCommand where
  title : String
  ownerID : String
  adminIDs : List String
  moderatorIDs : List String
  correlationID : String
  deriving DecidableEq, Repr

structure StartRoomCommand where
  roomID : String
  actorUserID : String
  correlationID : String
  deriving DecidableEq, Repr

structure FinishRoomCommand where
  roomID : String
  actorUserID : String
  reason : String
  correlationID : String
  deriving DecidableEq, Repr

structure JoinRoomCommand where
  roomID : String
  userID : String
  correlationID : String
  deriving DecidableEq, Repr

structure ListenerHeartbeatCommand where
  roomID : String
  sessionID : String
  userID : String
  correlationID : String
  deriving DecidableEq, Repr

structure LeaveListenerCommand where
  roomID : String
  sessionID : String
  userID : String
  leaveType : String
  correlationID : String
  deriving DecidableEq, Repr

structure RequestToSpeakCommand where
  roomID : String
  userID : String
  correlationID : String
  deriving DecidableEq, Repr

structure DecideSpeakerRequestCommand where
  roomID : String
  requestID : String
  actorUserID : String
  reason : String
  correlationID : String
  deriving DecidableEq, Repr

structure CreateSpeakerSessionCommand where
  roomID : String
  userID : String
  correlationID : String
  deriving DecidableEq, Repr

/-- Also the shape of `SpeakingBlockCommand` and `RemoveParticipantCommand`. -/
structure RevokeSpeakerCommand where
  roomID : String
  actorUserID : String
  targetUserID : String
  reason : String
  correlationID : String
  deriving DecidableEq, Repr

abbrev SpeakingBlockCommand := RevokeSpeakerCommand
abbrev RemoveParticipantCommand := RevokeSpeakerCommand

structure StartRecordingCommand where
  roomID : String
  actorUserID : String
  correlationID : String
  deriving DecidableEq, Repr

structure StopRecordingCommand where
  roomID : String
  recordingID : String
  actorUserID : String
  correlationID : String
  deriving DecidableEq, Repr

structure GenerateReportCommand where
  roomID : String
  actorUserID : String
  correlationID : String
  deriving DecidableEq, Repr

structure ActiveCounts where
  roomID : String
  listeners : Nat
  liveKit : Nat
  activeUsers : Nat
  deriving DecidableEq, Repr

/-- The result of `RecordingPlaybackURL`. -/
structure RecordingPlayback where
  recordingID : String
  storage : StorageObject
  playbackURL : String
  expiresIn : Int
  deriving DecidableEq, Repr

/-- The results of the two realtime token methods: the url or the channel, and
the token. -/
structure RealtimeToken where
  target : String
  token : String
  deriving DecidableEq, Repr

end WaveCast
