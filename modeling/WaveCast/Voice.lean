import WaveCast.Platform

/-!
# The voice domain

`internal/domain/voice/types.go`: the records the service stores, the roles a
room gives to a user, and the event envelope.
-/

namespace WaveCast

inductive RoomStatus where
  | draft
  | scheduled
  | live
  | ending
  | finished
  | cancelled
  deriving DecidableEq, Repr

inductive RoomRole where
  | owner
  | admin
  | moderator
  | speaker
  | listener
  deriving DecidableEq, Repr

inductive MediaPath where
  | liveKit
  | hls
  | llhls
  deriving DecidableEq, Repr

inductive ListenerSessionStatus where
  | active
  | left
  | expired
  | removed
  deriving DecidableEq, Repr

inductive ParticipantSessionStatus where
  | active
  | left
  | removed
  deriving DecidableEq, Repr

inductive SpeakerRequestStatus where
  | pending
  | approved
  | declined
  | cancelled
  | revoked
  deriving DecidableEq, Repr

inductive RecordingStatus where
  | requested
  | started
  | stopping
  | completed
  | failed
  | expired
  | deleted
  deriving DecidableEq, Repr

inductive ReportStatus where
  | requested
  | generating
  | completed
  | failed
  deriving DecidableEq, Repr

structure PassiveMedia where
  enabled : Bool
  mode : String
  protocol : String
  originPlaybackURL : String
  cdnPlaybackURL : String
  targetLatencyMS : Int
  segmentDurationMS : Int
  partDurationMS : Int
  deriving DecidableEq, Repr

structure RoomRecordingConfig where
  enabled : Bool
  activeRecordingID : String
  deriving DecidableEq, Repr

structure Room where
  id : String
  title : String
  status : RoomStatus
  ownerID : String
  adminIDs : List String
  moderatorIDs : List String
  liveKitRoomName : String
  listenerStreamID : String
  passive : PassiveMedia
  recording : RoomRecordingConfig
  startedAt : Option Time
  endedAt : Option Time
  endedBy : String
  endReason : String
  createdAt : Time
  updatedAt : Time
  deriving DecidableEq, Repr

def Room.resolveRole (r : Room) (userID : String) : RoomRole :=
  if userID = "" then .listener
  else if r.ownerID = userID then .owner
  else if userID ∈ r.adminIDs then .admin
  else if userID ∈ r.moderatorIDs then .moderator
  else .listener

def roleCanModerate (role : RoomRole) : Bool :=
  role = .owner || role = .admin || role = .moderator

def roleUsesLiveKit (role : RoomRole) : Bool :=
  role = .owner || role = .admin || role = .moderator || role = .speaker

/-- The owner, an admin or a moderator of the room, by its lists. -/
def Room.Moderates (r : Room) (userID : String) : Prop :=
  userID ≠ "" ∧ (userID = r.ownerID ∨ userID ∈ r.adminIDs ∨ userID ∈ r.moderatorIDs)

theorem Room.canModerate_iff (r : Room) (userID : String) :
    roleCanModerate (r.resolveRole userID) = true ↔ r.Moderates userID := by
  simp only [resolveRole, Moderates]
  split
  · simp [roleCanModerate, *]
  split
  · subst_vars; simp [roleCanModerate, *]
  split
  · simp [roleCanModerate, *]
  split
  · simp [roleCanModerate, *]
  · rename_i h₁ h₂ h₃ h₄
    simp [roleCanModerate, h₁, h₃, h₄, Ne.symm h₂]

/-- A room itself never makes anybody a speaker. -/
theorem Room.resolveRole_eq_listener_iff (r : Room) (userID : String) :
    r.resolveRole userID = .listener ↔ ¬ r.Moderates userID := by
  rw [← r.canModerate_iff]
  simp only [resolveRole]
  repeat' split
  all_goals simp [roleCanModerate]

theorem Room.resolveRole_ne_speaker (r : Room) (userID : String) :
    r.resolveRole userID ≠ .speaker := by
  simp only [resolveRole]
  repeat' split
  all_goals simp

structure RoomPermissions where
  canSpeak : Bool
  canModerate : Bool
  canRecord : Bool
  canReport : Bool
  deriving DecidableEq, Repr

structure RealtimeDescriptor where
  url : String
  connectionTokenURL : String
  channels : List String
  deriving DecidableEq, Repr

structure ListenerMediaDescriptor where
  protocol : String
  playbackURL : String
  sessionID : String
  heartbeatIntervalSeconds : Int
  refreshURL : String
  heartbeatURL : String
  targetLatencyMS : Int
  deriving DecidableEq, Repr

structure SpeakerMediaDescriptor where
  provider : String
  url : String
  token : String
  roomName : String
  identity : String
  deriving DecidableEq, Repr

structure JoinRoomResult where
  roomID : String
  role : RoomRole
  mediaPath : MediaPath
  permissions : RoomPermissions
  listener : Option ListenerMediaDescriptor
  speaker : Option SpeakerMediaDescriptor
  events : RealtimeDescriptor
  deriving DecidableEq, Repr

structure ListenerSession where
  id : String
  roomID : String
  userID : String
  status : ListenerSessionStatus
  playbackURLKind : String
  joinedAt : Time
  leftAt : Option Time
  lastHeartbeatAt : Time
  leaveType : String
  removedBy : String
  removeReason : String
  createdAt : Time
  updatedAt : Time
  deriving DecidableEq, Repr

structure ParticipantSession where
  id : String
  roomID : String
  userID : String
  role : RoomRole
  liveKitIdentity : String
  status : ParticipantSessionStatus
  joinedAt : Time
  leftAt : Option Time
  leaveType : String
  deriving DecidableEq, Repr

structure SpeakerRequest where
  id : String
  roomID : String
  userID : String
  status : SpeakerRequestStatus
  requestedAt : Time
  decidedAt : Option Time
  decidedBy : String
  decisionReason : String
  deriving DecidableEq, Repr

structure SpeakingBlock where
  id : String
  roomID : String
  userID : String
  blockedBy : String
  reason : String
  blockedAt : Time
  unblockedBy : String
  unblockedAt : Option Time
  deriving DecidableEq, Repr

structure StorageObject where
  provider : String
  bucket : String
  region : String
  key : String
  mimeType : String
  sizeBytes : Int
  deriving DecidableEq, Repr

structure RoomRecording where
  id : String
  roomID : String
  egressID : String
  status : RecordingStatus
  storage : StorageObject
  durationSeconds : Int
  startedAt : Time
  endedAt : Option Time
  expiresAt : Option Time
  createdAt : Time
  updatedAt : Time
  deriving DecidableEq, Repr

structure ReportSummary where
  uniqueListeners : Nat
  uniqueSpeakers : Nat
  totalJoinEvents : Nat
  peakConcurrentListeners : Nat
  totalListeningSeconds : Int
  totalSpeakingSeconds : Int
  deriving DecidableEq, Repr

structure RoomReport where
  id : String
  roomID : String
  status : ReportStatus
  summary : ReportSummary
  generatedAt : Time
  deriving DecidableEq, Repr

/-- The payload of revocations and removals. -/
structure TargetPayload where
  roomID : String
  targetUserID : String
  reason : String
  deriving DecidableEq, Repr

/-- What the service puts into the `any` field of an envelope. -/
inductive Payload where
  | room (r : Room)
  | listenerSession (s : ListenerSession)
  | speakerRequest (r : SpeakerRequest)
  | speakingBlock (b : SpeakingBlock)
  | recording (r : RoomRecording)
  | report (r : RoomReport)
  | target (t : TargetPayload)
  deriving DecidableEq, Repr

structure EventEnvelope (π : Type) where
  eventID : String
  eventType : String
  eventVersion : Nat
  roomID : String
  actorUserID : String
  targetUserID : String
  correlationID : String
  causationID : String
  occurredAt : Time
  payload : π
  deriving DecidableEq, Repr

/-- The envelopes the service appends and publishes. -/
abbrev VoiceEvent := EventEnvelope Payload

def eventRoomCreated := "voice.room.created"
def eventRoomStarted := "voice.room.started"
def eventRoomFinished := "voice.room.finished"
def eventListenerSessionStarted := "voice.listener.session.started"
def eventListenerHeartbeatReceived := "voice.listener.session.heartbeat_received"
def eventListenerSessionLeft := "voice.listener.session.left"
def eventListenerSessionExpired := "voice.listener.session.expired"
def eventSpeakerRequested := "voice.speaker.requested"
def eventSpeakerApproved := "voice.speaker.approved"
def eventSpeakerDeclined := "voice.speaker.declined"
def eventSpeakerRevoked := "voice.speaker.revoked"
def eventSpeakerBlocked := "voice.speaker.blocked"
def eventSpeakerUnblocked := "voice.speaker.unblocked"
def eventModerationUserRemoved := "voice.moderation.user_removed"
def eventRecordingStarted := "voice.recording.started"
def eventRecordingCompleted := "voice.recording.completed"
def eventReportCompleted := "voice.report.completed"

def jobDispatchRealtimeEvent := "dispatch_realtime_event"
def jobRetryRealtimeEvent := "retry_failed_realtime_event"
def jobGenerateRoomReport := "generate_room_report"
def jobFinalizeRecording := "finalize_recording"
def jobExpireRecording := "expire_recording"
def jobDeleteRecordingFile := "delete_recording_file"
def jobExpireListenerSession := "expire_stale_listener_sessions"
def jobCloseRoomSessions := "close_room_sessions"
def jobProcessLiveKitWebhook := "process_livekit_webhook"
def jobProcessEgressWebhook := "process_egress_webhook"
def jobSendNotification := "send_notification"
def jobSyncAnalytics := "sync_analytics"

end WaveCast
