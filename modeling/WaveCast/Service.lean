import WaveCast.Contracts

/-!
# The application service

`internal/app/voiceapp/service.go`: every method of `Service` as a program
over `effects`. Nothing is said here about how the calls are answered; a
program is run sequentially or concurrently by `WaveCast.Runs`.
-/

namespace WaveCast

open Interaction

/-- A program of the service. -/
abbrev Action (α : Type) := Program effects AppError α

namespace Action

/-- Make a call that does not fail. -/
def ask (e : Effect) : Action e.Answer := @Program.perform effects AppError e

def now : Action Time := ask .now
def fresh (pfx : String) : Action String := ask (.newID pfx)

/-- Call a method of the store; its error stops the program. -/
def store (c : StoreCall) : Action c.Result := (ask (.store c)).bind Program.ofExcept

def present (c : PresenceCall) : Action c.Result := (ask (.presence c)).bind Program.ofExcept

end Action

open WaveCast.Action Program

structure Service where
  /-- `SetPresenceStore` was called. -/
  hasPresence : Bool
  /-- `SetJobQueue` was called. -/
  hasJobQueue : Bool
  /-- `SetRecordingURLSigner` was called. -/
  hasSigner : Bool
  media : MediaGateway
  cfg : ServiceConfig

/-- Trim, drop blanks and repetitions, keep the first occurrences in order. -/
def uniqueStrings (values : List String) : List String :=
  go [] values
where
  go (seen : List String) : List String → List String
    | [] => []
    | v :: vs =>
        if trimSpace v = "" then go seen vs
        else if trimSpace v ∈ seen then go seen vs
        else trimSpace v :: go (trimSpace v :: seen) vs

def permissionsFor (role : RoomRole) : RoomPermissions :=
  { canSpeak := roleUsesLiveKit role
    canModerate := roleCanModerate role
    canRecord := roleCanModerate role
    canReport := roleCanModerate role }

/-! ## The records the methods write -/

def startedRoom (room : Room) (t : Time) : Room :=
  { room with status := .live, startedAt := some t, updatedAt := t }

def finishedRoom (room : Room) (cmd : FinishRoomCommand) (t : Time) : Room :=
  { room with
    status := .finished, endedAt := some t, endedBy := cmd.actorUserID
    endReason := trimSpace cmd.reason, updatedAt := t }

/-- Set the active recording of a room; the empty id clears it. -/
def withActiveRecording (room : Room) (recordingID : String) (t : Time) : Room :=
  { room with
    recording := { room.recording with activeRecordingID := recordingID }, updatedAt := t }

def newParticipantSession (room : Room) (userID : String) (role : RoomRole) (id : String)
    (t : Time) : ParticipantSession :=
  { id, roomID := room.id, userID, role, liveKitIdentity := userID, status := .active,
    joinedAt := t, leftAt := none, leaveType := "" }

def newListenerSession (room : Room) (userID id : String) (t : Time) : ListenerSession :=
  { id, roomID := room.id, userID, status := .active, playbackURLKind := room.passive.mode,
    joinedAt := t, leftAt := none, lastHeartbeatAt := t, leaveType := "", removedBy := "",
    removeReason := "", createdAt := t, updatedAt := t }

def touchedSession (session : ListenerSession) (t : Time) : ListenerSession :=
  { session with lastHeartbeatAt := t, updatedAt := t }

/-- A session that ended by itself: it left or expired. -/
def endedSession (session : ListenerSession) (status : ListenerSessionStatus) (leaveType : String)
    (t : Time) : ListenerSession :=
  { session with status, leftAt := some t, leaveType, updatedAt := t }

def removedSession (session : ListenerSession) (cmd : RemoveParticipantCommand) (t : Time) :
    ListenerSession :=
  { session with
    status := .removed, leftAt := some t, removedBy := cmd.actorUserID
    removeReason := trimSpace cmd.reason, updatedAt := t }

def pendingRequest (room : Room) (userID id : String) (t : Time) : SpeakerRequest :=
  { id, roomID := room.id, userID, status := .pending, requestedAt := t, decidedAt := none,
    decidedBy := "", decisionReason := "" }

def decidedRequest (request : SpeakerRequest) (cmd : DecideSpeakerRequestCommand)
    (status : SpeakerRequestStatus) (t : Time) : SpeakerRequest :=
  { request with
    status, decidedAt := some t, decidedBy := cmd.actorUserID
    decisionReason := trimSpace cmd.reason }

def newBlock (room : Room) (cmd : SpeakingBlockCommand) (id : String) (t : Time) :
    SpeakingBlock :=
  { id, roomID := room.id, userID := cmd.targetUserID, blockedBy := cmd.actorUserID,
    reason := trimSpace cmd.reason, blockedAt := t, unblockedBy := "", unblockedAt := none }

def liftedBlock (block : SpeakingBlock) (cmd : SpeakingBlockCommand) (t : Time) : SpeakingBlock :=
  { block with unblockedAt := some t, unblockedBy := cmd.actorUserID }

def newReport (room : Room) (stats : ReportStats) (id : String) (t : Time) : RoomReport :=
  { id, roomID := room.id, status := .completed
    summary :=
      { uniqueListeners := stats.uniqueListeners
        uniqueSpeakers := stats.uniqueSpeakers
        totalJoinEvents := stats.totalJoinEvents
        peakConcurrentListeners := stats.peakConcurrentListeners
        totalListeningSeconds := stats.totalListeningSeconds
        totalSpeakingSeconds := stats.totalSpeakingSeconds }
    generatedAt := t }

namespace Service

variable (s : Service)

def draftRoom (cmd : CreateRoomCommand) (roomID listenerStreamID : String) (t : Time) : Room :=
  { id := roomID
    title := trimSpace cmd.title
    status := .draft
    ownerID := cmd.ownerID
    adminIDs := uniqueStrings cmd.adminIDs
    moderatorIDs := uniqueStrings cmd.moderatorIDs
    liveKitRoomName := "lk_" ++ roomID
    listenerStreamID
    passive := s.media.passiveMedia roomID
    recording := { enabled := s.cfg.recordingEnabled, activeRecordingID := "" }
    startedAt := none
    endedAt := none
    endedBy := ""
    endReason := ""
    createdAt := t
    updatedAt := t }

def startedRecording (room : Room) (id : String) (t : Time) : RoomRecording :=
  { id, roomID := room.id, egressID := "", status := .started
    storage :=
      { provider := "s3", bucket := s.cfg.s3Bucket, region := s.cfg.s3Region
        key := trimSlash s.cfg.s3RecordingsPrefix ++ "/" ++ room.id ++ "/full.mp4"
        mimeType := "video/mp4", sizeBytes := 0 }
    durationSeconds := 0, startedAt := t, endedAt := none, expiresAt := none
    createdAt := t, updatedAt := t }

def completedRecording (recording : RoomRecording) (t : Time) : RoomRecording :=
  { recording with
    status := .completed, endedAt := some t
    durationSeconds := Duration.seconds (Time.sub t recording.startedAt)
    expiresAt := if s.cfg.recordingRetentionDays > 0 then
      some (t + s.cfg.recordingRetentionDays * 24 * hour) else recording.expiresAt
    updatedAt := t }

/-! ## Shared steps -/

def realtimeDescriptor (roomID userID : String) (role : RoomRole) : RealtimeDescriptor :=
  { url := s.cfg.realtimeURL
    connectionTokenURL := "/v1/realtime/token"
    channels := ["room:" ++ roomID, "user:" ++ userID] ++
      if roleCanModerate role then ["room:" ++ roomID ++ ":admins"] else [] }

/-- Append the event to the store, then publish it. -/
def publish (eventType roomID actorUserID targetUserID correlationID : String)
    (payload : Payload) : Action Unit := do
  let eventID ← fresh prefixEvent
  let occurredAt ← now
  let event : VoiceEvent :=
    { eventID, eventType, eventVersion := 1, roomID, actorUserID, targetUserID, correlationID,
      causationID := "", occurredAt, payload }
  store (.appendEvent event)
  let answer ← ask (.publish event)
  ofExcept answer

/-- A queue error is only logged. -/
def enqueueBestEffort (jobType idempotencyKey : String) (payload : RoomJobPayload) :
    Action Unit :=
  if s.hasJobQueue then do
    let _ ← ask (.enqueue ⟨jobType, idempotencyKey, payload⟩)
    pure ()
  else pure ()

/-- Call the presence store if there is one. -/
def presenceDo (c : PresenceCall) : Action Unit :=
  if s.hasPresence then do
    let _ ← present c
    pure ()
  else pure ()

def resolveRole (room : Room) (userID : String) : Action RoomRole :=
  if room.resolveRole userID ≠ .listener then pure (room.resolveRole userID)
  else do
    match ← ask (.store (.findApprovedSpeakerRequest room.id userID)) with
    | .ok _ => pure .speaker
    | .error .speakerRequestNotFound => pure .listener
    | .error e => fail e

/-! ## Rooms -/

def createRoom (cmd : CreateRoomCommand) : Action Room := do
  require (trimSpace cmd.title ≠ "" && trimSpace cmd.ownerID ≠ "") .invalidArgument
  let createdAt ← now
  let roomID ← fresh prefixRoom
  let listenerStreamID ← fresh prefixListenerStream
  let room := s.draftRoom cmd roomID listenerStreamID createdAt
  store (.saveRoom room)
  publish eventRoomCreated room.id cmd.ownerID "" cmd.correlationID (.room room)
  pure room

def startRoom (cmd : StartRoomCommand) : Action Room := do
  let room ← store (.getRoom cmd.roomID)
  require (roleCanModerate (room.resolveRole cmd.actorUserID)) .permissionDenied
  require (room.status = .draft || room.status = .scheduled) .invalidRoomState
  let t ← now
  let room := startedRoom room t
  store (.saveRoom room)
  publish eventRoomStarted room.id cmd.actorUserID "" cmd.correlationID (.room room)
  pure room

def closeSessionsKey (roomID : String) : String := "room:" ++ roomID ++ ":close_sessions:v1"
def generateReportKey (roomID : String) : String := "room:" ++ roomID ++ ":generate_report:v1"

def finishRoom (cmd : FinishRoomCommand) : Action Room := do
  let room ← store (.getRoom cmd.roomID)
  require (roleCanModerate (room.resolveRole cmd.actorUserID)) .permissionDenied
  require (room.status = .live || room.status = .scheduled) .invalidRoomState
  let t ← now
  let room := finishedRoom room cmd t
  store (.saveRoom room)
  publish eventRoomFinished room.id cmd.actorUserID "" cmd.correlationID (.room room)
  s.enqueueBestEffort jobCloseRoomSessions (closeSessionsKey room.id) ⟨room.id, cmd.actorUserID⟩
  s.enqueueBestEffort jobGenerateRoomReport (generateReportKey room.id) ⟨room.id, cmd.actorUserID⟩
  pure room

def getRoom (roomID : String) : Action Room := store (.getRoom roomID)

def activeCounts (roomID : String) : Action ActiveCounts := do
  let listeners ← if s.hasPresence then present (.activeListenerCount roomID)
    else store (.countActiveListeners roomID)
  let liveKit ← if s.hasPresence then present (.activeParticipantCount roomID)
    else store (.countActiveParticipantSessions roomID)
  pure { roomID, listeners, liveKit, activeUsers := listeners + liveKit }

/-! ## Joining, listening, leaving -/

def joinRoom (cmd : JoinRoomCommand) : Action JoinRoomResult := do
  let room ← store (.getRoom cmd.roomID)
  require (room.status = .live) .roomNotLive
  let role ← resolveRole room cmd.userID
  let permissions := permissionsFor role
  let events := s.realtimeDescriptor room.id cmd.userID role
  if roleUsesLiveKit role then do
    let sessionID ← fresh prefixParticipant
    let joinedAt ← now
    let session := newParticipantSession room cmd.userID role sessionID joinedAt
    store (.saveParticipantSession session)
    s.presenceDo (.markParticipantActive room.id session.id cmd.userID s.cfg.listenerSessionTimeout)
    let speaker ← ofExcept (← ask (.issueSpeakerToken ⟨room.liveKitRoomName, cmd.userID, role⟩))
    pure { roomID := room.id, role, mediaPath := .liveKit, permissions, listener := none,
           speaker := some speaker, events }
  else do
    let t ← now
    let sessionID ← fresh prefixListenerSession
    let session := newListenerSession room cmd.userID sessionID t
    store (.saveListenerSession session)
    s.presenceDo (.markListenerActive room.id session.id cmd.userID s.cfg.listenerSessionTimeout)
    publish eventListenerSessionStarted room.id cmd.userID "" cmd.correlationID
      (.listenerSession session)
    pure { roomID := room.id, role, mediaPath := .llhls, permissions,
           listener := some (s.media.listenerDescriptor room session.id s.cfg.heartbeatInterval),
           speaker := none, events }

def listenerHeartbeat (cmd : ListenerHeartbeatCommand) : Action ListenerSession := do
  let session ← store (.getListenerSession cmd.sessionID)
  require (session.roomID = cmd.roomID && session.userID = cmd.userID) .permissionDenied
  require (session.status = .active) .listenerSessionNotFound
  let t ← now
  let session := touchedSession session t
  store (.saveListenerSession session)
  s.presenceDo (.touchListener session.roomID session.id s.cfg.listenerSessionTimeout)
  publish eventListenerHeartbeatReceived session.roomID cmd.userID "" cmd.correlationID
    (.listenerSession session)
  pure session

def leaveListener (cmd : LeaveListenerCommand) : Action ListenerSession := do
  let session ← store (.getListenerSession cmd.sessionID)
  require (session.roomID = cmd.roomID && session.userID = cmd.userID) .permissionDenied
  let t ← now
  let session := endedSession session .left (trimSpace cmd.leaveType) t
  store (.saveListenerSession session)
  s.presenceDo (.markListenerInactive session.roomID session.id)
  publish eventListenerSessionLeft session.roomID cmd.userID "" cmd.correlationID
    (.listenerSession session)
  pure session

def listenerStream (roomID : String) : Action ListenerMediaDescriptor := do
  let room ← store (.getRoom roomID)
  pure (s.media.listenerDescriptor room "" s.cfg.heartbeatInterval)

/-! ## Speaking -/

def requestToSpeak (cmd : RequestToSpeakCommand) : Action SpeakerRequest := do
  let room ← store (.getRoom cmd.roomID)
  require (room.status = .live) .roomNotLive
  match ← ask (.store (.getActiveSpeakingBlock room.id cmd.userID)) with
  | .ok _ => fail .speakerBlocked
  | .error .speakingBlockNotFound =>
    match ← ask (.store (.findPendingSpeakerRequest room.id cmd.userID)) with
    | .ok _ => fail .conflict
    | .error .speakerRequestNotFound => do
      let requestID ← fresh prefixSpeakerRequest
      let t ← now
      let req := pendingRequest room cmd.userID requestID t
      store (.saveSpeakerRequest req)
      publish eventSpeakerRequested room.id cmd.userID cmd.userID cmd.correlationID
        (.speakerRequest req)
      pure req
    | .error e => fail e
  | .error e => fail e

def decideSpeakerRequest (cmd : DecideSpeakerRequestCommand) (status : SpeakerRequestStatus)
    (eventType : String) : Action SpeakerRequest := do
  let room ← store (.getRoom cmd.roomID)
  require (roleCanModerate (room.resolveRole cmd.actorUserID)) .permissionDenied
  let request ← store (.getSpeakerRequest cmd.requestID)
  require (request.roomID = room.id && request.status = .pending) .invalidRoomState
  let t ← now
  let request := decidedRequest request cmd status t
  store (.saveSpeakerRequest request)
  publish eventType room.id cmd.actorUserID request.userID cmd.correlationID
    (.speakerRequest request)
  pure request

def approveSpeakerRequest (cmd : DecideSpeakerRequestCommand) : Action SpeakerRequest :=
  decideSpeakerRequest cmd .approved eventSpeakerApproved

def declineSpeakerRequest (cmd : DecideSpeakerRequestCommand) : Action SpeakerRequest :=
  decideSpeakerRequest cmd .declined eventSpeakerDeclined

def createSpeakerSession (cmd : CreateSpeakerSessionCommand) : Action JoinRoomResult := do
  let room ← store (.getRoom cmd.roomID)
  require (room.status = .live) .roomNotLive
  let role ← resolveRole room cmd.userID
  require (roleUsesLiveKit role) .permissionDenied
  let sessionID ← fresh prefixParticipant
  let joinedAt ← now
  let session := newParticipantSession room cmd.userID role sessionID joinedAt
  store (.saveParticipantSession session)
  s.presenceDo (.markParticipantActive room.id session.id cmd.userID s.cfg.listenerSessionTimeout)
  let speaker ← ofExcept (← ask (.issueSpeakerToken ⟨room.liveKitRoomName, cmd.userID, role⟩))
  pure { roomID := room.id, role, mediaPath := .liveKit, permissions := permissionsFor role,
         listener := none, speaker := some speaker,
         events := s.realtimeDescriptor room.id cmd.userID role }

def revokeSpeaker (cmd : RevokeSpeakerCommand) : Action Unit := do
  let room ← store (.getRoom cmd.roomID)
  require (roleCanModerate (room.resolveRole cmd.actorUserID)) .permissionDenied
  publish eventSpeakerRevoked room.id cmd.actorUserID cmd.targetUserID cmd.correlationID
    (.target ⟨room.id, cmd.targetUserID, cmd.reason⟩)

def blockSpeaking (cmd : SpeakingBlockCommand) : Action SpeakingBlock := do
  let room ← store (.getRoom cmd.roomID)
  require (roleCanModerate (room.resolveRole cmd.actorUserID)) .permissionDenied
  match ← ask (.store (.getActiveSpeakingBlock room.id cmd.targetUserID)) with
  | .ok existing => pure existing
  | .error .speakingBlockNotFound => do
    let blockID ← fresh prefixSpeakingBlock
    let t ← now
    let block := newBlock room cmd blockID t
    store (.saveSpeakingBlock block)
    publish eventSpeakerBlocked room.id cmd.actorUserID cmd.targetUserID cmd.correlationID
      (.speakingBlock block)
    pure block
  | .error e => fail e

def unblockSpeaking (cmd : SpeakingBlockCommand) : Action SpeakingBlock := do
  let room ← store (.getRoom cmd.roomID)
  require (roleCanModerate (room.resolveRole cmd.actorUserID)) .permissionDenied
  let block ← store (.getActiveSpeakingBlock room.id cmd.targetUserID)
  let t ← now
  let block := liftedBlock block cmd t
  store (.saveSpeakingBlock block)
  publish eventSpeakerUnblocked room.id cmd.actorUserID cmd.targetUserID cmd.correlationID
    (.speakingBlock block)
  pure block

def removeParticipant (cmd : RemoveParticipantCommand) : Action Unit := do
  let room ← store (.getRoom cmd.roomID)
  require (roleCanModerate (room.resolveRole cmd.actorUserID)) .permissionDenied
  let sessions ← store (.listActiveListenerSessionsByUser room.id cmd.targetUserID)
  let t ← now
  forEach sessions fun session => do
    let session := removedSession session cmd t
    store (.saveListenerSession session)
    s.presenceDo (.markListenerInactive room.id session.id)
  publish eventModerationUserRemoved room.id cmd.actorUserID cmd.targetUserID cmd.correlationID
    (.target ⟨room.id, cmd.targetUserID, cmd.reason⟩)

/-! ## Recordings and reports -/

def startRecording (cmd : StartRecordingCommand) : Action RoomRecording := do
  require s.cfg.recordingEnabled .recordingDisabled
  let room ← store (.getRoom cmd.roomID)
  require (roleCanModerate (room.resolveRole cmd.actorUserID)) .permissionDenied
  require (room.status = .live) .roomNotLive
  let t ← now
  let recordingID ← fresh prefixRecording
  let recording := s.startedRecording room recordingID t
  let room := withActiveRecording room recording.id t
  store (.saveRecording recording)
  store (.saveRoom room)
  publish eventRecordingStarted room.id cmd.actorUserID "" cmd.correlationID (.recording recording)
  pure recording

def stopRecording (cmd : StopRecordingCommand) : Action RoomRecording := do
  let room ← store (.getRoom cmd.roomID)
  require (roleCanModerate (room.resolveRole cmd.actorUserID)) .permissionDenied
  let recording ← store (.getRecording cmd.recordingID)
  require (recording.roomID = room.id) .recordingNotFound
  let t ← now
  let recording := s.completedRecording recording t
  let room := withActiveRecording room "" t
  store (.saveRecording recording)
  store (.saveRoom room)
  publish eventRecordingCompleted room.id cmd.actorUserID "" cmd.correlationID
    (.recording recording)
  pure recording

def listRecordings (roomID : String) : Action (List RoomRecording) := store (.listRecordings roomID)

def getRecording (recordingID : String) : Action RoomRecording := store (.getRecording recordingID)

def recordingPlaybackURL (roomID recordingID actorUserID : String) : Action RecordingPlayback := do
  let room ← store (.getRoom roomID)
  require (roleCanModerate (room.resolveRole actorUserID)) .permissionDenied
  let recording ← store (.getRecording recordingID)
  require (recording.roomID = room.id) .recordingNotFound
  let playbackURL ← if s.hasSigner then do
      ofExcept (← ask (.playbackURL recording.storage s.cfg.s3PresignedURLTTL))
    else pure ""
  pure { recordingID := recording.id, storage := recording.storage, playbackURL,
         expiresIn := Duration.seconds s.cfg.s3PresignedURLTTL }

def generateReport (cmd : GenerateReportCommand) : Action RoomReport := do
  let room ← store (.getRoom cmd.roomID)
  require (roleCanModerate (room.resolveRole cmd.actorUserID)) .permissionDenied
  let stats ← store (.reportStats room.id)
  let reportID ← fresh prefixReport
  let t ← now
  let report := newReport room stats reportID t
  store (.saveReport report)
  publish eventReportCompleted room.id cmd.actorUserID "" cmd.correlationID (.report report)
  pure report

def getReport (roomID : String) : Action RoomReport := store (.getReport roomID)

/-! ## Worker commands -/

/-- The number of sessions expired is only returned when every round succeeds. -/
def expireStaleListenerSessions (cutoff : Time) (limit : Int) (correlationID : String) :
    Action Nat := do
  let limit := if limit ≤ 0 then 100 else limit
  let sessions ← store (.listStaleListenerSessions cutoff limit)
  let t ← now
  forEach sessions fun session => do
    let session := endedSession session .expired "heartbeat_timeout" t
    store (.saveListenerSession session)
    s.presenceDo (.markListenerInactive session.roomID session.id)
    publish eventListenerSessionExpired session.roomID "" session.userID correlationID
      (.listenerSession session)
  pure sessions.length

def closeRoomSessions (roomID : String) (endedAt : Time) (_correlationID : String) :
    Action Unit := do
  let sessions ← store (.listActiveListenerSessions roomID)
  forEach sessions fun session => do
    let session := endedSession session .left "room_finished" endedAt
    store (.saveListenerSession session)
    s.presenceDo (.markListenerInactive roomID session.id)

/-! ## Realtime tokens -/

def authorizeChannel (userID channel : String) : Action Unit :=
  if hasPrefix channel "user:" then
    require (channel = "user:" ++ userID) .permissionDenied
  else if hasPrefix channel "room:" then
    let parts := splitColon channel
    if parts.length < 2 then fail .invalidArgument
    else do
      let room ← store (.getRoom (parts.getD 1 ""))
      let role ← resolveRole room userID
      require (!(parts.length = 3 && parts.getD 2 "" = "admins" && !roleCanModerate role))
        .permissionDenied
  else if hasPrefix channel "listener_session:" then pure ()
  else fail .permissionDenied

def realtimeConnectionToken (userID : String) : Action RealtimeToken := do
  require (trimSpace userID ≠ "") .invalidArgument
  let token ← ofExcept (← ask (.connectionToken userID))
  pure { target := s.cfg.realtimeURL, token }

def realtimeSubscriptionToken (userID channel : String) : Action RealtimeToken := do
  require (trimSpace userID ≠ "" && trimSpace channel ≠ "") .invalidArgument
  authorizeChannel userID channel
  let token ← ofExcept (← ask (.subscriptionToken userID channel))
  pure { target := channel, token }

end Service

/-! ## Commands -/

/-- One call of a service method, by the API or by a worker. -/
inductive Command where
  | createRoom (cmd : CreateRoomCommand)
  | startRoom (cmd : StartRoomCommand)
  | finishRoom (cmd : FinishRoomCommand)
  | getRoom (roomID : String)
  | activeCounts (roomID : String)
  | joinRoom (cmd : JoinRoomCommand)
  | listenerHeartbeat (cmd : ListenerHeartbeatCommand)
  | leaveListener (cmd : LeaveListenerCommand)
  | listenerStream (roomID : String)
  | requestToSpeak (cmd : RequestToSpeakCommand)
  | approveSpeakerRequest (cmd : DecideSpeakerRequestCommand)
  | declineSpeakerRequest (cmd : DecideSpeakerRequestCommand)
  | createSpeakerSession (cmd : CreateSpeakerSessionCommand)
  | revokeSpeaker (cmd : RevokeSpeakerCommand)
  | blockSpeaking (cmd : SpeakingBlockCommand)
  | unblockSpeaking (cmd : SpeakingBlockCommand)
  | removeParticipant (cmd : RemoveParticipantCommand)
  | startRecording (cmd : StartRecordingCommand)
  | stopRecording (cmd : StopRecordingCommand)
  | listRecordings (roomID : String)
  | getRecording (recordingID : String)
  | recordingPlaybackURL (roomID recordingID actorUserID : String)
  | generateReport (cmd : GenerateReportCommand)
  | getReport (roomID : String)
  | expireStaleListenerSessions (cutoff : Time) (limit : Int) (correlationID : String)
  | closeRoomSessions (roomID : String) (endedAt : Time) (correlationID : String)
  | realtimeConnectionToken (userID : String)
  | realtimeSubscriptionToken (userID channel : String)
  deriving DecidableEq

/-- What a command returns when it succeeds. -/
inductive Reply where
  | done
  | room (r : Room)
  | counts (c : ActiveCounts)
  | joined (r : JoinRoomResult)
  | listenerSession (s : ListenerSession)
  | stream (d : ListenerMediaDescriptor)
  | speakerRequest (r : SpeakerRequest)
  | speakingBlock (b : SpeakingBlock)
  | recording (r : RoomRecording)
  | recordings (rs : List RoomRecording)
  | playback (p : RecordingPlayback)
  | report (r : RoomReport)
  | expired (n : Nat)
  | token (t : RealtimeToken)
  deriving DecidableEq

def Service.program (s : Service) : Command → Action Reply
  | .createRoom cmd => .room <$> s.createRoom cmd
  | .startRoom cmd => .room <$> startRoom cmd
  | .finishRoom cmd => .room <$> s.finishRoom cmd
  | .getRoom roomID => .room <$> getRoom roomID
  | .activeCounts roomID => .counts <$> s.activeCounts roomID
  | .joinRoom cmd => .joined <$> s.joinRoom cmd
  | .listenerHeartbeat cmd => .listenerSession <$> s.listenerHeartbeat cmd
  | .leaveListener cmd => .listenerSession <$> s.leaveListener cmd
  | .listenerStream roomID => .stream <$> s.listenerStream roomID
  | .requestToSpeak cmd => .speakerRequest <$> requestToSpeak cmd
  | .approveSpeakerRequest cmd => .speakerRequest <$> approveSpeakerRequest cmd
  | .declineSpeakerRequest cmd => .speakerRequest <$> declineSpeakerRequest cmd
  | .createSpeakerSession cmd => .joined <$> s.createSpeakerSession cmd
  | .revokeSpeaker cmd => (fun _ => .done) <$> revokeSpeaker cmd
  | .blockSpeaking cmd => .speakingBlock <$> blockSpeaking cmd
  | .unblockSpeaking cmd => .speakingBlock <$> unblockSpeaking cmd
  | .removeParticipant cmd => (fun _ => .done) <$> s.removeParticipant cmd
  | .startRecording cmd => .recording <$> s.startRecording cmd
  | .stopRecording cmd => .recording <$> s.stopRecording cmd
  | .listRecordings roomID => .recordings <$> listRecordings roomID
  | .getRecording recordingID => .recording <$> getRecording recordingID
  | .recordingPlaybackURL roomID recordingID actorUserID =>
      .playback <$> s.recordingPlaybackURL roomID recordingID actorUserID
  | .generateReport cmd => .report <$> generateReport cmd
  | .getReport roomID => .report <$> getReport roomID
  | .expireStaleListenerSessions cutoff limit correlationID =>
      .expired <$> s.expireStaleListenerSessions cutoff limit correlationID
  | .closeRoomSessions roomID endedAt correlationID =>
      (fun _ => .done) <$> s.closeRoomSessions roomID endedAt correlationID
  | .realtimeConnectionToken userID => .token <$> s.realtimeConnectionToken userID
  | .realtimeSubscriptionToken userID channel =>
      .token <$> realtimeSubscriptionToken userID channel

end WaveCast
