import WaveCast.Alone
import WaveCast.Provenance
import WaveCast.RedisPresence
import WaveCast.Refusals

/-!
# What a command attests

A third protocol beside `Asks` and `Accounts` (`program_attests`): the event a
command appends is a notice of what it has saved before, and only then is given
to the bus; reports go under ids that were just drawn; recordings are saved and
playback URLs signed for moderators of the room; sessions are marked as present
for the time the configuration says.
-/

namespace WaveCast

open Interaction WaveCast.Action Program Service

/-- What a command says has happened. `publish` adds an id, the time and the
correlation id of the command. -/
structure Notice where
  eventType : String
  roomID : String
  actorUserID : String
  targetUserID : String
  payload : Payload

def Notice.event (n : Notice) (correlationID eventID : String) (t : Time) : VoiceEvent :=
  envelope n.eventType n.roomID n.actorUserID n.targetUserID correlationID n.payload eventID t

/-- The correlation id a command passes on to its events. -/
def Command.correlationID : Command → String
  | .createRoom c => c.correlationID
  | .startRoom c => c.correlationID
  | .finishRoom c => c.correlationID
  | .joinRoom c => c.correlationID
  | .listenerHeartbeat c => c.correlationID
  | .leaveListener c => c.correlationID
  | .requestToSpeak c => c.correlationID
  | .approveSpeakerRequest c => c.correlationID
  | .declineSpeakerRequest c => c.correlationID
  | .createSpeakerSession c => c.correlationID
  | .revokeSpeaker c => c.correlationID
  | .blockSpeaking c => c.correlationID
  | .unblockSpeaking c => c.correlationID
  | .removeParticipant c => c.correlationID
  | .startRecording c => c.correlationID
  | .stopRecording c => c.correlationID
  | .generateReport c => c.correlationID
  | .expireStaleListenerSessions _ _ correlationID => correlationID
  | .closeRoomSessions _ _ correlationID => correlationID
  | _ => ""

/-- Who acts; a worker acts for nobody. -/
def Command.actor : Command → String
  | .createRoom c => c.ownerID
  | .startRoom c => c.actorUserID
  | .finishRoom c => c.actorUserID
  | .joinRoom c => c.userID
  | .listenerHeartbeat c => c.userID
  | .leaveListener c => c.userID
  | .requestToSpeak c => c.userID
  | .approveSpeakerRequest c => c.actorUserID
  | .declineSpeakerRequest c => c.actorUserID
  | .createSpeakerSession c => c.userID
  | .revokeSpeaker c => c.actorUserID
  | .blockSpeaking c => c.actorUserID
  | .unblockSpeaking c => c.actorUserID
  | .removeParticipant c => c.actorUserID
  | .startRecording c => c.actorUserID
  | .stopRecording c => c.actorUserID
  | .generateReport c => c.actorUserID
  | .recordingPlaybackURL _ _ actorUserID => actorUserID
  | .realtimeConnectionToken userID => userID
  | .realtimeSubscriptionToken userID _ => userID
  | _ => ""

/-- The record the payload carries was saved. -/
def Payload.Saved (h : List VoiceExchange) : Payload → Prop
  | .room r => ⟨.store (.saveRoom r), .ok ()⟩ ∈ h
  | .listenerSession s => ⟨.store (.saveListenerSession s), .ok ()⟩ ∈ h
  | .speakerRequest r => ⟨.store (.saveSpeakerRequest r), .ok ()⟩ ∈ h
  | .speakingBlock b => ⟨.store (.saveSpeakingBlock b), .ok ()⟩ ∈ h
  | .recording r => ⟨.store (.saveRecording r), .ok ()⟩ ∈ h
  | .report r => ⟨.store (.saveReport r), .ok ()⟩ ∈ h
  | .target _ => True

/-! ## What the commands log -/

/-- The command has read the room under `roomID` and found its actor among those
who moderate it. -/
def CheckedIn (h : List VoiceExchange) (roomID actorUserID roomID' : String) : Prop :=
  ∃ room, ⟨.store (.getRoom roomID), .ok room⟩ ∈ h ∧ room.Moderates actorUserID ∧
    room.id = roomID'

theorem CheckedIn.mono {h h' : List VoiceExchange} {roomID actorUserID roomID' : String}
    (hc : CheckedIn h roomID actorUserID roomID') (hh : h ⊆ h') :
    CheckedIn h' roomID actorUserID roomID' := by
  obtain ⟨room, hread, hm, hid⟩ := hc
  exact ⟨room, hh hread, hm, hid⟩

theorem Payload.Saved.mono {h h' : List VoiceExchange} {payload : Payload}
    (hs : payload.Saved h) (hh : h ⊆ h') : payload.Saved h' := by
  cases payload with
  | target t => trivial
  | _ => exact hh hs

/-- The notices a command gives, from what it has exchanged. -/
def Notifies (h : List VoiceExchange) (n : Notice) : Command → Prop
  | .createRoom c => ∃ room : Room, room.status = .draft ∧ room.ownerID = c.ownerID ∧
      n = ⟨eventRoomCreated, room.id, c.ownerID, "", .room room⟩
  | .startRoom c => ∃ room : Room, CheckedIn h c.roomID c.actorUserID room.id ∧
      room.status = .live ∧ n = ⟨eventRoomStarted, room.id, c.actorUserID, "", .room room⟩
  | .finishRoom c => ∃ room : Room, CheckedIn h c.roomID c.actorUserID room.id ∧
      room.status = .finished ∧
      n = ⟨eventRoomFinished, room.id, c.actorUserID, "", .room room⟩
  | .joinRoom c => ∃ session : ListenerSession, session.userID = c.userID ∧
      session.status = .active ∧
      n = ⟨eventListenerSessionStarted, session.roomID, c.userID, "", .listenerSession session⟩
  | .listenerHeartbeat c => ∃ session : ListenerSession, session.userID = c.userID ∧
      session.status = .active ∧
      n = ⟨eventListenerHeartbeatReceived, session.roomID, c.userID, "", .listenerSession session⟩
  | .leaveListener c => ∃ session : ListenerSession, session.userID = c.userID ∧
      session.status = .left ∧
      n = ⟨eventListenerSessionLeft, session.roomID, c.userID, "", .listenerSession session⟩
  | .expireStaleListenerSessions _ _ _ => ∃ session : ListenerSession, session.status = .expired ∧
      n = ⟨eventListenerSessionExpired, session.roomID, "", session.userID,
        .listenerSession session⟩
  | .requestToSpeak c => ∃ request : SpeakerRequest, request.userID = c.userID ∧
      request.status = .pending ∧
      n = ⟨eventSpeakerRequested, request.roomID, c.userID, c.userID, .speakerRequest request⟩
  | .approveSpeakerRequest c => ∃ request : SpeakerRequest,
      CheckedIn h c.roomID c.actorUserID request.roomID ∧
      request.decidedBy = c.actorUserID ∧ request.status = .approved ∧
      n = ⟨eventSpeakerApproved, request.roomID, c.actorUserID, request.userID,
        .speakerRequest request⟩
  | .declineSpeakerRequest c => ∃ request : SpeakerRequest,
      CheckedIn h c.roomID c.actorUserID request.roomID ∧
      request.decidedBy = c.actorUserID ∧ request.status = .declined ∧
      n = ⟨eventSpeakerDeclined, request.roomID, c.actorUserID, request.userID,
        .speakerRequest request⟩
  | .revokeSpeaker c => ∃ roomID, CheckedIn h c.roomID c.actorUserID roomID ∧
      n = ⟨eventSpeakerRevoked, roomID, c.actorUserID, c.targetUserID,
        .target ⟨roomID, c.targetUserID, c.reason⟩⟩
  | .removeParticipant c => ∃ roomID, CheckedIn h c.roomID c.actorUserID roomID ∧
      n = ⟨eventModerationUserRemoved, roomID, c.actorUserID, c.targetUserID,
        .target ⟨roomID, c.targetUserID, c.reason⟩⟩
  | .blockSpeaking c => ∃ block : SpeakingBlock,
      CheckedIn h c.roomID c.actorUserID block.roomID ∧
      block.userID = c.targetUserID ∧ block.unblockedAt = none ∧ block.blockedBy = c.actorUserID ∧
      n = ⟨eventSpeakerBlocked, block.roomID, c.actorUserID, c.targetUserID, .speakingBlock block⟩
  | .unblockSpeaking c => ∃ (t : Time) (room : Room) (block₀ : SpeakingBlock),
      CheckedIn h c.roomID c.actorUserID room.id ∧
      ⟨.store (.getActiveSpeakingBlock room.id c.targetUserID), .ok block₀⟩ ∈ h ∧
      n = ⟨eventSpeakerUnblocked, room.id, c.actorUserID, c.targetUserID,
        .speakingBlock (liftedBlock block₀ c t)⟩
  | .startRecording c => ∃ recording : RoomRecording,
      CheckedIn h c.roomID c.actorUserID recording.roomID ∧ recording.status = .started ∧
      n = ⟨eventRecordingStarted, recording.roomID, c.actorUserID, "", .recording recording⟩
  | .stopRecording c => ∃ recording : RoomRecording,
      CheckedIn h c.roomID c.actorUserID recording.roomID ∧ recording.status = .completed ∧
      n = ⟨eventRecordingCompleted, recording.roomID, c.actorUserID, "", .recording recording⟩
  | .generateReport c => ∃ report : RoomReport,
      CheckedIn h c.roomID c.actorUserID report.roomID ∧
      n = ⟨eventReportCompleted, report.roomID, c.actorUserID, "", .report report⟩
  | _ => False

/-- A notice names the actor of its command. -/
theorem Notifies.actor {h : List VoiceExchange} {n : Notice} {cmd : Command}
    (hn : Notifies h n cmd) : n.actorUserID = cmd.actor := by
  cases cmd with
  | createRoom | startRoom | finishRoom | joinRoom | listenerHeartbeat | leaveListener
  | requestToSpeak | startRecording | stopRecording => obtain ⟨_, -, -, rfl⟩ := hn; rfl
  | revokeSpeaker | removeParticipant | generateReport | expireStaleListenerSessions =>
    obtain ⟨_, -, rfl⟩ := hn; rfl
  | approveSpeakerRequest | declineSpeakerRequest => obtain ⟨_, -, -, -, rfl⟩ := hn; rfl
  | blockSpeaking => obtain ⟨_, -, -, -, -, rfl⟩ := hn; rfl
  | unblockSpeaking => obtain ⟨_, _, _, -, -, rfl⟩ := hn; rfl
  | _ => exact hn.elim

/-- The commands that log nothing: those that read, and those for tokens. -/
def Command.Silent : Command → Prop
  | .getRoom _ | .activeCounts _ | .listenerStream _ | .listRecordings _ | .getReport _ => True
  | .recordingPlaybackURL _ _ _ => True
  | .realtimeConnectionToken _ | .realtimeSubscriptionToken _ _ => True
  | _ => False

theorem Notifies.not_silent {h : List VoiceExchange} {n : Notice} {cmd : Command}
    (hn : Notifies h n cmd) : ¬ cmd.Silent := by
  cases cmd with
  | getRoom | activeCounts | listenerStream | listRecordings | getReport | recordingPlaybackURL
  | realtimeConnectionToken | realtimeSubscriptionToken => exact hn.elim
  | _ => exact id

theorem Notifies.mono {h h' : List VoiceExchange} {n : Notice} {cmd : Command}
    (hn : Notifies h n cmd) (hh : h ⊆ h') : Notifies h' n cmd := by
  cases cmd with
  | startRoom | finishRoom | approveSpeakerRequest | declineSpeakerRequest | revokeSpeaker
  | removeParticipant | blockSpeaking | startRecording | stopRecording | generateReport =>
    obtain ⟨x, hc, hn⟩ := hn
    exact ⟨x, hc.mono hh, hn⟩
  | unblockSpeaking c =>
    obtain ⟨t, room, block₀, hc, hread, hn⟩ := hn
    exact ⟨t, room, block₀, hc.mono hh, hh hread, hn⟩
  | _ => exact hn

/-- The command signs the URL of a recording of the room it has read. -/
def SignsURL (s : Service) (h : List VoiceExchange) (object : StorageObject) (ttl : Duration) :
    Command → Prop
  | .recordingPlaybackURL roomID recordingID actorUserID => ∃ recording : RoomRecording,
      CheckedIn h roomID actorUserID recording.roomID ∧
      ⟨.store (.getRecording recordingID), .ok recording⟩ ∈ h ∧ object = recording.storage ∧
      ttl = s.cfg.s3PresignedURLTTL
  | _ => False

/-- The protocol of a command for the log and what goes with it: the record,
then the event, then the bus. -/
def Attests (s : Service) (cmd : Command) (h : List VoiceExchange) : Effect → Prop
  | .store (.appendEvent event) => ∃ n t id h₀,
      h = ⟨.now, t⟩ :: ⟨.newID prefixEvent, id⟩ :: h₀ ∧ n.payload.Saved h₀ ∧ Notifies h₀ n cmd ∧
      event = n.event cmd.correlationID id t
  | .publish event => ∃ h₀, h = ⟨.store (.appendEvent event), .ok ()⟩ :: h₀
  | .playbackURL object ttl => SignsURL s h object ttl cmd
  | .store (.saveRecording recording) => ∃ roomID actorUserID,
      moderation cmd = some (roomID, actorUserID) ∧
      CheckedIn h roomID actorUserID recording.roomID
  | .store (.saveReport report) => (∃ c, cmd = .generateReport c) ∧ ∃ t h₀,
      h = ⟨.now, t⟩ :: ⟨.newID prefixReport, report.id⟩ :: h₀
  | .presence c => ∀ ttl ∈ Redis.ttl c, ttl = s.cfg.listenerSessionTimeout
  | _ => True

section Shared

variable {α : Type} {s : Service} {cmd : Command} {h : List VoiceExchange}
  {Q : List VoiceExchange → Except AppError α → Prop} {f : Unit → Action α}

theorem attests_publish (n : Notice) (hsaved : n.payload.Saved h) (hn : Notifies h n cmd)
    (hQ : ∀ h e, Q h (.error e))
    (hf : ∀ h', h ⊆ h' → Follows (S := effects) (Attests s cmd) Q h' (f ())) :
    Follows (S := effects) (Attests s cmd) Q h ((publish n.eventType n.roomID n.actorUserID
      n.targetUserID cmd.correlationID n.payload).bind f) := by
  simp only [publish, bind_eq, bind_assoc, follows_fresh, follows_now, follows_store, follows_ask,
    follows_ofExcept, Attests, true_and, hQ, implies_true, and_true]
  intro id t
  refine ⟨⟨n, t, id, h, rfl, hsaved, hn, rfl⟩, fun _ => ⟨⟨_, rfl⟩, fun a u _ => ?_⟩⟩
  exact hf _ fun x hx => by simp [hx]

theorem attests_presenceDo {c : PresenceCall}
    (httl : ∀ ttl ∈ Redis.ttl c, ttl = s.cfg.listenerSessionTimeout)
    (hQ : ∀ h e, Q h (.error e))
    (hf : ∀ h', h ⊆ h' → Follows (S := effects) (Attests s cmd) Q h' (f ())) :
    Follows (S := effects) (Attests s cmd) Q h ((s.presenceDo c).bind f) := by
  rw [presenceDo]
  split
  · simp only [present, bind_eq, pure_eq, bind_assoc, ret_bind, follows_ask, follows_ofExcept,
      Attests, hQ, implies_true, and_true]
    exact ⟨httl, fun a x _ => hf _ fun x hx => by simp [hx]⟩
  · exact hf h (List.Subset.refl h)

theorem attests_enqueueBestEffort {jobType idempotencyKey : String} {payload : RoomJobPayload}
    (hf : ∀ h', h ⊆ h' → Follows (S := effects) (Attests s cmd) Q h' (f ())) :
    Follows (S := effects) (Attests s cmd) Q h
      ((s.enqueueBestEffort jobType idempotencyKey payload).bind f) := by
  rw [enqueueBestEffort]
  split
  · simp only [bind_eq, pure_eq, bind_assoc, ret_bind, follows_ask, Attests]
    exact ⟨trivial, fun a => hf _ fun x hx => by simp [hx]⟩
  · exact hf h (List.Subset.refl h)

/-- The steps `JoinRoom` and `CreateSpeakerSession` share. -/
theorem attests_speakerSession {room : Room} {userID : String} {role : RoomRole}
    {f : SpeakerMediaDescriptor → Reply} :
    Follows (S := effects) (Attests s cmd) anyResult h
      ((fresh prefixParticipant).bind fun id => Action.now.bind fun t =>
        (store (.saveParticipantSession (newParticipantSession room userID role id t))).bind
          fun _ => (s.presenceDo (.markParticipantActive room.id
              (newParticipantSession room userID role id t).id userID
              s.cfg.listenerSessionTimeout)).bind
            fun _ => (ask (.issueSpeakerToken ⟨room.liveKitRoomName, userID, role⟩)).bind
              fun a => (ofExcept a).bind fun d => ret (f d)) := by
  simp only [follows_fresh, follows_now, follows_store, Attests, true_and, implies_true, and_true]
  intro id t _
  refine attests_presenceDo (by simp [Redis.ttl]) (by simp) fun h' _ => ?_
  simp [follows_ask, follows_ofExcept, Attests]

end Shared

/-! ## The commands -/

theorem createRoom_attests (s : Service) (c : CreateRoomCommand) :
    Follows (S := effects) (Attests s (.createRoom c)) anyResult []
      (s.program (.createRoom c)) := by
  simp only [Service.program, createRoom, map_eq, bind_eq, bind_assoc, follows_store,
    follows_require, follows_now, follows_fresh, Attests, true_and, implies_true, and_true]
  intro _ t roomID streamID _
  let room := s.draftRoom c roomID streamID t
  exact attests_publish ⟨eventRoomCreated, room.id, c.ownerID, "", .room room⟩
    (by simp [Payload.Saved, room]) ⟨room, rfl, rfl, rfl⟩ (by simp) (by simp)

theorem startRoom_attests (s : Service) (c : StartRoomCommand) :
    Follows (S := effects) (Attests s (.startRoom c)) anyResult [] (s.program (.startRoom c)) := by
  simp only [Service.program, startRoom, map_eq, bind_eq, bind_assoc, follows_store,
    follows_require, follows_now, Attests, Room.canModerate_iff, true_and, implies_true, and_true]
  intro room hm _ t _
  exact attests_publish ⟨eventRoomStarted, room.id, c.actorUserID, "", .room (startedRoom room t)⟩
    (by simp [Payload.Saved]) ⟨startedRoom room t, ⟨room, by simp, hm, rfl⟩, rfl, rfl⟩ (by simp)
    (by simp)

theorem finishRoom_attests (s : Service) (c : FinishRoomCommand) :
    Follows (S := effects) (Attests s (.finishRoom c)) anyResult []
      (s.program (.finishRoom c)) := by
  simp only [Service.program, finishRoom, map_eq, bind_eq, bind_assoc, follows_store,
    follows_require, follows_now, Attests, Room.canModerate_iff, true_and, implies_true, and_true]
  intro room hm _ t _
  let finished := finishedRoom room c t
  refine attests_publish ⟨eventRoomFinished, room.id, c.actorUserID, "", .room finished⟩
    (by simp [Payload.Saved, finished]) ⟨finished, ⟨room, by simp, hm, rfl⟩, rfl, rfl⟩ (by simp)
    fun h₁ _ => ?_
  exact attests_enqueueBestEffort fun h₂ _ => attests_enqueueBestEffort (by simp)

theorem joinRoom_attests (s : Service) (c : JoinRoomCommand) :
    Follows (S := effects) (Attests s (.joinRoom c)) anyResult [] (s.program (.joinRoom c)) := by
  simp only [Service.program, joinRoom, map_eq, bind_eq, pure_eq, bind_assoc, follows_store,
    follows_require, Attests, true_and, implies_true, and_true]
  intro room _
  refine follows_resolveRole trivial (by simp) fun h role _ => ?_
  split
  · simp only [bind_assoc, ret_bind]
    exact attests_speakerSession
  · simp only [bind_assoc, ret_bind, follows_now, follows_fresh, follows_store, Attests, true_and,
      implies_true, and_true]
    intro t id _
    let session := newListenerSession room c.userID id t
    refine attests_presenceDo (by simp [Redis.ttl]) (by simp) fun h₁ hh₁ => ?_
    exact attests_publish
      ⟨eventListenerSessionStarted, room.id, c.userID, "", .listenerSession session⟩
      (hh₁ List.mem_cons_self) ⟨session, rfl, rfl, rfl⟩ (by simp) (by simp)

theorem createSpeakerSession_attests (s : Service) (c : CreateSpeakerSessionCommand) :
    Follows (S := effects) (Attests s (.createSpeakerSession c)) anyResult []
      (s.program (.createSpeakerSession c)) := by
  simp only [Service.program, createSpeakerSession, map_eq, bind_eq, pure_eq, bind_assoc, ret_bind,
    follows_store, follows_require, Attests, true_and, implies_true, and_true]
  intro room _
  refine follows_resolveRole trivial (by simp) fun h role _ => ?_
  rw [follows_require]
  exact ⟨fun _ => attests_speakerSession, by simp⟩

theorem listenerHeartbeat_attests (s : Service) (c : ListenerHeartbeatCommand) :
    Follows (S := effects) (Attests s (.listenerHeartbeat c)) anyResult []
      (s.program (.listenerHeartbeat c)) := by
  simp only [Service.program, listenerHeartbeat, map_eq, bind_eq, pure_eq, bind_assoc,
    follows_store, follows_require, follows_now, Attests, true_and, implies_true, and_true]
  intro session hown hactive t _
  simp only [Bool.and_eq_true, decide_eq_true_eq] at hown hactive
  let touched := touchedSession session t
  refine attests_presenceDo (by simp [Redis.ttl]) (by simp) fun h₁ hh₁ => ?_
  exact attests_publish
    ⟨eventListenerHeartbeatReceived, session.roomID, c.userID, "", .listenerSession touched⟩
    (hh₁ List.mem_cons_self) ⟨touched, hown.2, hactive, rfl⟩ (by simp) (by simp)

theorem leaveListener_attests (s : Service) (c : LeaveListenerCommand) :
    Follows (S := effects) (Attests s (.leaveListener c)) anyResult []
      (s.program (.leaveListener c)) := by
  simp only [Service.program, leaveListener, map_eq, bind_eq, pure_eq, bind_assoc, follows_store,
    follows_require, follows_now, Attests, true_and, implies_true, and_true]
  intro session hown t _
  simp only [Bool.and_eq_true, decide_eq_true_eq] at hown
  let ended := endedSession session .left (trimSpace c.leaveType) t
  refine attests_presenceDo (by simp [Redis.ttl]) (by simp) fun h₁ hh₁ => ?_
  exact attests_publish
    ⟨eventListenerSessionLeft, session.roomID, c.userID, "", .listenerSession ended⟩
    (hh₁ List.mem_cons_self) ⟨ended, hown.2, rfl, rfl⟩ (by simp) (by simp)

theorem requestToSpeak_attests (s : Service) (c : RequestToSpeakCommand) :
    Follows (S := effects) (Attests s (.requestToSpeak c)) anyResult []
      (s.program (.requestToSpeak c)) := by
  simp only [Service.program, requestToSpeak, map_eq, bind_eq, pure_eq, bind_assoc, follows_store,
    follows_require, follows_ask, Attests, true_and, implies_true, and_true]
  rintro room _ (e | block)
  · by_cases he : e = .speakingBlockNotFound
    · subst he
      simp only [bind_assoc, follows_ask, Attests, true_and]
      rintro (e | request)
      · by_cases he : e = .speakerRequestNotFound
        · subst he
          simp only [bind_assoc, follows_fresh, follows_now, follows_store, Attests, true_and,
            implies_true, and_true]
          intro id t _
          let request := pendingRequest room c.userID id t
          exact attests_publish
            ⟨eventSpeakerRequested, room.id, c.userID, c.userID, .speakerRequest request⟩
            (by simp [Payload.Saved, request]) ⟨request, rfl, rfl, rfl⟩ (by simp) (by simp)
        · split
          · trivial
          · cases ‹Except.error e = _›; exact absurd rfl he
          · trivial
      · trivial
    · split
      · trivial
      · cases ‹Except.error e = _›; exact absurd rfl he
      · trivial
  · trivial

/-- Both decisions on a speaker request. -/
theorem decideSpeakerRequest_attests {s : Service} {cmd : Command} {c : DecideSpeakerRequestCommand}
    {status : SpeakerRequestStatus} {eventType : String}
    (hcorr : cmd.correlationID = c.correlationID)
    (hcmd : ∀ h request, CheckedIn h c.roomID c.actorUserID request.roomID →
      request.decidedBy = c.actorUserID → request.status = status →
      Notifies h ⟨eventType, request.roomID, c.actorUserID, request.userID,
        .speakerRequest request⟩ cmd) :
    Follows (S := effects) (Attests s cmd) anyResult []
      (Reply.speakerRequest <$> decideSpeakerRequest c status eventType) := by
  simp only [decideSpeakerRequest, map_eq, bind_eq, pure_eq, bind_assoc, follows_store,
    follows_require, follows_now, Attests, Room.canModerate_iff, true_and, implies_true, and_true]
  intro room hm request hr t _
  simp only [Bool.and_eq_true, decide_eq_true_eq] at hr
  let decided := decidedRequest request c status t
  have hroom : decided.roomID = room.id := hr.1
  rw [← hcorr, ← hroom]
  exact attests_publish ⟨eventType, decided.roomID, c.actorUserID, decided.userID,
      .speakerRequest decided⟩ (by simp [Payload.Saved, decided])
    (hcmd _ decided ⟨room, by simp, hm, hroom.symm⟩ rfl rfl) (by simp) (by simp)

theorem blockSpeaking_attests (s : Service) (c : SpeakingBlockCommand) :
    Follows (S := effects) (Attests s (.blockSpeaking c)) anyResult []
      (s.program (.blockSpeaking c)) := by
  simp only [Service.program, blockSpeaking, map_eq, bind_eq, pure_eq, bind_assoc, follows_store,
    follows_require, follows_ask, Attests, Room.canModerate_iff, true_and, implies_true, and_true]
  rintro room hm (e | block)
  · by_cases he : e = .speakingBlockNotFound
    · subst he
      simp only [bind_assoc, follows_fresh, follows_now, follows_store, Attests, true_and,
        implies_true, and_true]
      intro id t _
      let block := newBlock room c id t
      exact attests_publish
        ⟨eventSpeakerBlocked, room.id, c.actorUserID, c.targetUserID, .speakingBlock block⟩
        (by simp [Payload.Saved, block])
        ⟨block, ⟨room, by simp, hm, rfl⟩, rfl, rfl, rfl, rfl⟩ (by simp) (by simp)
    · split
      · trivial
      · cases ‹Except.error e = _›; exact absurd rfl he
      · trivial
  · trivial

theorem unblockSpeaking_attests (s : Service) (c : SpeakingBlockCommand) :
    Follows (S := effects) (Attests s (.unblockSpeaking c)) anyResult []
      (s.program (.unblockSpeaking c)) := by
  simp only [Service.program, unblockSpeaking, map_eq, bind_eq, pure_eq, bind_assoc, follows_store,
    follows_require, follows_now, Attests, Room.canModerate_iff, true_and, implies_true, and_true]
  intro room hm block t _
  exact attests_publish ⟨eventSpeakerUnblocked, room.id, c.actorUserID, c.targetUserID,
      .speakingBlock (liftedBlock block c t)⟩ (by simp [Payload.Saved])
    ⟨t, room, block, ⟨room, by simp, hm, rfl⟩, by simp, rfl⟩ (by simp) (by simp)

theorem revokeSpeaker_attests (s : Service) (c : RevokeSpeakerCommand) :
    Follows (S := effects) (Attests s (.revokeSpeaker c)) anyResult []
      (s.program (.revokeSpeaker c)) := by
  simp only [Service.program, revokeSpeaker, map_eq, bind_eq, bind_assoc, follows_store,
    follows_require, Attests, Room.canModerate_iff, true_and, implies_true, and_true]
  intro room hm
  exact attests_publish ⟨eventSpeakerRevoked, room.id, c.actorUserID, c.targetUserID,
      .target ⟨room.id, c.targetUserID, c.reason⟩⟩ trivial
    ⟨room.id, ⟨room, by simp, hm, rfl⟩, rfl⟩ (by simp) (by simp)

theorem removeParticipant_attests (s : Service) (c : RemoveParticipantCommand) :
    Follows (S := effects) (Attests s (.removeParticipant c)) anyResult []
      (s.program (.removeParticipant c)) := by
  simp only [Service.program, removeParticipant, map_eq, bind_eq, bind_assoc, follows_store,
    follows_require, follows_now, Attests, Room.canModerate_iff, true_and, implies_true, and_true]
  intro room hm sessions t
  refine follows_rounds ?_ fun h' hh' => ?_
  · intro session _ h' _
    simp only [follows_store, Attests, true_and]
    refine ⟨fun _ => ?_, by simp⟩
    rw [← bind_ret (s.presenceDo _)]
    exact attests_presenceDo (by simp [Redis.ttl]) (by simp)
      fun h'' hh' _ _ x hx => hh' (by simp [hx])
  · exact attests_publish ⟨eventModerationUserRemoved, room.id, c.actorUserID, c.targetUserID,
        .target ⟨room.id, c.targetUserID, c.reason⟩⟩ trivial
      ⟨room.id, ⟨room, hh' (by simp), hm, rfl⟩, rfl⟩ (by simp) (by simp)

theorem startRecording_attests (s : Service) (c : StartRecordingCommand) :
    Follows (S := effects) (Attests s (.startRecording c)) anyResult []
      (s.program (.startRecording c)) := by
  simp only [Service.program, startRecording, map_eq, bind_eq, bind_assoc, follows_store,
    follows_fresh, follows_require, follows_now, Attests, Room.canModerate_iff, true_and,
    implies_true, and_true]
  intro _ room hm _ t id
  let recording := s.startedRecording room id t
  refine ⟨⟨c.roomID, c.actorUserID, rfl, room, by simp, hm, rfl⟩, fun _ _ => ?_⟩
  exact attests_publish
    ⟨eventRecordingStarted, room.id, c.actorUserID, "", .recording recording⟩
    (by simp [Payload.Saved, recording]) ⟨recording, ⟨room, by simp, hm, rfl⟩, rfl, rfl⟩ (by simp)
    (by simp)

theorem stopRecording_attests (s : Service) (c : StopRecordingCommand) :
    Follows (S := effects) (Attests s (.stopRecording c)) anyResult []
      (s.program (.stopRecording c)) := by
  simp only [Service.program, stopRecording, map_eq, bind_eq, bind_assoc, follows_store,
    follows_require, follows_now, Attests, Room.canModerate_iff, true_and, implies_true, and_true]
  intro room hm recording hr t
  let completed := s.completedRecording recording t
  have hroom : completed.roomID = room.id := of_decide_eq_true hr
  refine ⟨⟨c.roomID, c.actorUserID, rfl, room, by simp, hm, hroom.symm⟩, fun _ _ => ?_⟩
  change Follows (S := effects) _ _ _ ((publish eventRecordingCompleted room.id _ _ _ _).bind _)
  rw [← hroom]
  exact attests_publish
    ⟨eventRecordingCompleted, completed.roomID, c.actorUserID, "", .recording completed⟩
    (by simp [Payload.Saved, completed]) ⟨completed, ⟨room, by simp, hm, hroom.symm⟩, rfl, rfl⟩
    (by simp) (by simp)

theorem generateReport_attests (s : Service) (c : GenerateReportCommand) :
    Follows (S := effects) (Attests s (.generateReport c)) anyResult []
      (s.program (.generateReport c)) := by
  simp only [Service.program, generateReport, map_eq, bind_eq, bind_assoc, follows_store,
    follows_fresh, follows_require, follows_now, Attests, Room.canModerate_iff, true_and,
    implies_true, and_true]
  intro room hm stats id t
  let report := newReport room stats id t
  refine ⟨⟨⟨c, rfl⟩, t, _, rfl⟩, fun _ => ?_⟩
  exact attests_publish ⟨eventReportCompleted, room.id, c.actorUserID, "", .report report⟩
    (by simp [Payload.Saved, report]) ⟨report, ⟨room, by simp, hm, rfl⟩, rfl⟩ (by simp) (by simp)

theorem expireStaleListenerSessions_attests (s : Service) (cutoff : Time) (limit : Int)
    (correlationID : String) :
    Follows (S := effects) (Attests s (.expireStaleListenerSessions cutoff limit correlationID))
      anyResult [] (s.program (.expireStaleListenerSessions cutoff limit correlationID)) := by
  simp only [Service.program, expireStaleListenerSessions, map_eq, bind_eq, pure_eq, bind_assoc,
    follows_store, follows_now, Attests, true_and, implies_true, and_true]
  intro sessions t
  refine follows_rounds ?_ (by simp)
  intro session _ h' _
  let ended := endedSession session .expired "heartbeat_timeout" t
  simp only [follows_store, Attests, true_and]
  refine ⟨fun _ => ?_, by simp⟩
  refine attests_presenceDo (by simp [Redis.ttl]) (by simp) fun h₁ hh₁ => ?_
  rw [← bind_ret (publish _ _ _ _ _ _)]
  exact attests_publish ⟨eventListenerSessionExpired, session.roomID, "", session.userID,
      .listenerSession ended⟩ (hh₁ List.mem_cons_self) ⟨ended, rfl, rfl⟩ (by simp)
    fun h₂ hh₂ _ _ x hx => hh₂ (hh₁ (by simp [hx]))

theorem closeRoomSessions_attests (s : Service) (roomID : String) (endedAt : Time)
    (correlationID : String) :
    Follows (S := effects) (Attests s (.closeRoomSessions roomID endedAt correlationID)) anyResult
      [] (s.program (.closeRoomSessions roomID endedAt correlationID)) := by
  simp only [Service.program, closeRoomSessions, map_eq, bind_eq, bind_assoc, follows_store,
    Attests, true_and, implies_true, and_true]
  intro sessions
  refine follows_rounds ?_ (by simp)
  intro session _ h' _
  simp only [follows_store, Attests, true_and]
  refine ⟨fun _ => ?_, by simp⟩
  rw [← bind_ret (s.presenceDo _)]
  exact attests_presenceDo (by simp [Redis.ttl]) (by simp)
    fun h'' hh' _ _ x hx => hh' (by simp [hx])

theorem recordingPlaybackURL_attests (s : Service) (roomID recordingID actorUserID : String) :
    Follows (S := effects) (Attests s (.recordingPlaybackURL roomID recordingID actorUserID))
      anyResult [] (s.program (.recordingPlaybackURL roomID recordingID actorUserID)) := by
  simp only [Service.program, recordingPlaybackURL, map_eq, bind_eq, pure_eq, bind_assoc,
    follows_store, follows_require, Attests, Room.canModerate_iff, true_and, implies_true, and_true]
  intro room hm recording hr
  split
  · simp only [bind_assoc, follows_ask, follows_ofExcept, Attests]
    refine ⟨?_, fun _ => ⟨fun _ _ => trivial, fun _ _ => trivial⟩⟩
    exact ⟨recording, ⟨room, by simp, hm, (of_decide_eq_true hr).symm⟩, by simp, rfl, rfl⟩
  · trivial

theorem activeCounts_attests (s : Service) (roomID : String) :
    Follows (S := effects) (Attests s (.activeCounts roomID)) anyResult []
      (s.program (.activeCounts roomID)) := by
  simp only [Service.program, activeCounts, map_eq, bind_eq, pure_eq]
  cases s.hasPresence <;>
    simp [present, bind_assoc, follows_ask, follows_ofExcept, follows_store, Attests, Redis.ttl]

theorem realtimeSubscriptionToken_attests (s : Service) (userID channel : String) :
    Follows (S := effects) (Attests s (.realtimeSubscriptionToken userID channel)) anyResult []
      (s.program (.realtimeSubscriptionToken userID channel)) := by
  have htoken : ∀ h, Follows (S := effects) (Attests s (.realtimeSubscriptionToken userID channel))
      anyResult h ((ask (.subscriptionToken userID channel)).bind fun a =>
        (ofExcept a).bind fun token => ret (Reply.token ⟨channel, token⟩)) := by
    simp [follows_ask, follows_ofExcept, Attests]
  simp only [Service.program, realtimeSubscriptionToken, map_eq, bind_eq, pure_eq, bind_assoc,
    ret_bind, follows_require, authorizeChannel, implies_true, and_true]
  intro _
  split
  · simp [follows_require, htoken]
  split
  · split
    · trivial
    · simp only [bind_assoc, follows_store, Attests, implies_true, and_true, true_and]
      intro room
      refine follows_resolveRole trivial (by simp) fun h role _ => ?_
      simp [follows_require, htoken]
  split
  · exact htoken _
  · trivial

/-- **Every command keeps its third protocol**, whatever answers it gets. -/
theorem program_attests (s : Service) (cmd : Command) :
    Follows (S := effects) (Attests s cmd) anyResult [] (s.program cmd) := by
  cases cmd with
  | createRoom c => simp only [createRoom_attests]
  | startRoom c => exact startRoom_attests s c
  | finishRoom c => exact finishRoom_attests s c
  | joinRoom c => exact joinRoom_attests s c
  | listenerHeartbeat c => exact listenerHeartbeat_attests s c
  | leaveListener c => exact leaveListener_attests s c
  | requestToSpeak c => exact requestToSpeak_attests s c
  | approveSpeakerRequest c =>
    exact decideSpeakerRequest_attests rfl fun _ request hc hd hs => ⟨request, hc, hd, hs, rfl⟩
  | declineSpeakerRequest c =>
    exact decideSpeakerRequest_attests rfl fun _ request hc hd hs => ⟨request, hc, hd, hs, rfl⟩
  | createSpeakerSession c => exact createSpeakerSession_attests s c
  | revokeSpeaker c => exact revokeSpeaker_attests s c
  | blockSpeaking c => exact blockSpeaking_attests s c
  | unblockSpeaking c => exact unblockSpeaking_attests s c
  | removeParticipant c => exact removeParticipant_attests s c
  | startRecording c => exact startRecording_attests s c
  | stopRecording c => exact stopRecording_attests s c
  | generateReport c => exact generateReport_attests s c
  | expireStaleListenerSessions cutoff limit correlationID =>
    exact expireStaleListenerSessions_attests s cutoff limit correlationID
  | closeRoomSessions roomID endedAt correlationID =>
    exact closeRoomSessions_attests s roomID endedAt correlationID
  | recordingPlaybackURL roomID recordingID actorUserID =>
    exact recordingPlaybackURL_attests s roomID recordingID actorUserID
  | activeCounts roomID => exact activeCounts_attests s roomID
  | realtimeSubscriptionToken userID channel => simp only [realtimeSubscriptionToken_attests]
  | realtimeConnectionToken userID =>
    simp [Service.program, realtimeConnectionToken, bind_assoc, follows_require, follows_ask,
      follows_ofExcept, Attests]
  | getRoom | listenerStream | listRecordings | getRecording | getReport =>
    simp [Service.program, Service.getRoom, listenerStream, Service.listRecordings,
      Service.getRecording, Service.getReport, follows_store, Attests, bind_assoc]

theorem run_attests {s : Service} {I : Infra} {ms : List VoiceMove} {p : VoicePool}
    (h : (s.system I).run ms = some p) :
    Always (fun older e => Attests s e.cmd (threadHistory e.thread older) e.exchange.call)
      p.trace :=
  System.run_always (program_attests s) h

end WaveCast
