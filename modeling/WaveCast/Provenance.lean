import WaveCast.Authority

/-!
# Where everything a command writes comes from

A second protocol beside `Asks`: the participant sessions and recordings a
command saves, and the room that each of its events, reports and presence
entries is about (`program_accounts`). The room of an event is one its command
has read or created (`InRoom`).
-/

namespace WaveCast

open Interaction WaveCast.Action Program Service

/-- The room a command is addressed to. -/
def roomScope : Command → Option String
  | .startRoom c => some c.roomID
  | .finishRoom c => some c.roomID
  | .getRoom roomID => some roomID
  | .activeCounts roomID => some roomID
  | .joinRoom c => some c.roomID
  | .listenerHeartbeat c => some c.roomID
  | .leaveListener c => some c.roomID
  | .listenerStream roomID => some roomID
  | .requestToSpeak c => some c.roomID
  | .approveSpeakerRequest c => some c.roomID
  | .declineSpeakerRequest c => some c.roomID
  | .createSpeakerSession c => some c.roomID
  | .revokeSpeaker c => some c.roomID
  | .blockSpeaking c => some c.roomID
  | .unblockSpeaking c => some c.roomID
  | .removeParticipant c => some c.roomID
  | .startRecording c => some c.roomID
  | .stopRecording c => some c.roomID
  | .listRecordings roomID => some roomID
  | .recordingPlaybackURL roomID _ _ => some roomID
  | .generateReport c => some c.roomID
  | .getReport roomID => some roomID
  | .closeRoomSessions roomID _ _ => some roomID
  | _ => none

/-- `roomID` is the room of a session the command has read by its id. -/
def RoomOfSession (h : List VoiceExchange) (sessionID roomID roomID' : String) : Prop :=
  roomID' = roomID ∧ ∃ session,
    ⟨.store (.getListenerSession sessionID), .ok session⟩ ∈ h ∧ session.roomID = roomID

/-- `roomID'` is the id of a room the command has read under `roomID`. -/
def RoomRead (h : List VoiceExchange) (roomID roomID' : String) : Prop :=
  ∃ room, ⟨.store (.getRoom roomID), .ok room⟩ ∈ h ∧ roomID' = room.id

/-- A command may speak of the room, from what it has exchanged. -/
def InRoom (h : List VoiceExchange) (roomID : String) : Command → Prop
  | .createRoom _ => ⟨.newID prefixRoom, roomID⟩ ∈ h
  | .listenerHeartbeat c => RoomOfSession h c.sessionID c.roomID roomID
  | .leaveListener c => RoomOfSession h c.sessionID c.roomID roomID
  | .expireStaleListenerSessions cutoff limit _ => ∃ sessions session,
      ⟨.store (.listStaleListenerSessions cutoff (if limit ≤ 0 then 100 else limit)),
        .ok sessions⟩ ∈ h ∧ session ∈ sessions ∧ roomID = session.roomID
  | .closeRoomSessions roomID' _ _ => roomID = roomID' ∧ ∃ sessions session,
      ⟨.store (.listActiveListenerSessions roomID'), .ok sessions⟩ ∈ h ∧ session ∈ sessions
  | cmd => ∃ roomID', roomScope cmd = some roomID' ∧ RoomRead h roomID' roomID

theorem RoomRead.mono {h h' : List VoiceExchange} {roomID roomID' : String}
    (hr : RoomRead h roomID roomID') (hh : h ⊆ h') : RoomRead h' roomID roomID' := by
  obtain ⟨room, hread, hid⟩ := hr
  exact ⟨room, hh hread, hid⟩

theorem RoomOfSession.mono {h h' : List VoiceExchange} {sessionID roomID roomID' : String}
    (hr : RoomOfSession h sessionID roomID roomID') (hh : h ⊆ h') :
    RoomOfSession h' sessionID roomID roomID' := by
  obtain ⟨hid, session, hread, hs⟩ := hr
  exact ⟨hid, session, hh hread, hs⟩

theorem InRoom.mono {h h' : List VoiceExchange} {roomID : String} {cmd : Command}
    (hr : InRoom h roomID cmd) (hh : h ⊆ h') : InRoom h' roomID cmd := by
  cases cmd with
  | createRoom c => exact hh hr
  | listenerHeartbeat c => exact RoomOfSession.mono hr hh
  | leaveListener c => exact RoomOfSession.mono hr hh
  | expireStaleListenerSessions cutoff limit correlationID =>
    obtain ⟨sessions, session, hl, hs, hid⟩ := hr
    exact ⟨sessions, session, hh hl, hs, hid⟩
  | closeRoomSessions roomID' endedAt correlationID =>
    obtain ⟨hid, sessions, session, hl, hs⟩ := hr
    exact ⟨hid, sessions, session, hh hl, hs⟩
  | _ =>
    obtain ⟨roomID', hs, hr⟩ := hr
    exact ⟨roomID', hs, hr.mono hh⟩

/-- The participant session a call saved, under its id. -/
def savedParticipantSession : VoiceExchange → Option (String × ParticipantSession)
  | ⟨.store (.saveParticipantSession session), .ok _⟩ => some (session.id, session)
  | _ => none

def savedRecording : VoiceExchange → Option (String × RoomRecording)
  | ⟨.store (.saveRecording recording), .ok _⟩ => some (recording.id, recording)
  | _ => none

/-- The report a call saved, under its room. -/
def savedReport : VoiceExchange → Option (String × RoomReport)
  | ⟨.store (.saveReport report), .ok _⟩ => some (report.roomID, report)
  | _ => none

/-- A new participant session, from what was exchanged. -/
def NewParticipant (h : List VoiceExchange) (roomID userID : String)
    (session : ParticipantSession) : Prop :=
  ∃ t id role room, ⟨.newID prefixParticipant, id⟩ ∈ h ∧
    ⟨.store (.getRoom roomID), .ok room⟩ ∈ h ∧
    session = newParticipantSession room userID role id t ∧
    ∀ x ∈ h, savedParticipantSession x = none

def SavesParticipant (h : List VoiceExchange) (session : ParticipantSession) : Command → Prop
  | .joinRoom c => NewParticipant h c.roomID c.userID session
  | .createSpeakerSession c => NewParticipant h c.roomID c.userID session
  | _ => False

/-- The recording a command saves, from what it has exchanged. -/
def SavesRecording (s : Service) (h : List VoiceExchange) (recording : RoomRecording) :
    Command → Prop
  | .startRecording c => ∃ t id room,
      h = [⟨.newID prefixRecording, id⟩, ⟨.now, t⟩, ⟨.store (.getRoom c.roomID), .ok room⟩] ∧
      recording = s.startedRecording room id t
  | .stopRecording c => ∃ t room recording₀,
      h = [⟨.now, t⟩, ⟨.store (.getRecording c.recordingID), .ok recording₀⟩,
        ⟨.store (.getRoom c.roomID), .ok room⟩] ∧
      recording₀.roomID = room.id ∧ recording = s.completedRecording recording₀ t
  | _ => False

/-- The room whose entry in the presence store a call changes. -/
def PresenceCall.changedRoom : PresenceCall → Option String
  | .markListenerActive roomID _ _ _ => some roomID
  | .touchListener roomID _ _ => some roomID
  | .markListenerInactive roomID _ => some roomID
  | .markParticipantActive roomID _ _ _ => some roomID
  | .markParticipantInactive roomID _ => some roomID
  | .activeListenerCount _ => none
  | .activeParticipantCount _ => none

/-- The protocol of a command for what `Asks` leaves open. -/
def Accounts (s : Service) (cmd : Command) (h : List VoiceExchange) : Effect → Prop
  | .store (.saveParticipantSession session) => SavesParticipant h session cmd
  | .store (.saveRecording recording) => SavesRecording s h recording cmd
  | .store (.saveReport report) => InRoom h report.roomID cmd
  | .store (.appendEvent event) => InRoom h event.roomID cmd
  | .publish event => ⟨.store (.appendEvent event), .ok ()⟩ ∈ h ∧ InRoom h event.roomID cmd
  | .presence c => ∀ roomID, c.changedRoom = some roomID → InRoom h roomID cmd
  | _ => True

/-! ## The shared steps -/

section Shared

variable {α : Type} {s : Service} {cmd : Command} {h : List VoiceExchange}
  {Q : List VoiceExchange → Except AppError α → Prop} {f : Unit → Action α}

theorem accounts_publish {eventType roomID actorUserID targetUserID correlationID : String}
    {payload : Payload} (hroom : InRoom h roomID cmd) (hQ : ∀ h e, Q h (.error e))
    (hf : ∀ h', h ⊆ h' → Follows (S := effects) (Accounts s cmd) Q h' (f ())) :
    Follows (S := effects) (Accounts s cmd) Q h
      ((publish eventType roomID actorUserID targetUserID correlationID payload).bind f) := by
  simp only [publish, bind_eq, bind_assoc, follows_fresh, follows_now, follows_store, follows_ask,
    follows_ofExcept, Accounts, true_and, hQ, implies_true, and_true]
  intro id t
  refine ⟨hroom.mono fun x hx => by simp [hx], fun _ => ⟨⟨by simp, ?_⟩, fun a u _ => ?_⟩⟩
  · exact hroom.mono fun x hx => by simp [hx]
  exact hf _ fun x hx => by simp [hx]

theorem accounts_presenceDo {c : PresenceCall}
    (hroom : ∀ roomID, c.changedRoom = some roomID → InRoom h roomID cmd)
    (hQ : ∀ h e, Q h (.error e))
    (hf : ∀ h', h ⊆ h' → Follows (S := effects) (Accounts s cmd) Q h' (f ())) :
    Follows (S := effects) (Accounts s cmd) Q h ((s.presenceDo c).bind f) := by
  rw [presenceDo]
  split
  · simp only [present, bind_eq, pure_eq, bind_assoc, ret_bind, follows_ask,
      follows_ofExcept, Accounts, hQ, implies_true, and_true]
    exact ⟨hroom, fun a x _ => hf _ fun x hx => by simp [hx]⟩
  · exact hf h (List.Subset.refl h)

theorem accounts_enqueueBestEffort {jobType idempotencyKey : String} {payload : RoomJobPayload}
    (hf : ∀ h', h ⊆ h' → Follows (S := effects) (Accounts s cmd) Q h' (f ())) :
    Follows (S := effects) (Accounts s cmd) Q h
      ((s.enqueueBestEffort jobType idempotencyKey payload).bind f) := by
  rw [enqueueBestEffort]
  split
  · simp only [bind_eq, pure_eq, bind_assoc, ret_bind, follows_ask, Accounts]
    exact ⟨trivial, fun a => hf _ fun x hx => by simp [hx]⟩
  · exact hf h (List.Subset.refl h)

theorem RoleGrounds.subset {room : Room} {userID : String} {h' : List VoiceExchange}
    {role : RoomRole} (hg : RoleGrounds room userID h h' role) : h ⊆ h' := by
  cases role with
  | speaker =>
    obtain ⟨request, rfl⟩ := hg
    exact List.subset_cons_self _ _
  | listener =>
    cases hg
    exact List.subset_cons_self _ _
  | _ =>
    obtain ⟨-, rfl⟩ := hg
    exact List.Subset.refl _

/-- Resolving a role saves no participant session. -/
theorem RoleGrounds.no_participant {room : Room} {userID : String} {h' : List VoiceExchange}
    {role : RoomRole} (hg : RoleGrounds room userID h h' role)
    (hno : ∀ x ∈ h, savedParticipantSession x = none) :
    ∀ x ∈ h', savedParticipantSession x = none := by
  cases role with
  | speaker =>
    obtain ⟨request, rfl⟩ := hg
    simpa [savedParticipantSession] using hno
  | listener =>
    cases hg
    simpa [savedParticipantSession] using hno
  | _ =>
    obtain ⟨-, rfl⟩ := hg
    exact hno

/-- The steps `JoinRoom` and `CreateSpeakerSession` share. -/
theorem accounts_speakerSession {room : Room} {roomID userID : String} {role : RoomRole}
    {f : SpeakerMediaDescriptor → Reply} (hroom : InRoom h room.id cmd)
    (hnew : ∀ h' session, NewParticipant h' roomID userID session →
      SavesParticipant h' session cmd)
    (hread : ⟨.store (.getRoom roomID), .ok room⟩ ∈ h)
    (hno : ∀ x ∈ h, savedParticipantSession x = none) :
    Follows (S := effects) (Accounts s cmd) anyResult h
      ((fresh prefixParticipant).bind fun id => Action.now.bind fun t =>
        (store (.saveParticipantSession (newParticipantSession room userID role id t))).bind
          fun _ => (s.presenceDo (.markParticipantActive room.id
              (newParticipantSession room userID role id t).id userID
              s.cfg.listenerSessionTimeout)).bind
            fun _ => (ask (.issueSpeakerToken ⟨room.liveKitRoomName, userID, role⟩)).bind
              fun a => (ofExcept a).bind fun d => ret (f d)) := by
  simp only [follows_fresh, follows_now, follows_store, Accounts, true_and, implies_true,
    and_true]
  intro id t
  refine ⟨hnew _ _ ⟨t, id, role, room, by simp, by simp [hread], rfl, ?_⟩, fun _ => ?_⟩
  · simpa [savedParticipantSession] using hno
  · refine accounts_presenceDo ?_ (by simp) fun h' hh => ?_
    · rintro roomID hid
      cases hid
      exact hroom.mono fun x hx => by simp [hx]
    · simp [follows_ask, follows_ofExcept, Accounts]

end Shared

/-! ## The commands -/

theorem createRoom_accounts (s : Service) (c : CreateRoomCommand) :
    Follows (S := effects) (Accounts s (.createRoom c)) anyResult []
      (s.program (.createRoom c)) := by
  simp only [Service.program, createRoom, map_eq, bind_eq, bind_assoc, follows_store,
    follows_require, follows_now, follows_fresh, Accounts, true_and, implies_true, and_true]
  intro _ t roomID streamID _
  exact accounts_publish (by simp [InRoom, draftRoom]) (by simp) (by simp)

theorem startRoom_accounts (s : Service) (c : StartRoomCommand) :
    Follows (S := effects) (Accounts s (.startRoom c)) anyResult [] (s.program (.startRoom c)) := by
  simp only [Service.program, startRoom, map_eq, bind_eq, bind_assoc, follows_store,
    follows_require, follows_now, Accounts, true_and, implies_true, and_true]
  intro room _ _ t _
  exact accounts_publish ⟨c.roomID, rfl, room, by simp, rfl⟩ (by simp) (by simp)

theorem finishRoom_accounts (s : Service) (c : FinishRoomCommand) :
    Follows (S := effects) (Accounts s (.finishRoom c)) anyResult []
      (s.program (.finishRoom c)) := by
  simp only [Service.program, finishRoom, map_eq, bind_eq, bind_assoc, follows_store,
    follows_require, follows_now, Accounts, true_and, implies_true, and_true]
  intro room _ _ t _
  refine accounts_publish ⟨c.roomID, rfl, room, by simp, rfl⟩ (by simp) fun _ _ => ?_
  exact accounts_enqueueBestEffort fun _ _ => accounts_enqueueBestEffort (by simp)

theorem joinRoom_accounts (s : Service) (c : JoinRoomCommand) :
    Follows (S := effects) (Accounts s (.joinRoom c)) anyResult [] (s.program (.joinRoom c)) := by
  simp only [Service.program, joinRoom, map_eq, bind_eq, pure_eq, bind_assoc, follows_store,
    follows_require, Accounts, true_and, implies_true, and_true]
  intro room _
  refine follows_resolveRole trivial (by simp) fun h role hrole => ?_
  have hread : ⟨.store (.getRoom c.roomID), .ok room⟩ ∈ h := hrole.subset (by simp)
  have hroom : InRoom h room.id (.joinRoom c) := ⟨c.roomID, rfl, room, hread, rfl⟩
  split
  · simp only [bind_assoc, ret_bind]
    exact accounts_speakerSession hroom (fun _ _ h => h) hread
      (hrole.no_participant (by simp [savedParticipantSession]))
  · simp only [bind_assoc, ret_bind, follows_now, follows_fresh, follows_store, Accounts, true_and,
      implies_true, and_true]
    intro t id _
    refine accounts_presenceDo ?_ (by simp) fun h' hh => ?_
    · rintro roomID hid
      cases hid
      exact hroom.mono fun x hx => by simp [hx]
    · exact accounts_publish (hroom.mono fun x hx => hh (by simp [hx])) (by simp) (by simp)

theorem createSpeakerSession_accounts (s : Service) (c : CreateSpeakerSessionCommand) :
    Follows (S := effects) (Accounts s (.createSpeakerSession c)) anyResult []
      (s.program (.createSpeakerSession c)) := by
  simp only [Service.program, createSpeakerSession, map_eq, bind_eq, pure_eq, bind_assoc, ret_bind,
    follows_store, follows_require, Accounts, true_and, implies_true, and_true]
  intro room _
  refine follows_resolveRole trivial (by simp) fun h role hrole => ?_
  rw [follows_require]
  refine ⟨fun _ => ?_, by simp⟩
  have hread : ⟨.store (.getRoom c.roomID), .ok room⟩ ∈ h := hrole.subset (by simp)
  exact accounts_speakerSession ⟨c.roomID, rfl, room, hread, rfl⟩ (fun _ _ h => h) hread
    (hrole.no_participant (by simp [savedParticipantSession]))

theorem listenerHeartbeat_accounts (s : Service) (c : ListenerHeartbeatCommand) :
    Follows (S := effects) (Accounts s (.listenerHeartbeat c)) anyResult []
      (s.program (.listenerHeartbeat c)) := by
  simp only [Service.program, listenerHeartbeat, map_eq, bind_eq, pure_eq, bind_assoc,
    follows_store, follows_require, follows_now, Accounts, true_and, implies_true, and_true]
  intro session hown _ t _
  simp only [Bool.and_eq_true, decide_eq_true_eq] at hown
  have hroom : ∀ h, ⟨.store (.getListenerSession c.sessionID), .ok session⟩ ∈ h →
      InRoom h (touchedSession session t).roomID (.listenerHeartbeat c) :=
    fun h hread => ⟨hown.1, session, hread, hown.1⟩
  refine accounts_presenceDo ?_ (by simp) fun h' hh => ?_
  · rintro roomID hid
    cases hid
    exact hroom _ (by simp)
  · exact accounts_publish (hroom h' (hh (by simp))) (by simp) (by simp)

theorem leaveListener_accounts (s : Service) (c : LeaveListenerCommand) :
    Follows (S := effects) (Accounts s (.leaveListener c)) anyResult []
      (s.program (.leaveListener c)) := by
  simp only [Service.program, leaveListener, map_eq, bind_eq, pure_eq, bind_assoc, follows_store,
    follows_require, follows_now, Accounts, true_and, implies_true, and_true]
  intro session hown t _
  simp only [Bool.and_eq_true, decide_eq_true_eq] at hown
  have hroom : ∀ h, ⟨.store (.getListenerSession c.sessionID), .ok session⟩ ∈ h →
      InRoom h session.roomID (.leaveListener c) :=
    fun h hread => ⟨hown.1, session, hread, hown.1⟩
  refine accounts_presenceDo ?_ (by simp) fun h' hh => ?_
  · rintro roomID hid
    cases hid
    exact hroom _ (by simp)
  · exact accounts_publish (hroom h' (hh (by simp))) (by simp) (by simp)

theorem requestToSpeak_accounts (s : Service) (c : RequestToSpeakCommand) :
    Follows (S := effects) (Accounts s (.requestToSpeak c)) anyResult []
      (s.program (.requestToSpeak c)) := by
  simp only [Service.program, requestToSpeak, map_eq, bind_eq, pure_eq, bind_assoc, follows_store,
    follows_require, follows_ask, Accounts, true_and, implies_true, and_true]
  intro room _ a
  split
  · trivial
  · simp only [bind_assoc, follows_ask, Accounts, true_and]
    intro a
    split
    · trivial
    · simp only [bind_assoc, follows_fresh, follows_now, follows_store, Accounts, true_and,
        implies_true, and_true]
      intro id t _
      exact accounts_publish ⟨c.roomID, rfl, room, by simp, rfl⟩ (by simp) (by simp)
    · trivial
  · trivial

/-- Both decisions on a speaker request. -/
theorem decideSpeakerRequest_accounts {s : Service} {cmd : Command}
    {c : DecideSpeakerRequestCommand} {status : SpeakerRequestStatus} {eventType : String}
    (hcmd : ∀ h roomID, RoomRead h c.roomID roomID → InRoom h roomID cmd) :
    Follows (S := effects) (Accounts s cmd) anyResult []
      (Reply.speakerRequest <$> decideSpeakerRequest c status eventType) := by
  simp only [decideSpeakerRequest, map_eq, bind_eq, pure_eq, bind_assoc, follows_store,
    follows_require, follows_now, Accounts, true_and, implies_true, and_true]
  intro room _ request _ t _
  exact accounts_publish (hcmd _ _ ⟨room, by simp, rfl⟩) (by simp) (by simp)

theorem revokeSpeaker_accounts (s : Service) (c : RevokeSpeakerCommand) :
    Follows (S := effects) (Accounts s (.revokeSpeaker c)) anyResult []
      (s.program (.revokeSpeaker c)) := by
  simp only [Service.program, revokeSpeaker, map_eq, bind_eq, bind_assoc, follows_store,
    follows_require, Accounts, true_and, implies_true, and_true]
  intro room _
  exact accounts_publish ⟨c.roomID, rfl, room, by simp, rfl⟩ (by simp) (by simp)

theorem blockSpeaking_accounts (s : Service) (c : SpeakingBlockCommand) :
    Follows (S := effects) (Accounts s (.blockSpeaking c)) anyResult []
      (s.program (.blockSpeaking c)) := by
  simp only [Service.program, blockSpeaking, map_eq, bind_eq, pure_eq, bind_assoc, follows_store,
    follows_require, follows_ask, Accounts, true_and, implies_true, and_true]
  intro room _ a
  split
  · trivial
  · simp only [bind_assoc, follows_fresh, follows_now, follows_store, Accounts, true_and,
      implies_true, and_true]
    intro id t _
    exact accounts_publish ⟨c.roomID, rfl, room, by simp, rfl⟩ (by simp) (by simp)
  · trivial

theorem unblockSpeaking_accounts (s : Service) (c : SpeakingBlockCommand) :
    Follows (S := effects) (Accounts s (.unblockSpeaking c)) anyResult []
      (s.program (.unblockSpeaking c)) := by
  simp only [Service.program, unblockSpeaking, map_eq, bind_eq, pure_eq, bind_assoc, follows_store,
    follows_require, follows_now, Accounts, true_and, implies_true, and_true]
  intro room _ block t _
  exact accounts_publish ⟨c.roomID, rfl, room, by simp, rfl⟩ (by simp) (by simp)

theorem removeParticipant_accounts (s : Service) (c : RemoveParticipantCommand) :
    Follows (S := effects) (Accounts s (.removeParticipant c)) anyResult []
      (s.program (.removeParticipant c)) := by
  simp only [Service.program, removeParticipant, map_eq, bind_eq, bind_assoc, follows_store,
    follows_require, follows_now, Accounts, true_and, implies_true, and_true]
  intro room _ sessions t
  have hroom : ∀ h, ⟨.store (.getRoom c.roomID), .ok room⟩ ∈ h →
      InRoom h room.id (.removeParticipant c) := fun h hread => ⟨c.roomID, rfl, room, hread, rfl⟩
  refine follows_rounds ?_ fun h' hh => ?_
  · intro session _ h' hh
    simp only [follows_store, Accounts, true_and]
    refine ⟨fun _ => ?_, by simp⟩
    rw [← bind_ret (s.presenceDo _)]
    refine accounts_presenceDo ?_ (by simp) fun h'' hh' _ _ x hx => hh' (by simp [hx])
    rintro roomID hid
    cases hid
    exact hroom _ (by simp [hh (show ⟨.store (.getRoom c.roomID), .ok room⟩ ∈ _ by simp)])
  · exact accounts_publish (hroom h' (hh (by simp))) (by simp) (by simp)

theorem startRecording_accounts (s : Service) (c : StartRecordingCommand) :
    Follows (S := effects) (Accounts s (.startRecording c)) anyResult []
      (s.program (.startRecording c)) := by
  simp only [Service.program, startRecording, map_eq, bind_eq, bind_assoc, follows_store,
    follows_fresh, follows_require, follows_now, Accounts, true_and, implies_true, and_true]
  intro _ room _ _ t id
  refine ⟨⟨t, id, room, rfl, rfl⟩, fun _ _ => ?_⟩
  exact accounts_publish ⟨c.roomID, rfl, room, by simp, rfl⟩ (by simp) (by simp)

theorem stopRecording_accounts (s : Service) (c : StopRecordingCommand) :
    Follows (S := effects) (Accounts s (.stopRecording c)) anyResult []
      (s.program (.stopRecording c)) := by
  simp only [Service.program, stopRecording, map_eq, bind_eq, bind_assoc, follows_store,
    follows_require, follows_now, Accounts, true_and, implies_true, and_true]
  intro room _ recording hr t
  refine ⟨⟨t, room, recording, rfl, by simpa using hr, rfl⟩, fun _ _ => ?_⟩
  exact accounts_publish ⟨c.roomID, rfl, room, by simp, rfl⟩ (by simp) (by simp)

theorem generateReport_accounts (s : Service) (c : GenerateReportCommand) :
    Follows (S := effects) (Accounts s (.generateReport c)) anyResult []
      (s.program (.generateReport c)) := by
  simp only [Service.program, generateReport, map_eq, bind_eq, bind_assoc, follows_store,
    follows_fresh, follows_require, follows_now, Accounts, true_and, implies_true, and_true]
  intro room _ stats id t
  refine ⟨⟨c.roomID, rfl, room, by simp, rfl⟩, fun _ => ?_⟩
  exact accounts_publish ⟨c.roomID, rfl, room, by simp, rfl⟩ (by simp) (by simp)

theorem expireStaleListenerSessions_accounts (s : Service) (cutoff : Time) (limit : Int)
    (correlationID : String) :
    Follows (S := effects) (Accounts s (.expireStaleListenerSessions cutoff limit correlationID))
      anyResult [] (s.program (.expireStaleListenerSessions cutoff limit correlationID)) := by
  simp only [Service.program, expireStaleListenerSessions, map_eq, bind_eq, pure_eq, bind_assoc,
    follows_store, follows_now, Accounts, true_and, implies_true, and_true]
  intro sessions t
  refine follows_rounds ?_ (by simp)
  intro session hs h' hh
  have hlist := hh (show ⟨.store (.listStaleListenerSessions cutoff
    (if limit ≤ 0 then 100 else limit)), .ok sessions⟩ ∈ _ by simp)
  have hroom : ∀ h, h' ⊆ h →
      InRoom h session.roomID (.expireStaleListenerSessions cutoff limit correlationID) :=
    fun h hsub => ⟨sessions, session, hsub hlist, hs, rfl⟩
  simp only [follows_store, Accounts, true_and]
  refine ⟨fun _ => accounts_presenceDo ?_ (by simp) fun h₁ hh₁ => ?_, by simp⟩
  · rintro roomID hid
    cases hid
    exact hroom _ fun x hx => by simp [hx]
  · rw [← bind_ret (publish _ _ _ _ _ _)]
    exact accounts_publish (hroom _ fun x hx => hh₁ (by simp [hx])) (by simp)
      fun h₂ hh₂ _ _ x hx => hh₂ (hh₁ (by simp [hx]))

theorem closeRoomSessions_accounts (s : Service) (roomID : String) (endedAt : Time)
    (correlationID : String) :
    Follows (S := effects) (Accounts s (.closeRoomSessions roomID endedAt correlationID))
      anyResult [] (s.program (.closeRoomSessions roomID endedAt correlationID)) := by
  simp only [Service.program, closeRoomSessions, map_eq, bind_eq, bind_assoc,
    follows_store, Accounts, true_and, implies_true, and_true]
  intro sessions
  refine follows_rounds ?_ (by simp)
  intro session hs h' hh
  simp only [follows_store, Accounts, true_and]
  refine ⟨fun _ => ?_, by simp⟩
  rw [← bind_ret (s.presenceDo _)]
  refine accounts_presenceDo ?_ (by simp) fun h'' hh' _ _ x hx => hh' (by simp [hx])
  rintro roomID' hid
  cases hid
  exact ⟨rfl, sessions, session, by simp [hh (show
    ⟨.store (.listActiveListenerSessions roomID), .ok sessions⟩ ∈ _ by simp)], hs⟩

theorem activeCounts_accounts (s : Service) (roomID : String) :
    Follows (S := effects) (Accounts s (.activeCounts roomID)) anyResult []
      (s.program (.activeCounts roomID)) := by
  simp only [Service.program, activeCounts, map_eq, bind_eq, pure_eq]
  cases s.hasPresence <;>
    simp [present, bind_assoc, follows_ask, follows_ofExcept, follows_store, Accounts,
      PresenceCall.changedRoom]

theorem recordingPlaybackURL_accounts (s : Service) (roomID recordingID actorUserID : String) :
    Follows (S := effects) (Accounts s (.recordingPlaybackURL roomID recordingID actorUserID))
      anyResult [] (s.program (.recordingPlaybackURL roomID recordingID actorUserID)) := by
  simp only [Service.program, recordingPlaybackURL, map_eq, bind_eq, pure_eq, bind_assoc,
    follows_store, follows_require, Accounts]
  cases s.hasSigner <;>
    simp [bind_assoc, follows_ask, follows_ofExcept, Accounts]

theorem realtimeSubscriptionToken_accounts (s : Service) (userID channel : String) :
    Follows (S := effects) (Accounts s (.realtimeSubscriptionToken userID channel)) anyResult []
      (s.program (.realtimeSubscriptionToken userID channel)) := by
  have htoken : ∀ h, Follows (S := effects)
      (Accounts s (.realtimeSubscriptionToken userID channel)) anyResult h
      ((ask (.subscriptionToken userID channel)).bind fun a =>
        (ofExcept a).bind fun token => ret (Reply.token ⟨channel, token⟩)) := by
    simp [follows_ask, follows_ofExcept, Accounts]
  simp only [Service.program, realtimeSubscriptionToken, map_eq, bind_eq, pure_eq, bind_assoc,
    ret_bind, follows_require, authorizeChannel, implies_true, and_true]
  intro _
  split
  · simp [follows_require, htoken]
  split
  · split
    · trivial
    · simp only [bind_assoc, follows_store, Accounts, implies_true, and_true, true_and]
      intro room
      refine follows_resolveRole trivial (by simp) fun h role _ => ?_
      simp [follows_require, htoken]
  split
  · exact htoken _
  · trivial

/-- **Every command accounts for what it writes**, whatever answers it gets. -/
theorem program_accounts (s : Service) (cmd : Command) :
    Follows (S := effects) (Accounts s cmd) anyResult [] (s.program cmd) := by
  cases cmd with
  | createRoom c => simp only [createRoom_accounts]
  | startRoom c => exact startRoom_accounts s c
  | finishRoom c => exact finishRoom_accounts s c
  | joinRoom c => exact joinRoom_accounts s c
  | listenerHeartbeat c => exact listenerHeartbeat_accounts s c
  | leaveListener c => exact leaveListener_accounts s c
  | requestToSpeak c => exact requestToSpeak_accounts s c
  | approveSpeakerRequest c => exact decideSpeakerRequest_accounts fun _ _ h => ⟨_, rfl, h⟩
  | declineSpeakerRequest c => exact decideSpeakerRequest_accounts fun _ _ h => ⟨_, rfl, h⟩
  | createSpeakerSession c => exact createSpeakerSession_accounts s c
  | revokeSpeaker c => exact revokeSpeaker_accounts s c
  | blockSpeaking c => exact blockSpeaking_accounts s c
  | unblockSpeaking c => exact unblockSpeaking_accounts s c
  | removeParticipant c => exact removeParticipant_accounts s c
  | startRecording c => exact startRecording_accounts s c
  | stopRecording c => exact stopRecording_accounts s c
  | recordingPlaybackURL roomID recordingID actorUserID =>
    exact recordingPlaybackURL_accounts s roomID recordingID actorUserID
  | generateReport c => exact generateReport_accounts s c
  | expireStaleListenerSessions cutoff limit correlationID =>
    exact expireStaleListenerSessions_accounts s cutoff limit correlationID
  | closeRoomSessions roomID endedAt correlationID =>
    exact closeRoomSessions_accounts s roomID endedAt correlationID
  | activeCounts roomID => exact activeCounts_accounts s roomID
  | realtimeSubscriptionToken userID channel => simp only [realtimeSubscriptionToken_accounts]
  | realtimeConnectionToken userID =>
    simp [Service.program, realtimeConnectionToken, bind_assoc, follows_require, follows_ask,
      follows_ofExcept, Accounts]
  | getRoom | listenerStream | listRecordings | getRecording | getReport =>
    simp [Service.program, Service.getRoom, listenerStream, Service.listRecordings,
      Service.getRecording, Service.getReport, follows_store, Accounts, bind_assoc]

theorem run_accounts {s : Service} {I : Infra} {ms : List VoiceMove} {p : VoicePool}
    (h : (s.system I).run ms = some p) :
    Always (fun older e => Accounts s e.cmd (threadHistory e.thread older) e.exchange.call)
      p.trace :=
  System.run_always (program_accounts s) h

end WaveCast
