import WaveCast.Runs

/-!
# What the commands ask for

For each kind of record, what a command has exchanged before it saves such a
record, and which record it saves. `program_asks` checks this for every
command, whatever answers it gets, so it holds in every interleaving
(`run_asks`).
-/

namespace WaveCast

open Interaction WaveCast.Action Program Service

/-- The room a command saves, from what it has exchanged. -/
def SavesRoom (s : Service) (h : List VoiceExchange) (room : Room) : Command → Prop
  | .createRoom c => trimSpace c.ownerID ≠ "" ∧ ∃ t roomID streamID,
      h = [⟨.newID prefixListenerStream, streamID⟩, ⟨.newID prefixRoom, roomID⟩, ⟨.now, t⟩] ∧
      room = s.draftRoom c roomID streamID t
  | .startRoom c => ∃ t room₀,
      h = [⟨.now, t⟩, ⟨.store (.getRoom c.roomID), .ok room₀⟩] ∧
      room₀.Moderates c.actorUserID ∧ (room₀.status = .draft ∨ room₀.status = .scheduled) ∧
      room = startedRoom room₀ t
  | .finishRoom c => ∃ t room₀,
      h = [⟨.now, t⟩, ⟨.store (.getRoom c.roomID), .ok room₀⟩] ∧
      room₀.Moderates c.actorUserID ∧ (room₀.status = .live ∨ room₀.status = .scheduled) ∧
      room = finishedRoom room₀ c t
  | .startRecording c => ∃ t recordingID room₀,
      h = [⟨.store (.saveRecording (s.startedRecording room₀ recordingID t)), .ok ()⟩,
        ⟨.newID prefixRecording, recordingID⟩, ⟨.now, t⟩,
        ⟨.store (.getRoom c.roomID), .ok room₀⟩] ∧
      room₀.Moderates c.actorUserID ∧ room₀.status = .live ∧
      room = withActiveRecording room₀ recordingID t
  | .stopRecording c => ∃ t recording room₀,
      h = [⟨.store (.saveRecording (s.completedRecording recording t)), .ok ()⟩, ⟨.now, t⟩,
        ⟨.store (.getRecording c.recordingID), .ok recording⟩,
        ⟨.store (.getRoom c.roomID), .ok room₀⟩] ∧
      room₀.Moderates c.actorUserID ∧ recording.roomID = room₀.id ∧
      room = withActiveRecording room₀ "" t
  | _ => False

/-- The listener session a command saves, from what it has exchanged. -/
def SavesListenerSession (h : List VoiceExchange) (session : ListenerSession) : Command → Prop
  | .joinRoom c => ∃ t sessionID room,
      h = [⟨.newID prefixListenerSession, sessionID⟩, ⟨.now, t⟩,
        ⟨.store (.findApprovedSpeakerRequest room.id c.userID), .error .speakerRequestNotFound⟩,
        ⟨.store (.getRoom c.roomID), .ok room⟩] ∧
      room.status = .live ∧ session = newListenerSession room c.userID sessionID t
  | .listenerHeartbeat c => ∃ t session₀,
      h = [⟨.now, t⟩, ⟨.store (.getListenerSession c.sessionID), .ok session₀⟩] ∧
      session₀.roomID = c.roomID ∧ session₀.userID = c.userID ∧ session₀.status = .active ∧
      session = touchedSession session₀ t
  | .leaveListener c => ∃ t session₀,
      h = [⟨.now, t⟩, ⟨.store (.getListenerSession c.sessionID), .ok session₀⟩] ∧
      session₀.roomID = c.roomID ∧ session₀.userID = c.userID ∧
      session = endedSession session₀ .left (trimSpace c.leaveType) t
  | .removeParticipant c => ∃ t room sessions session₀,
      ⟨.store (.getRoom c.roomID), .ok room⟩ ∈ h ∧ room.Moderates c.actorUserID ∧
      ⟨.store (.listActiveListenerSessionsByUser room.id c.targetUserID), .ok sessions⟩ ∈ h ∧
      ⟨.now, t⟩ ∈ h ∧ session₀ ∈ sessions ∧ session = removedSession session₀ c t
  | .expireStaleListenerSessions cutoff limit _ => ∃ t sessions session₀,
      ⟨.store (.listStaleListenerSessions cutoff (if limit ≤ 0 then 100 else limit)),
        .ok sessions⟩ ∈ h ∧
      ⟨.now, t⟩ ∈ h ∧ session₀ ∈ sessions ∧
      session = endedSession session₀ .expired "heartbeat_timeout" t
  | .closeRoomSessions roomID endedAt _ => ∃ sessions session₀,
      ⟨.store (.listActiveListenerSessions roomID), .ok sessions⟩ ∈ h ∧ session₀ ∈ sessions ∧
      session = endedSession session₀ .left "room_finished" endedAt
  | _ => False

/-- A decision on a speaker request, from what was exchanged. -/
def Decides (h : List VoiceExchange) (request : SpeakerRequest)
    (c : DecideSpeakerRequestCommand) (status : SpeakerRequestStatus) : Prop :=
  ∃ t room request₀,
    h = [⟨.now, t⟩, ⟨.store (.getSpeakerRequest c.requestID), .ok request₀⟩,
      ⟨.store (.getRoom c.roomID), .ok room⟩] ∧
    room.Moderates c.actorUserID ∧ request₀.roomID = room.id ∧ request₀.status = .pending ∧
    request = decidedRequest request₀ c status t

/-- The speaker request a command saves, from what it has exchanged. -/
def SavesSpeakerRequest (h : List VoiceExchange) (request : SpeakerRequest) : Command → Prop
  | .requestToSpeak c => ∃ t requestID room,
      h = [⟨.now, t⟩, ⟨.newID prefixSpeakerRequest, requestID⟩,
        ⟨.store (.findPendingSpeakerRequest room.id c.userID), .error .speakerRequestNotFound⟩,
        ⟨.store (.getActiveSpeakingBlock room.id c.userID), .error .speakingBlockNotFound⟩,
        ⟨.store (.getRoom c.roomID), .ok room⟩] ∧
      room.status = .live ∧ request = pendingRequest room c.userID requestID t
  | .approveSpeakerRequest c => Decides h request c .approved
  | .declineSpeakerRequest c => Decides h request c .declined
  | _ => False

/-- The speaking block a command saves, from what it has exchanged. -/
def SavesSpeakingBlock (h : List VoiceExchange) (block : SpeakingBlock) : Command → Prop
  | .blockSpeaking c => ∃ t blockID room,
      h = [⟨.now, t⟩, ⟨.newID prefixSpeakingBlock, blockID⟩,
        ⟨.store (.getActiveSpeakingBlock room.id c.targetUserID), .error .speakingBlockNotFound⟩,
        ⟨.store (.getRoom c.roomID), .ok room⟩] ∧
      room.Moderates c.actorUserID ∧ block = newBlock room c blockID t
  | .unblockSpeaking c => ∃ t room block₀,
      h = [⟨.now, t⟩, ⟨.store (.getActiveSpeakingBlock room.id c.targetUserID), .ok block₀⟩,
        ⟨.store (.getRoom c.roomID), .ok room⟩] ∧
      room.Moderates c.actorUserID ∧ block = liftedBlock block₀ c t
  | _ => False

/-- The grounds on which a token is issued to a user of a room. -/
def TokenGrounds (h : List VoiceExchange) (roomID userID : String) (input : SpeakerTokenInput) :
    Prop :=
  ∃ room, ⟨.store (.getRoom roomID), .ok room⟩ ∈ h ∧ room.status = .live ∧
    input.roomName = room.liveKitRoomName ∧ input.identity = userID ∧
    (room.Moderates userID ∨
      ∃ request, ⟨.store (.findApprovedSpeakerRequest room.id userID), .ok request⟩ ∈ h)

/-- The token a command asks for, from what it has exchanged. -/
def IssuesToken (h : List VoiceExchange) (input : SpeakerTokenInput) : Command → Prop
  | .joinRoom c => TokenGrounds h c.roomID c.userID input
  | .createSpeakerSession c => TokenGrounds h c.roomID c.userID input
  | _ => False

/-- The jobs that clean up a finished room. -/
def closeSessionsJob (roomID actorUserID : String) : JobRequest :=
  ⟨jobCloseRoomSessions, closeSessionsKey roomID, ⟨roomID, actorUserID⟩⟩

def generateReportJob (roomID actorUserID : String) : JobRequest :=
  ⟨jobGenerateRoomReport, generateReportKey roomID, ⟨roomID, actorUserID⟩⟩

/-- The job a command enqueues, from what it has exchanged. -/
def EnqueuesJob (h : List VoiceExchange) (job : JobRequest) : Command → Prop
  | .finishRoom c => ∃ t room₀, ⟨.store (.getRoom c.roomID), .ok room₀⟩ ∈ h ∧
      (room₀.status = .live ∨ room₀.status = .scheduled) ∧
      ⟨.store (.saveRoom (finishedRoom room₀ c t)), .ok ()⟩ ∈ h ∧
      (job = closeSessionsJob room₀.id c.actorUserID ∨
        job = generateReportJob room₀.id c.actorUserID)
  | _ => False

/-- The protocol of a command. -/
def Asks (s : Service) (cmd : Command) (h : List VoiceExchange) : Effect → Prop
  | .store (.saveRoom room) => SavesRoom s h room cmd
  | .store (.saveListenerSession session) => SavesListenerSession h session cmd
  | .store (.saveSpeakerRequest request) => SavesSpeakerRequest h request cmd
  | .store (.saveSpeakingBlock block) => SavesSpeakingBlock h block cmd
  | .issueSpeakerToken input => IssuesToken h input cmd
  | .enqueue job => EnqueuesJob h job cmd
  | _ => True

/-! ## The shared steps -/

theorem forall_except {ε α : Type} {p : Except ε α → Prop} :
    (∀ a, p a) ↔ (∀ x, p (.ok x)) ∧ ∀ e, p (.error e) :=
  ⟨fun h => ⟨fun _ => h _, fun _ => h _⟩, fun h a => by cases a; exacts [h.2 _, h.1 _]⟩

section Steps

variable {α : Type} {P : List VoiceExchange → Effect → Prop}
  {Q : List VoiceExchange → Except AppError α → Prop} {h : List VoiceExchange}

theorem follows_now (f : Time → Action α) :
    Follows (S := effects) P Q h (Action.now.bind f) ↔
      P h .now ∧ ∀ t, Follows (S := effects) P Q (⟨.now, t⟩ :: h) (f t) := Iff.rfl

theorem follows_fresh (pfx : String) (f : String → Action α) :
    Follows (S := effects) P Q h ((fresh pfx).bind f) ↔
      P h (.newID pfx) ∧ ∀ id, Follows (S := effects) P Q (⟨.newID pfx, id⟩ :: h) (f id) := Iff.rfl

-- The answer types are left out of the index: they reduce once the call is known.
theorem follows_ask (e : Effect) (f : e.Answer → Action α) :
    Follows (S := effects) P Q h (Program.bind (α := no_index e.Answer) (ask e) f) ↔
      P h e ∧ ∀ a, Follows (S := effects) P Q (⟨e, a⟩ :: h) (f a) := Iff.rfl

theorem follows_store (c : StoreCall) (f : c.Result → Action α) :
    Follows (S := effects) P Q h (Program.bind (α := no_index c.Result) (store c) f) ↔
      P h (.store c) ∧
      (∀ x, Follows (S := effects) P Q (⟨.store c, .ok x⟩ :: h) (f x)) ∧
      ∀ e, Q (⟨.store c, .error e⟩ :: h) (.error e) := by
  simp only [store, ask, bind_assoc]
  exact and_congr_right fun _ => forall_except

theorem follows_publishCall (event : VoiceEvent) (f : Unit → Action α) :
    Follows (S := effects) P Q h (Program.bind (α := no_index Except AppError Unit)
      (ask (.publish event)) fun answer => (ofExcept answer).bind f) ↔
      P h (.publish event) ∧
      Follows (S := effects) P Q (⟨.publish event, .ok ()⟩ :: h) (f ()) ∧
      ∀ e, Q (⟨.publish event, .error e⟩ :: h) (.error e) := by
  rw [follows_ask]
  refine and_congr_right fun _ => forall_except.trans (and_congr_left fun _ => ?_)
  exact ⟨fun hf => hf (), fun hf _ => hf⟩

end Steps

/-- No demand on the result of a program. -/
abbrev anyResult {α : Type} (_ : List VoiceExchange) (_ : Except AppError α) : Prop := True

section Shared

variable {α : Type} {s : Service} {cmd : Command} {h : List VoiceExchange}
  {Q : List VoiceExchange → Except AppError α → Prop} {f : Unit → Action α}

theorem follows_publish {eventType roomID actorUserID targetUserID correlationID : String}
    {payload : Payload} (hQ : ∀ h e, Q h (.error e))
    (hf : ∀ h', h ⊆ h' → Follows (S := effects) (Asks s cmd) Q h' (f ())) :
    Follows (S := effects) (Asks s cmd) Q h
      ((publish eventType roomID actorUserID targetUserID correlationID payload).bind f) := by
  simp only [publish, bind_eq, bind_assoc, follows_fresh, follows_now, follows_store, follows_ask,
    follows_ofExcept, Asks, true_and, hQ, implies_true, and_true]
  intro id t _ a u _
  exact hf _ fun x hx => by simp [hx]

theorem follows_presenceDo {c : PresenceCall} (hQ : ∀ h e, Q h (.error e))
    (hf : ∀ h', h ⊆ h' → Follows (S := effects) (Asks s cmd) Q h' (f ())) :
    Follows (S := effects) (Asks s cmd) Q h ((s.presenceDo c).bind f) := by
  rw [presenceDo]
  split
  · simp only [present, bind_eq, pure_eq, bind_assoc, ret_bind, follows_ask,
      follows_ofExcept, Asks, true_and, hQ, implies_true, and_true]
    intro a x _
    exact hf _ fun x hx => by simp [hx]
  · exact hf h (List.Subset.refl h)

theorem follows_enqueueBestEffort {jobType idempotencyKey : String} {payload : RoomJobPayload}
    (hjob : EnqueuesJob h ⟨jobType, idempotencyKey, payload⟩ cmd)
    (hf : ∀ h', h ⊆ h' → Follows (S := effects) (Asks s cmd) Q h' (f ())) :
    Follows (S := effects) (Asks s cmd) Q h
      ((s.enqueueBestEffort jobType idempotencyKey payload).bind f) := by
  rw [enqueueBestEffort]
  split
  · simp only [bind_eq, pure_eq, bind_assoc, ret_bind, follows_ask, Asks]
    exact ⟨hjob, fun a => hf _ fun x hx => by simp [hx]⟩
  · exact hf h (List.Subset.refl h)

/-- What resolving a role exchanges: `h` before, `h'` after. -/
def RoleGrounds (room : Room) (userID : String) (h h' : List VoiceExchange) : RoomRole → Prop
  | .speaker => ∃ request,
      h' = ⟨.store (.findApprovedSpeakerRequest room.id userID), .ok request⟩ :: h
  | .listener => h' =
      ⟨.store (.findApprovedSpeakerRequest room.id userID), .error .speakerRequestNotFound⟩ :: h
  | _ => room.Moderates userID ∧ h' = h

theorem follows_resolveRole {P : List VoiceExchange → Effect → Prop} {room : Room}
    {userID : String} {f : RoomRole → Action α}
    (hP : P h (.store (.findApprovedSpeakerRequest room.id userID)))
    (hQ : ∀ h e, Q h (.error e))
    (hf : ∀ h' role, RoleGrounds room userID h h' role →
      Follows (S := effects) P Q h' (f role)) :
    Follows (S := effects) P Q h ((resolveRole room userID).bind f) := by
  rw [resolveRole]
  split
  · rename_i hr
    refine hf h _ ?_
    have hm := not_not.mp (mt (Room.resolveRole_eq_listener_iff room userID).mpr hr)
    have hs := room.resolveRole_ne_speaker userID
    cases hrole : room.resolveRole userID with
    | speaker => exact absurd hrole hs
    | listener => exact absurd hrole hr
    | _ => exact ⟨hm, rfl⟩
  · simp only [bind_eq, bind_assoc, follows_ask]
    refine ⟨hP, ?_⟩
    rintro (e | request)
    · split
      · cases ‹Except.error e = _›
      · cases ‹Except.error e = _›
        exact hf _ .listener rfl
      · exact hQ _ _
    · exact hf _ .speaker ⟨request, rfl⟩

theorem RoleGrounds.tokenGrounds {room : Room} {roomID userID : String}
    {h' : List VoiceExchange} {role : RoomRole} (hg : RoleGrounds room userID h h' role)
    (hu : roleUsesLiveKit role = true) (hread : ⟨.store (.getRoom roomID), .ok room⟩ ∈ h)
    (hlive : room.status = .live) :
    TokenGrounds h' roomID userID ⟨room.liveKitRoomName, userID, role⟩ := by
  cases role with
  | listener => cases hu
  | speaker =>
    obtain ⟨request, rfl⟩ := hg
    exact ⟨room, by simp [hread], hlive, rfl, rfl, .inr ⟨request, by simp⟩⟩
  | _ =>
    obtain ⟨hm, rfl⟩ := hg
    exact ⟨room, hread, hlive, rfl, rfl, .inl hm⟩

end Shared

/-! ## The commands -/

theorem startRoom_asks (s : Service) (c : StartRoomCommand) :
    Follows (S := effects) (Asks s (.startRoom c)) anyResult [] (s.program (.startRoom c)) := by
  simp only [Service.program, startRoom, map_eq, bind_eq, bind_assoc, follows_store,
    follows_require, follows_now, Asks, SavesRoom, Room.canModerate_iff, true_and, implies_true,
    and_true]
  intro room hm hs t
  refine ⟨⟨t, room, rfl, hm, by simpa using hs, rfl⟩, fun _ => follows_publish (by simp) ?_⟩
  simp

theorem createRoom_asks (s : Service) (c : CreateRoomCommand) :
    Follows (S := effects) (Asks s (.createRoom c)) anyResult [] (s.program (.createRoom c)) := by
  simp only [Service.program, createRoom, map_eq, bind_eq, bind_assoc, follows_store,
    follows_require, follows_now, follows_fresh, Asks, SavesRoom, true_and, implies_true, and_true]
  intro hc t roomID streamID
  simp only [ne_eq, Bool.and_eq_true, decide_eq_true_eq] at hc
  exact ⟨⟨hc.2, t, roomID, streamID, rfl, rfl⟩, fun _ => follows_publish (by simp) (by simp)⟩

theorem finishRoom_asks (s : Service) (c : FinishRoomCommand) :
    Follows (S := effects) (Asks s (.finishRoom c)) anyResult [] (s.program (.finishRoom c)) := by
  simp only [Service.program, finishRoom, map_eq, bind_eq, bind_assoc, follows_store,
    follows_require, follows_now, Asks, SavesRoom, Room.canModerate_iff, true_and, implies_true,
    and_true]
  intro room hm hs t
  have hs : room.status = .live ∨ room.status = .scheduled := by simpa using hs
  refine ⟨⟨t, room, rfl, hm, hs, rfl⟩, fun _ => follows_publish (by simp) fun h₁ hh₁ => ?_⟩
  have hread : ⟨.store (.getRoom c.roomID), .ok room⟩ ∈ h₁ := hh₁ (by simp)
  have hsave : ⟨.store (.saveRoom (finishedRoom room c t)), .ok ()⟩ ∈ h₁ := hh₁ (by simp)
  refine follows_enqueueBestEffort ⟨t, room, hread, hs, hsave, .inl rfl⟩ fun h₂ hh₂ => ?_
  exact follows_enqueueBestEffort ⟨t, room, hh₂ hread, hs, hh₂ hsave, .inr rfl⟩ (by simp)

theorem startRecording_asks (s : Service) (c : StartRecordingCommand) :
    Follows (S := effects) (Asks s (.startRecording c)) anyResult []
      (s.program (.startRecording c)) := by
  simp only [Service.program, startRecording, map_eq, bind_eq, bind_assoc, follows_store,
    follows_fresh, follows_require, follows_now, Asks, SavesRoom, Room.canModerate_iff, true_and,
    implies_true, and_true]
  intro _ room hm hs t id _
  exact ⟨⟨t, id, room, rfl, hm, by simpa using hs, rfl⟩,
    fun _ => follows_publish (by simp) (by simp)⟩

theorem stopRecording_asks (s : Service) (c : StopRecordingCommand) :
    Follows (S := effects) (Asks s (.stopRecording c)) anyResult []
      (s.program (.stopRecording c)) := by
  simp only [Service.program, stopRecording, map_eq, bind_eq, bind_assoc, follows_store,
    follows_require, follows_now, Asks, SavesRoom, Room.canModerate_iff, true_and, implies_true,
    and_true]
  intro room hm recording hr t _
  exact ⟨⟨t, recording, room, rfl, hm, by simpa using hr, rfl⟩,
    fun _ => follows_publish (by simp) (by simp)⟩

/-- The steps `JoinRoom` and `CreateSpeakerSession` share. -/
theorem follows_speakerSession {s : Service} {cmd : Command} {h : List VoiceExchange}
    {room : Room} {userID : String} {role : RoomRole} {f : SpeakerMediaDescriptor → Reply}
    (hissue : ∀ h', h ⊆ h' → IssuesToken h' ⟨room.liveKitRoomName, userID, role⟩ cmd) :
    Follows (S := effects) (Asks s cmd) anyResult h
      ((fresh prefixParticipant).bind fun id => Action.now.bind fun t =>
        (store (.saveParticipantSession (newParticipantSession room userID role id t))).bind
          fun _ => (s.presenceDo (.markParticipantActive room.id
              (newParticipantSession room userID role id t).id userID
              s.cfg.listenerSessionTimeout)).bind
            fun _ => (ask (.issueSpeakerToken ⟨room.liveKitRoomName, userID, role⟩)).bind
              fun a => (ofExcept a).bind fun d => ret (f d)) := by
  simp only [follows_fresh, follows_now, follows_store, Asks, true_and, implies_true, and_true]
  intro id t _
  refine follows_presenceDo (by simp) fun h' hh => ?_
  simp only [follows_ask, follows_ofExcept, follows_ret, Asks, implies_true, and_true]
  exact hissue h' fun x hx => hh (by simp [hx])

theorem TokenGrounds.mono {h h' : List VoiceExchange} {roomID userID : String}
    {input : SpeakerTokenInput} (hg : TokenGrounds h roomID userID input) (hh : h ⊆ h') :
    TokenGrounds h' roomID userID input := by
  obtain ⟨room, hr, hl, hn, hi, hu⟩ := hg
  exact ⟨room, hh hr, hl, hn, hi, hu.imp id fun ⟨request, hf⟩ => ⟨request, hh hf⟩⟩

theorem joinRoom_asks (s : Service) (c : JoinRoomCommand) :
    Follows (S := effects) (Asks s (.joinRoom c)) anyResult [] (s.program (.joinRoom c)) := by
  simp only [Service.program, joinRoom, map_eq, bind_eq, pure_eq, bind_assoc, follows_store,
    follows_require, Asks, true_and, implies_true, and_true]
  intro room hlive
  have hlive : room.status = .live := by simpa using hlive
  refine follows_resolveRole trivial (by simp) fun h role hrole => ?_
  split
  · simp only [bind_assoc, ret_bind]
    refine follows_speakerSession fun h' hh' => ?_
    exact (hrole.tokenGrounds ‹_› (by simp) hlive).mono hh'
  · obtain rfl : role = .listener := by
      cases role <;> simp_all [roleUsesLiveKit]
    obtain rfl := hrole
    simp only [bind_assoc, ret_bind, follows_now, follows_fresh, follows_store, Asks, true_and,
      implies_true, and_true]
    intro t id
    refine ⟨⟨t, id, room, rfl, hlive, rfl⟩, fun _ => ?_⟩
    exact follows_presenceDo (by simp) fun _ _ => follows_publish (by simp) (by simp)

theorem createSpeakerSession_asks (s : Service) (c : CreateSpeakerSessionCommand) :
    Follows (S := effects) (Asks s (.createSpeakerSession c)) anyResult []
      (s.program (.createSpeakerSession c)) := by
  simp only [Service.program, createSpeakerSession, map_eq, bind_eq, pure_eq, bind_assoc, ret_bind,
    follows_store, follows_require, Asks, true_and, implies_true, and_true]
  intro room hlive
  have hlive : room.status = .live := by simpa using hlive
  refine follows_resolveRole trivial (by simp) fun h role hrole => ?_
  rw [follows_require]
  refine ⟨fun hu => follows_speakerSession fun h' hh' => ?_, by simp⟩
  exact (hrole.tokenGrounds hu (by simp) hlive).mono hh'

theorem listenerHeartbeat_asks (s : Service) (c : ListenerHeartbeatCommand) :
    Follows (S := effects) (Asks s (.listenerHeartbeat c)) anyResult []
      (s.program (.listenerHeartbeat c)) := by
  simp only [Service.program, listenerHeartbeat, map_eq, bind_eq, pure_eq, bind_assoc,
    follows_store, follows_require, follows_now, Asks, SavesListenerSession, true_and,
    implies_true, and_true]
  intro session hown hactive t
  simp only [Bool.and_eq_true, decide_eq_true_eq] at hown
  refine ⟨⟨t, session, rfl, hown.1, hown.2, by simpa using hactive, rfl⟩, fun _ => ?_⟩
  exact follows_presenceDo (by simp) fun _ _ => follows_publish (by simp) (by simp)

theorem leaveListener_asks (s : Service) (c : LeaveListenerCommand) :
    Follows (S := effects) (Asks s (.leaveListener c)) anyResult []
      (s.program (.leaveListener c)) := by
  simp only [Service.program, leaveListener, map_eq, bind_eq, pure_eq, bind_assoc, follows_store,
    follows_require, follows_now, Asks, SavesListenerSession, true_and, implies_true, and_true]
  intro session hown t
  simp only [Bool.and_eq_true, decide_eq_true_eq] at hown
  refine ⟨⟨t, session, rfl, hown.1, hown.2, rfl⟩, fun _ => ?_⟩
  exact follows_presenceDo (by simp) fun _ _ => follows_publish (by simp) (by simp)

theorem requestToSpeak_asks (s : Service) (c : RequestToSpeakCommand) :
    Follows (S := effects) (Asks s (.requestToSpeak c)) anyResult []
      (s.program (.requestToSpeak c)) := by
  simp only [Service.program, requestToSpeak, map_eq, bind_eq, pure_eq, bind_assoc, follows_store,
    follows_require, follows_ask, Asks, true_and, implies_true, and_true]
  intro room hlive
  rintro (e | block)
  · by_cases he : e = .speakingBlockNotFound
    · subst he
      simp only [bind_assoc, follows_ask, Asks, true_and]
      rintro (e | request)
      · by_cases he : e = .speakerRequestNotFound
        · subst he
          simp only [bind_assoc, follows_fresh, follows_now, follows_store, Asks, true_and,
            SavesSpeakerRequest, implies_true, and_true]
          intro id t
          refine ⟨⟨t, id, room, rfl, by simpa using hlive, rfl⟩, fun _ => ?_⟩
          exact follows_publish (by simp) (by simp)
        · split
          · trivial
          · cases ‹Except.error e = _›; exact absurd rfl he
          · trivial
      · trivial
    · split
      · trivial
      · cases ‹Except.error e = _›; exact absurd rfl he
      · trivial
  · trivial

/-- Both decisions on a speaker request. -/
theorem decideSpeakerRequest_asks {s : Service} {cmd : Command} {c : DecideSpeakerRequestCommand}
    {status : SpeakerRequestStatus} {eventType : String}
    (hcmd : ∀ h request, SavesSpeakerRequest h request cmd = Decides h request c status) :
    Follows (S := effects) (Asks s cmd) anyResult []
      (Reply.speakerRequest <$> decideSpeakerRequest c status eventType) := by
  simp only [decideSpeakerRequest, map_eq, bind_eq, pure_eq, bind_assoc, follows_store,
    follows_require, follows_now, Asks, hcmd, Decides, Room.canModerate_iff, true_and,
    implies_true, and_true]
  intro room hm request hr t
  simp only [Bool.and_eq_true, decide_eq_true_eq] at hr
  exact ⟨⟨t, room, request, rfl, hm, hr.1, hr.2, rfl⟩, fun _ => follows_publish (by simp) (by simp)⟩

theorem blockSpeaking_asks (s : Service) (c : SpeakingBlockCommand) :
    Follows (S := effects) (Asks s (.blockSpeaking c)) anyResult []
      (s.program (.blockSpeaking c)) := by
  simp only [Service.program, blockSpeaking, map_eq, bind_eq, pure_eq, bind_assoc, follows_store,
    follows_require, follows_ask, Asks, Room.canModerate_iff, true_and, implies_true, and_true]
  intro room hm
  rintro (e | block)
  · by_cases he : e = .speakingBlockNotFound
    · subst he
      simp only [bind_assoc, follows_fresh, follows_now, follows_store, Asks, true_and,
        SavesSpeakingBlock, implies_true, and_true]
      intro id t
      exact ⟨⟨t, id, room, rfl, hm, rfl⟩, fun _ => follows_publish (by simp) (by simp)⟩
    · split
      · trivial
      · cases ‹Except.error e = _›; exact absurd rfl he
      · trivial
  · trivial

theorem unblockSpeaking_asks (s : Service) (c : SpeakingBlockCommand) :
    Follows (S := effects) (Asks s (.unblockSpeaking c)) anyResult []
      (s.program (.unblockSpeaking c)) := by
  simp only [Service.program, unblockSpeaking, map_eq, bind_eq, pure_eq, bind_assoc, follows_store,
    follows_require, follows_now, Asks, SavesSpeakingBlock, Room.canModerate_iff, true_and,
    implies_true, and_true]
  intro room hm block t
  exact ⟨⟨t, room, block, rfl, hm, rfl⟩, fun _ => follows_publish (by simp) (by simp)⟩

/-- A loop whose rounds only need what was exchanged before it. -/
theorem follows_rounds {α γ : Type} {P : List VoiceExchange → Effect → Prop}
    {h : List VoiceExchange} {xs : List γ} {f : γ → Action Unit} {g : Unit → Action α}
    (round : ∀ x ∈ xs, ∀ h', h ⊆ h' → Follows (S := effects) P
      (fun h'' r => ∀ u, r = .ok u → h' ⊆ h'') h' (f x))
    (done : ∀ h', h ⊆ h' → Follows (S := effects) P anyResult h' (g ())) :
    Follows (S := effects) P anyResult h ((forEach xs f).bind g) := by
  rw [follows_bind]
  refine follows_forEach (fun h' => h ⊆ h') h (List.Subset.refl h) ?_ done
  intro x hx h' hh
  refine (round x hx h' hh).mono (fun _ _ hc => hc) ?_
  rintro h'' (e | u) hr
  · trivial
  · exact List.Subset.trans hh (hr u rfl)

theorem removeParticipant_asks (s : Service) (c : RemoveParticipantCommand) :
    Follows (S := effects) (Asks s (.removeParticipant c)) anyResult []
      (s.program (.removeParticipant c)) := by
  simp only [Service.program, removeParticipant, map_eq, bind_eq, bind_assoc, follows_store,
    follows_require, follows_now, Asks, Room.canModerate_iff, true_and, implies_true, and_true]
  intro room hm sessions t
  refine follows_rounds ?_ fun h' _ => follows_publish (by simp) (by simp)
  intro session hs h' hh
  simp only [follows_store, Asks, SavesListenerSession]
  refine ⟨⟨t, room, sessions, session, hh (by simp), hm, hh (by simp), hh (by simp), hs, rfl⟩,
    fun _ => ?_, by simp⟩
  rw [← bind_ret (s.presenceDo _)]
  exact follows_presenceDo (by simp) fun h'' hh' _ _ x hx => hh' (by simp [hx])

theorem expireStaleListenerSessions_asks (s : Service) (cutoff : Time) (limit : Int)
    (correlationID : String) :
    Follows (S := effects) (Asks s (.expireStaleListenerSessions cutoff limit correlationID))
      anyResult [] (s.program (.expireStaleListenerSessions cutoff limit correlationID)) := by
  simp only [Service.program, expireStaleListenerSessions, map_eq, bind_eq, pure_eq, bind_assoc,
    follows_store, follows_now, Asks, true_and, implies_true, and_true]
  intro sessions t
  refine follows_rounds ?_ (by simp)
  intro session hs h' hh
  simp only [follows_store, Asks, SavesListenerSession]
  refine ⟨⟨t, sessions, session, hh (by simp), hh (by simp), hs, rfl⟩, fun _ => ?_, by simp⟩
  refine follows_presenceDo (by simp) fun h₁ hh₁ => ?_
  rw [← bind_ret (publish _ _ _ _ _ _)]
  exact follows_publish (by simp) fun h₂ hh₂ _ _ x hx => hh₂ (hh₁ (by simp [hx]))

theorem closeRoomSessions_asks (s : Service) (roomID : String) (endedAt : Time)
    (correlationID : String) :
    Follows (S := effects) (Asks s (.closeRoomSessions roomID endedAt correlationID))
      anyResult [] (s.program (.closeRoomSessions roomID endedAt correlationID)) := by
  simp only [Service.program, closeRoomSessions, map_eq, bind_eq, bind_assoc,
    follows_store, Asks, true_and, implies_true, and_true]
  intro sessions
  refine follows_rounds ?_ (by simp)
  intro session hs h' hh
  simp only [follows_store, Asks, SavesListenerSession]
  refine ⟨⟨sessions, session, hh (by simp), hs, rfl⟩, fun _ => ?_, by simp⟩
  rw [← bind_ret (s.presenceDo _)]
  exact follows_presenceDo (by simp) fun h'' hh' _ _ x hx => hh' (by simp [hx])

theorem generateReport_asks (s : Service) (c : GenerateReportCommand) :
    Follows (S := effects) (Asks s (.generateReport c)) anyResult []
      (s.program (.generateReport c)) := by
  simp only [Service.program, generateReport, map_eq, bind_eq, bind_assoc, follows_store,
    follows_fresh, follows_require, follows_now, Asks, true_and, implies_true, and_true]
  intro room _ stats id t _
  exact follows_publish (by simp) (by simp)

theorem revokeSpeaker_asks (s : Service) (c : RevokeSpeakerCommand) :
    Follows (S := effects) (Asks s (.revokeSpeaker c)) anyResult []
      (s.program (.revokeSpeaker c)) := by
  simp only [Service.program, revokeSpeaker, map_eq, bind_eq, bind_assoc, follows_store,
    follows_require, Asks, true_and, implies_true, and_true]
  intro room _
  exact follows_publish (by simp) (by simp)

theorem activeCounts_asks (s : Service) (roomID : String) :
    Follows (S := effects) (Asks s (.activeCounts roomID)) anyResult []
      (s.program (.activeCounts roomID)) := by
  simp only [Service.program, activeCounts, map_eq, bind_eq, pure_eq]
  cases s.hasPresence <;>
    simp [present, bind_assoc, follows_ask, follows_ofExcept, follows_store, Asks]

theorem recordingPlaybackURL_asks (s : Service) (roomID recordingID actorUserID : String) :
    Follows (S := effects) (Asks s (.recordingPlaybackURL roomID recordingID actorUserID))
      anyResult [] (s.program (.recordingPlaybackURL roomID recordingID actorUserID)) := by
  simp only [Service.program, recordingPlaybackURL, map_eq, bind_eq, pure_eq, bind_assoc,
    follows_store, follows_require, Asks]
  cases s.hasSigner <;>
    simp [bind_assoc, follows_ask, follows_ofExcept, Asks]

theorem realtimeSubscriptionToken_asks (s : Service) (userID channel : String) :
    Follows (S := effects) (Asks s (.realtimeSubscriptionToken userID channel)) anyResult []
      (s.program (.realtimeSubscriptionToken userID channel)) := by
  have htoken : ∀ h, Follows (S := effects) (Asks s (.realtimeSubscriptionToken userID channel))
      anyResult h ((ask (.subscriptionToken userID channel)).bind fun a =>
        (ofExcept a).bind fun token => ret (Reply.token ⟨channel, token⟩)) := by
    simp [follows_ask, follows_ofExcept, Asks]
  simp only [Service.program, realtimeSubscriptionToken, map_eq, bind_eq, pure_eq, bind_assoc,
    ret_bind, follows_require, authorizeChannel, implies_true, and_true]
  intro _
  split
  · simp [follows_require, htoken]
  split
  · split
    · trivial
    · simp only [bind_assoc, follows_store, Asks, implies_true, and_true, true_and]
      intro room
      refine follows_resolveRole trivial (by simp) fun h role _ => ?_
      simp [follows_require, htoken]
  split
  · exact htoken _
  · trivial

/-- **Every command keeps its protocol**, whatever answers it gets. -/
theorem program_asks (s : Service) (cmd : Command) :
    Follows (S := effects) (Asks s cmd) anyResult [] (s.program cmd) := by
  cases cmd with
  -- rewriting here and below: `exact` would evaluate the check on the trimmed strings
  | createRoom c => simp only [createRoom_asks]
  | startRoom c => exact startRoom_asks s c
  | finishRoom c => exact finishRoom_asks s c
  | joinRoom c => exact joinRoom_asks s c
  | listenerHeartbeat c => exact listenerHeartbeat_asks s c
  | leaveListener c => exact leaveListener_asks s c
  | requestToSpeak c => exact requestToSpeak_asks s c
  | approveSpeakerRequest c => exact decideSpeakerRequest_asks fun _ _ => rfl
  | declineSpeakerRequest c => exact decideSpeakerRequest_asks fun _ _ => rfl
  | createSpeakerSession c => exact createSpeakerSession_asks s c
  | revokeSpeaker c => exact revokeSpeaker_asks s c
  | blockSpeaking c => exact blockSpeaking_asks s c
  | unblockSpeaking c => exact unblockSpeaking_asks s c
  | removeParticipant c => exact removeParticipant_asks s c
  | startRecording c => exact startRecording_asks s c
  | stopRecording c => exact stopRecording_asks s c
  | recordingPlaybackURL roomID recordingID actorUserID =>
    exact recordingPlaybackURL_asks s roomID recordingID actorUserID
  | generateReport c => exact generateReport_asks s c
  | expireStaleListenerSessions cutoff limit correlationID =>
    exact expireStaleListenerSessions_asks s cutoff limit correlationID
  | closeRoomSessions roomID endedAt correlationID =>
    exact closeRoomSessions_asks s roomID endedAt correlationID
  | activeCounts roomID => exact activeCounts_asks s roomID
  | realtimeSubscriptionToken userID channel => simp only [realtimeSubscriptionToken_asks]
  | realtimeConnectionToken userID =>
    simp [Service.program, realtimeConnectionToken, bind_assoc, follows_require, follows_ask,
      follows_ofExcept, Asks]
  | getRoom | listenerStream | listRecordings | getRecording | getReport =>
    simp [Service.program, Service.getRoom, listenerStream, Service.listRecordings,
      Service.getRecording, Service.getReport, follows_store, Asks, bind_assoc]

theorem run_asks {s : Service} {I : Infra} {ms : List VoiceMove} {p : VoicePool}
    (h : (s.system I).run ms = some p) :
    Always (fun older e => Asks s e.cmd (threadHistory e.thread older) e.exchange.call) p.trace :=
  System.run_always (program_asks s) h

end WaveCast
