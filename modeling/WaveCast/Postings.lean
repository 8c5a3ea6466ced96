import WaveCast.Ledger

/-!
# The postings of a command

Every command that runs alone makes postings and nothing else
(`program_concludes`). The records it finds are stored under their ids, which
were drawn (`run_keyed`): that is why what it saves does not take the place of
another record. A sequential run is then a sequence of postings
(`serial_reaches`).
-/

namespace WaveCast

open Interaction WaveCast.Action Program Service

/-! ## Keys -/

/-- The records of a table are stored under their ids, which were drawn. -/
structure World.KeyedIn {V : Type} (w : World) (pfx : String) (ident : V → String) (t : Table V) :
    Prop where
  ident_eq : ∀ k v, t.lookup k = some v → ident v = k
  issued : ∀ k, t.lookup k ≠ none → w.Issued pfx k

structure World.Keyed (w : World) : Prop where
  rooms : w.KeyedIn prefixRoom Room.id w.store.rooms
  listenerSessions : w.KeyedIn prefixListenerSession ListenerSession.id w.store.listenerSessions
  participantSessions : w.KeyedIn prefixParticipant ParticipantSession.id
    w.store.participantSessions
  speakingBlocks : w.KeyedIn prefixSpeakingBlock SpeakingBlock.id w.store.speakingBlocks

/-- Nothing is stored under an id that was not drawn. -/
theorem World.KeyedIn.lookup_fresh {V : Type} {w : World} {pfx : String} {ident : V → String}
    {t : Table V} (ht : w.KeyedIn pfx ident t) {u : Ulid} (hu : u ∉ w.issued) :
    t.lookup (newID pfx u) = none := by
  by_contra hstored
  obtain ⟨v, hv, hid⟩ := ht.issued _ hstored
  exact hu (newID_injective pfx hid ▸ hv)

section Run

variable {s : Service} {I : Infra} {ms : List VoiceMove} {p : VoicePool}

/-- A table that evolves is keyed. -/
theorem keyedIn_of_evolves {V : Type} {pfx : String} {ident : V → String} {t : Table V}
    (saved : VoiceExchange → Option (String × V)) {new : List VoiceEntry → VoiceEntry → V → Prop}
    {step : VoiceEntry → V → V → Prop} (h : (s.system I).run ms = some p)
    (hsaved : ∀ x k v, saved x = some (k, v) → ident v = k)
    (hlookup : ∀ k, t.lookup k = lastWrite (fun e : VoiceEntry => saved e.exchange) k p.trace)
    (hev : Evolves (fun e : VoiceEntry => saved e.exchange) (idDraws pfx) client new step p.trace) :
    p.state.KeyedIn pfx ident t := by
  constructor
  · intro k v hv
    rw [hlookup] at hv
    obtain ⟨e, -, hw⟩ := exists_write_of_lastWrite hv
    exact hsaved _ _ _ hw
  · intro k hk
    rw [hlookup] at hk
    obtain ⟨e, he, hid⟩ := hev.drawn hk
    exact drawn_issued (System.run_replays h) he hid

/-- **Every record is stored under its id**, and the id was drawn, in every
interleaving. -/
theorem run_keyed (h : (s.system I).run ms = some p) : p.state.Keyed where
  rooms := keyedIn_of_evolves savedRoom h (fun _ _ _ hw => (savedRoom_eq_some.mp hw).2.symm)
    (lookup_rooms (System.run_replays h)) (rooms_evolve h)
  listenerSessions := keyedIn_of_evolves savedListenerSession h
    (fun _ _ _ hw => (savedListenerSession_eq_some.mp hw).2.symm)
    (lookup_listenerSessions (System.run_replays h)) (sessions_evolve h)
  participantSessions := keyedIn_of_evolves savedParticipantSession h
    (fun _ _ _ hw => (savedParticipantSession_eq_some.mp hw).2.symm)
    (lookup_participantSessions (System.run_replays h)) (participants_evolve h)
  speakingBlocks := keyedIn_of_evolves savedSpeakingBlock h
    (fun _ _ _ hw => (savedSpeakingBlock_eq_some.mp hw).2.symm)
    (lookup_speakingBlocks (System.run_replays h)) (blocks_evolve h)

end Run

/-! ## Sessions of a loop -/

/-- A session with this id is stored, and in the same room. -/
def Ledger.Knows (l : Ledger) (session : ListenerSession) : Prop :=
  ∃ session₀, l.store.listenerSessions.lookup session.id = some session₀ ∧
    session₀.roomID = session.roomID

theorem Ledger.Knows.places {l : Ledger} {session session' : ListenerSession}
    (h : l.Knows session) (hid : session'.id = session.id)
    (hroom : session'.roomID = session.roomID) : l.Places session' := by
  obtain ⟨session₀, hl, hr⟩ := h
  intro session₁ hl₁
  rw [hid, hl] at hl₁
  cases hl₁
  exact hr.trans hroom.symm

theorem Ledger.Knows.saved {l : Ledger} {session session' : ListenerSession}
    (h : l.Knows session) (hplaces : l.Places session') :
    (l.saved (.saveListenerSession session')).Knows session := by
  obtain ⟨session₀, hl, hr⟩ := h
  by_cases hid : session.id = session'.id
  · refine ⟨session', ?_, ?_⟩
    · exact (Table.lookup_insert_ite _ _ _ _).trans (if_pos hid)
    · exact (hplaces session₀ (hid ▸ hl)).symm.trans hr
  · exact ⟨session₀, (Table.lookup_insert_ite _ _ _ _).trans ((if_neg hid).trans hl), hr⟩

section Known

variable {s : Service} {I : Infra} {l l' : Ledger} {session : ListenerSession}

theorem Posting.knows (hp : Posting s I l l') (h : l.Knows session) : l'.Knows session := by
  cases hp with
  | listener session' hplaces => exact h.saved hplaces
  | unshown session' hplaces _ => exact h.saved hplaces
  | _ => exact h

theorem Reaches.knows (hr : Reaches s I l l') (h : l.Knows session) : l'.Knows session := by
  induction hr with
  | refl => exact h
  | tail _ hp ih => exact hp.knows ih

end Known

theorem World.Keyed.knows_listed {w w' : World} (hk : w.Keyed) {I : Infra} {env : Env} {e : Effect}
    {a : e.Answer} (h : World.exec I env e w = some (a, w')) {session : ListenerSession}
    (hs : session ∈ listedSessions ⟨e, a⟩) : w.ledger.Knows session := by
  obtain ⟨k, hl⟩ := World.exec_listed h hs
  have hid := hk.listenerSessions.ident_eq k session hl
  exact ⟨session, hid.symm ▸ hl, rfl⟩

/-- The memory store finds an active block if there is one. -/
theorem World.exec_no_activeBlock {I : Infra} {env : Env} {w w' : World} {roomID userID : String}
    (h : World.exec I env (.store (.getActiveSpeakingBlock roomID userID)) w =
      some (.error .speakingBlockNotFound, w')) : w.ledger.Unblocked roomID userID := by
  rcases World.exec_store h with ⟨he, -⟩ | ⟨st, hs, -⟩
  · cases he
  · obtain ⟨blocks, hr, hf⟩ := Option.map_eq_some_iff.mp hs
    obtain ⟨hf, -⟩ := Prod.mk.inj hf
    intro k block hl hroom huser hactive
    unfold Store.found at hf
    split at hf
    · cases hf
    · rename_i hnone
      have hmem := (Table.mem_range hr block).mpr ⟨k, hl⟩
      have hno := List.find?_eq_none.mp hnone block hmem
      simp [hroom, huser, hactive] at hno

/-! ## The commands -/

section Commands

variable {s : Service} {I : Infra} {w : World} (hI : I.KeepsStore)

include hI

theorem startRoom_concludes (c : StartRoomCommand) :
    Ensures (S := effects) (World.exec I) (Concludes s I w) [] w (s.program (.startRoom c)) := by
  simp only [Service.program, startRoom, map_eq, bind_eq, bind_assoc]
  refine ensures_read (c := .getRoom _) trivial (fun env room h hx => ?_) fun _ _ => .refused rfl
  simp only [ensures_require]
  refine ⟨fun _ => ⟨fun _ => ?_, fun _ => .refused rfl⟩, fun _ => .refused rfl⟩
  refine ensures_now fun t _ => ensures_save hI id fun _ h => ?_
  refine ensures_posted hI (fun _ _ _ => .single (.room _ _ _ rfl)) ?_
  exact fun _ _ hw => hw

theorem finishRoom_concludes (c : FinishRoomCommand) :
    Ensures (S := effects) (World.exec I) (Concludes s I w) [] w (s.program (.finishRoom c)) := by
  simp only [Service.program, finishRoom, map_eq, bind_eq, bind_assoc]
  refine ensures_read (c := .getRoom _) trivial (fun env room h hx => ?_) fun _ _ => .refused rfl
  simp only [ensures_require]
  refine ⟨fun _ => ⟨fun _ => ?_, fun _ => .refused rfl⟩, fun _ => .refused rfl⟩
  refine ensures_now fun t _ => ensures_save hI id fun _ h => ?_
  refine ensures_posted hI (fun _ _ _ => .single (.room _ _ _ rfl)) ?_
  refine fun h w hw => ensures_enqueued fun h w₁ h₁ => ensures_enqueued fun h w₂ h₂ => ?_
  rw [← h₁, ← h₂] at hw
  exact hw

/-- The steps `JoinRoom` and `CreateSpeakerSession` share. -/
theorem ensures_speakerSession (hk : w.Keyed) {h : List VoiceExchange} {room : Room}
    {userID : String} {role : RoomRole} {f : String → SpeakerMediaDescriptor → Reply} :
    Ensures (S := effects) (World.exec I) (Concludes s I w) h w
      ((fresh prefixParticipant).bind fun id => Action.now.bind fun t =>
        (store (.saveParticipantSession (newParticipantSession room userID role id t))).bind
          fun _ => (s.presenceDo (.markParticipantActive room.id
              (newParticipantSession room userID role id t).id userID
              s.cfg.listenerSessionTimeout)).bind
            fun _ => (ask (.issueSpeakerToken ⟨room.liveKitRoomName, userID, role⟩)).bind
              fun a => (ofExcept a).bind fun d => ret (f id d)) := by
  refine ensures_fresh fun u _ hu => ensures_now fun t h => ?_
  refine ensures_seated hI ?_ (fun _ => rfl) fun h w' hw' => ?_
  · exact .refl
  refine ensures_token ?_
  rw [hw']
  exact .single (.participant _ rfl (hk.participantSessions.lookup_fresh hu))

theorem joinRoom_concludes (hk : w.Keyed) (c : JoinRoomCommand) :
    Ensures (S := effects) (World.exec I) (Concludes s I w) [] w (s.program (.joinRoom c)) := by
  simp only [Service.program, joinRoom, map_eq, bind_eq, pure_eq, bind_assoc]
  refine ensures_read (c := .getRoom _) trivial (fun env room h hx => ?_) fun _ _ => .refused rfl
  simp only [ensures_require]
  refine ⟨fun _ => ?_, fun _ => .refused rfl⟩
  refine ensures_resolveRole (fun role h _ => ?_) fun hn => absurd hI hn
  split
  · simp only [bind_assoc, ret_bind]
    exact ensures_speakerSession hI hk
  · simp only [bind_assoc, ret_bind]
    refine ensures_now fun t _ => ensures_fresh fun u h hu => ?_
    have hplaces : w.ledger.Places (newListenerSession room c.userID
        (newID prefixListenerSession u) t) := by
      intro session hl
      cases (hk.listenerSessions.lookup_fresh hu).symm.trans hl
    refine ensures_shown hI ?_ (fun _ => rfl) ?_ fun h w' hw' => ?_
    · exact .refl
    · exact hplaces
    refine ensures_posted hI (fun _ _ _ => ?_) fun _ _ hw => hw
    rw [hw']
    exact .tail (.single (.listener _ hplaces)) (.event _ _ rfl)

theorem createSpeakerSession_concludes (hk : w.Keyed) (c : CreateSpeakerSessionCommand) :
    Ensures (S := effects) (World.exec I) (Concludes s I w) [] w
      (s.program (.createSpeakerSession c)) := by
  simp only [Service.program, createSpeakerSession, map_eq, bind_eq, pure_eq, bind_assoc, ret_bind]
  refine ensures_read (c := .getRoom _) trivial (fun env room h hx => ?_) fun _ _ => .refused rfl
  simp only [ensures_require]
  refine ⟨fun _ => ?_, fun _ => .refused rfl⟩
  refine ensures_resolveRole (fun role h _ => ?_) fun hn => absurd hI hn
  simp only [ensures_require]
  exact ⟨fun _ => ensures_speakerSession hI hk, fun _ => .refused rfl⟩

theorem listenerHeartbeat_concludes (hk : w.Keyed) (c : ListenerHeartbeatCommand) :
    Ensures (S := effects) (World.exec I) (Concludes s I w) [] w
      (s.program (.listenerHeartbeat c)) := by
  simp only [Service.program, listenerHeartbeat, map_eq, bind_eq, pure_eq, bind_assoc]
  refine ensures_read (c := .getListenerSession _) trivial (fun env session h hx => ?_)
    fun _ _ => .refused rfl
  simp only [ensures_require]
  refine ⟨fun _ => ⟨fun hactive => ?_, fun _ => .refused rfl⟩, fun _ => .refused rfl⟩
  have hl := World.exec_getListenerSession hx
  have hactive : session.status = .active := of_decide_eq_true hactive
  have hplaces : ∀ t, w.ledger.Places (touchedSession session t) := fun t =>
    Ledger.Knows.places ⟨session, hk.listenerSessions.ident_eq _ _ hl ▸ hl, rfl⟩ rfl rfl
  refine ensures_now fun t _ => ?_
  refine ensures_shown hI .refl (fun p => ?_) (hplaces t) fun h w' hw' => ?_
  · simp [Presence.step, Presence.showing, touchedSession, hactive]
  refine ensures_posted hI (fun _ _ _ => ?_) fun _ _ hw => hw
  rw [hw']
  exact .tail (.single (.listener _ (hplaces t))) (.event _ _ rfl)

theorem leaveListener_concludes (hk : w.Keyed) (c : LeaveListenerCommand) :
    Ensures (S := effects) (World.exec I) (Concludes s I w) [] w
      (s.program (.leaveListener c)) := by
  simp only [Service.program, leaveListener, map_eq, bind_eq, pure_eq, bind_assoc]
  refine ensures_read (c := .getListenerSession _) trivial (fun env session h hx => ?_)
    fun _ _ => .refused rfl
  simp only [ensures_require]
  refine ⟨fun _ => ?_, fun _ => .refused rfl⟩
  have hl := World.exec_getListenerSession hx
  have hplaces : ∀ t, w.ledger.Places (endedSession session .left (trimSpace c.leaveType) t) :=
    fun t => Ledger.Knows.places ⟨session, hk.listenerSessions.ident_eq _ _ hl ▸ hl, rfl⟩ rfl rfl
  refine ensures_now fun t _ => ?_
  refine ensures_shown hI .refl (fun _ => rfl) (hplaces t) fun h w' hw' => ?_
  refine ensures_posted hI (fun _ _ _ => ?_) fun _ _ hw => hw
  rw [hw']
  exact .tail (.single (.listener _ (hplaces t))) (.event _ _ rfl)

theorem requestToSpeak_concludes (c : RequestToSpeakCommand) :
    Ensures (S := effects) (World.exec I) (Concludes s I w) [] w
      (s.program (.requestToSpeak c)) := by
  simp only [Service.program, requestToSpeak, map_eq, bind_eq, bind_assoc]
  refine ensures_read (c := .getRoom _) trivial (fun env room h hx => ?_) fun _ _ => .refused rfl
  simp only [ensures_require]
  refine ⟨fun _ => ?_, fun _ => .refused rfl⟩
  refine ensures_askRead (c := .getActiveSpeakingBlock room.id c.userID) trivial
    fun env a h hx => ?_
  split
  · exact .refused rfl
  · rw [bind_assoc]
    refine ensures_askRead (c := .findPendingSpeakerRequest room.id c.userID) trivial
      fun env a h hx => ?_
    split
    · exact .refused rfl
    · simp only [bind_assoc]
      refine ensures_fresh fun u _ _ => ensures_now fun t _ => ensures_save hI id fun _ h => ?_
      refine ensures_posted hI (fun _ _ _ => ?_) fun _ _ hw => hw
      exact .single (.request _ _ _ rfl)
    · exact .refused rfl
  · exact .refused rfl

theorem decideSpeakerRequest_concludes (c : DecideSpeakerRequestCommand)
    {status : SpeakerRequestStatus} {eventType : String}
    (hfact : ∀ roomID userID (request : SpeakerRequest) id t,
      factOf (envelope eventType roomID c.actorUserID userID c.correlationID
        (.speakerRequest request) id t) = some (.request request.id status)) :
    Ensures (S := effects) (World.exec I) (Concludes s I w) [] w
      (Reply.speakerRequest <$> decideSpeakerRequest c status eventType) := by
  simp only [decideSpeakerRequest, map_eq, bind_eq, bind_assoc]
  refine ensures_read (c := .getRoom _) trivial (fun env room h hx => ?_) fun _ _ => .refused rfl
  simp only [ensures_require]
  refine ⟨fun _ => ?_, fun _ => .refused rfl⟩
  refine ensures_read (c := .getSpeakerRequest _) trivial (fun env request h hx => ?_)
    fun _ _ => .refused rfl
  simp only [ensures_require]
  refine ⟨fun _ => ?_, fun _ => .refused rfl⟩
  refine ensures_now fun t _ => ensures_save hI id fun _ h => ?_
  refine ensures_posted hI (fun _ _ _ => ?_) fun _ _ hw => hw
  exact .single (.request _ _ _ (hfact _ _ _ _ _))

theorem revokeSpeaker_concludes (c : RevokeSpeakerCommand) :
    Ensures (S := effects) (World.exec I) (Concludes s I w) [] w
      (s.program (.revokeSpeaker c)) := by
  simp only [Service.program, revokeSpeaker, map_eq, bind_eq, bind_assoc]
  refine ensures_read (c := .getRoom _) trivial (fun env room h hx => ?_) fun _ _ => .refused rfl
  simp only [ensures_require]
  refine ⟨fun _ => ?_, fun _ => .refused rfl⟩
  refine ensures_posted hI (fun _ _ _ => ?_) fun _ _ hw => hw
  exact .single (.event _ _ rfl)

theorem blockSpeaking_concludes (hk : w.Keyed) (c : SpeakingBlockCommand) :
    Ensures (S := effects) (World.exec I) (Concludes s I w) [] w
      (s.program (.blockSpeaking c)) := by
  simp only [Service.program, blockSpeaking, map_eq, bind_eq, bind_assoc]
  refine ensures_read (c := .getRoom _) trivial (fun env room h hx => ?_) fun _ _ => .refused rfl
  simp only [ensures_require]
  refine ⟨fun _ => ?_, fun _ => .refused rfl⟩
  refine ensures_askRead (c := .getActiveSpeakingBlock room.id c.targetUserID) trivial
    fun env a h hx => ?_
  split
  · exact .refl
  · simp only [bind_assoc]
    refine ensures_fresh fun u _ hu => ensures_now fun t _ => ensures_save hI id fun _ h => ?_
    refine ensures_posted hI (fun _ _ _ => ?_) fun _ _ hw => hw
    exact .single (.block _ _ _ (hk.speakingBlocks.lookup_fresh hu) rfl
      (World.exec_no_activeBlock hx) rfl)
  · exact .refused rfl

theorem unblockSpeaking_concludes (hk : w.Keyed) (c : SpeakingBlockCommand) :
    Ensures (S := effects) (World.exec I) (Concludes s I w) [] w
      (s.program (.unblockSpeaking c)) := by
  simp only [Service.program, unblockSpeaking, map_eq, bind_eq, bind_assoc]
  refine ensures_read (c := .getRoom _) trivial (fun env room h hx => ?_) fun _ _ => .refused rfl
  simp only [ensures_require]
  refine ⟨fun _ => ?_, fun _ => .refused rfl⟩
  refine ensures_read (c := .getActiveSpeakingBlock _ _) trivial (fun env block h hx => ?_)
    fun _ _ => .refused rfl
  obtain ⟨⟨k, hl⟩, hroom, huser, hactive⟩ := World.exec_getActiveSpeakingBlock hx
  obtain rfl := hk.speakingBlocks.ident_eq k block hl
  refine ensures_now fun t _ => ensures_save hI id fun _ h => ?_
  refine ensures_posted hI (fun _ _ _ => ?_) fun _ _ hw => hw
  refine .single (.unblock block _ _ _ hl hactive (by simp [liftedBlock]) rfl rfl ?_)
  rw [← hroom, ← huser]
  rfl

theorem removeParticipant_concludes (hk : w.Keyed) (c : RemoveParticipantCommand) :
    Ensures (S := effects) (World.exec I) (Concludes s I w) [] w
      (s.program (.removeParticipant c)) := by
  simp only [Service.program, removeParticipant, map_eq, bind_eq, bind_assoc]
  refine ensures_read (c := .getRoom _) trivial (fun env room h hx => ?_) fun _ _ => .refused rfl
  simp only [ensures_require]
  refine ⟨fun _ => ?_, fun _ => .refused rfl⟩
  refine ensures_read (c := .listActiveListenerSessionsByUser _ _) trivial
    (fun env sessions h hlist => ?_) fun _ _ => .refused rfl
  refine ensures_now fun t _ => ensures_rounds .refl (fun session hs h w' hw' => ?_) ?_
  · have hroom : session.roomID = room.id := (World.exec_lists hlist hs).1
    have hplaces : w'.ledger.Places (removedSession session c t) :=
      (hw'.knows (hk.knows_listed hlist hs)).places rfl rfl
    rw [← bind_ret (s.presenceDo _)]
    refine ensures_shown hI hw' (fun p => ?_) hplaces fun h w₁ hw₁ => ?_
    · rw [← hroom]
      rfl
    · rw [ensures_ret, Concludes, hw₁]
      exact hw'.tail (.listener _ hplaces)
  · intro h w' hw'
    refine ensures_posted hI (fun _ _ _ => ?_) fun _ _ hw => hw
    exact hw'.tail (.event _ _ rfl)

theorem startRecording_concludes (hk : w.Keyed) (c : StartRecordingCommand) :
    Ensures (S := effects) (World.exec I) (Concludes s I w) [] w
      (s.program (.startRecording c)) := by
  simp only [Service.program, startRecording, map_eq, bind_eq, bind_assoc, ensures_require]
  refine ⟨fun _ => ?_, fun _ => .refused rfl⟩
  refine ensures_read (c := .getRoom _) trivial (fun env room h hx => ?_) fun _ _ => .refused rfl
  simp only [ensures_require]
  refine ⟨fun _ => ⟨fun _ => ?_, fun _ => .refused rfl⟩, fun _ => .refused rfl⟩
  have hl := World.exec_getRoom hx
  rw [← hk.rooms.ident_eq _ _ hl] at hl
  refine ensures_now fun t _ => ensures_fresh fun u _ _ => ?_
  refine ensures_save hI id fun _ _ => ensures_save hI id fun _ _ => ?_
  refine ensures_posted hI (fun _ _ _ => ?_) fun _ _ hw => hw
  exact .single (.recording _ room _ _ _ hl rfl rfl)

theorem stopRecording_concludes (hk : w.Keyed) (c : StopRecordingCommand) :
    Ensures (S := effects) (World.exec I) (Concludes s I w) [] w
      (s.program (.stopRecording c)) := by
  simp only [Service.program, stopRecording, map_eq, bind_eq, bind_assoc]
  refine ensures_read (c := .getRoom _) trivial (fun env room h hx => ?_) fun _ _ => .refused rfl
  simp only [ensures_require]
  refine ⟨fun _ => ?_, fun _ => .refused rfl⟩
  refine ensures_read (c := .getRecording _) trivial (fun _ recording _ _ => ?_)
    fun _ _ => .refused rfl
  simp only [ensures_require]
  refine ⟨fun _ => ?_, fun _ => .refused rfl⟩
  have hl := World.exec_getRoom hx
  rw [← hk.rooms.ident_eq _ _ hl] at hl
  refine ensures_now fun t _ => ?_
  refine ensures_save hI id fun _ _ => ensures_save hI id fun _ _ => ?_
  refine ensures_posted hI (fun _ _ _ => ?_) fun _ _ hw => hw
  exact .single (.recording _ room _ _ _ hl rfl rfl)

theorem generateReport_concludes (c : GenerateReportCommand) :
    Ensures (S := effects) (World.exec I) (Concludes s I w) [] w
      (s.program (.generateReport c)) := by
  simp only [Service.program, generateReport, map_eq, bind_eq, bind_assoc]
  refine ensures_read (c := .getRoom _) trivial (fun env room h hx => ?_) fun _ _ => .refused rfl
  simp only [ensures_require]
  refine ⟨fun _ => ?_, fun _ => .refused rfl⟩
  refine ensures_read (c := .reportStats _) trivial (fun _ stats _ _ => ?_)
    fun _ _ => .refused rfl
  refine ensures_fresh fun u _ _ => ensures_now fun t _ => ensures_save hI id fun _ _ => ?_
  refine ensures_posted hI (fun _ _ _ => ?_) fun _ _ hw => hw
  exact .single (.report _ _ _ rfl)

theorem expireStaleListenerSessions_concludes (hk : w.Keyed) (cutoff : Time) (limit : Int)
    (correlationID : String) :
    Ensures (S := effects) (World.exec I) (Concludes s I w) [] w
      (s.program (.expireStaleListenerSessions cutoff limit correlationID)) := by
  simp only [Service.program, expireStaleListenerSessions, map_eq, bind_eq, pure_eq, bind_assoc]
  refine ensures_read (c := .listStaleListenerSessions _ _) trivial
    (fun env sessions h hlist => ?_) fun _ _ => .refused rfl
  refine ensures_now fun t _ => ensures_rounds .refl (fun session hs h w' hw' => ?_)
    fun _ _ hw => hw
  have hplaces : w'.ledger.Places (endedSession session .expired "heartbeat_timeout" t) :=
    (hw'.knows (hk.knows_listed hlist hs)).places rfl rfl
  refine ensures_shown hI hw' (fun _ => rfl) hplaces fun h w₁ hw₁ => ?_
  rw [← bind_ret (publish _ _ _ _ _ _)]
  refine ensures_posted hI (fun _ _ _ => ?_) fun h w hw => hw
  rw [hw₁]
  exact (hw'.tail (.listener _ hplaces)).tail (.event _ _ rfl)

theorem closeRoomSessions_concludes (hk : w.Keyed) (roomID : String) (endedAt : Time)
    (correlationID : String) :
    Ensures (S := effects) (World.exec I) (Concludes s I w) [] w
      (s.program (.closeRoomSessions roomID endedAt correlationID)) := by
  simp only [Service.program, closeRoomSessions, map_eq, bind_eq, bind_assoc]
  refine ensures_read (c := .listActiveListenerSessions _) trivial
    (fun env sessions h hlist => ?_) fun _ _ => .refused rfl
  refine ensures_rounds .refl (fun session hs h w' hw' => ?_) fun _ _ hw => hw
  have hroom : session.roomID = roomID := (World.exec_lists hlist hs).1
  have hplaces : w'.ledger.Places (endedSession session .left "room_finished" endedAt) :=
    (hw'.knows (hk.knows_listed hlist hs)).places rfl rfl
  rw [← bind_ret (s.presenceDo _)]
  refine ensures_shown hI hw' (fun p => ?_) hplaces fun h w₁ hw₁ => ?_
  · rw [← hroom]
    rfl
  · rw [ensures_ret, Concludes, hw₁]
    exact hw'.tail (.listener _ hplaces)

end Commands

/-- A command that only reads makes no postings. -/
theorem reads_concludes {s : Service} {I : Infra} {w : World} {cmd : Command}
    (hcmd : cmd.Reads) :
    Ensures (S := effects) (World.exec I) (Concludes s I w) [] w (s.program cmd) := by
  refine ((program_peeks s hcmd).ensures_invariant (T := (· = w)) ?_ rfl).mono ?_
  · rintro env e a w₁ w₂ he hx rfl
    exact World.exec_peeks he hx
  · rintro h r w' rfl
    cases r with
    | ok a => exact .refl
    | error e => exact .refused rfl

/-- **Every command makes postings and nothing else**, whatever the bus and the
token issuer do. -/
theorem program_concludes {s : Service} {I : Infra} {w : World} (hI : I.KeepsStore)
    (hk : w.Keyed) (cmd : Command) :
    Ensures (S := effects) (World.exec I) (Concludes s I w) [] w (s.program cmd) := by
  by_cases hreads : cmd.Reads
  · exact reads_concludes hreads
  cases cmd with
  | createRoom c =>
    simp only [Service.program, createRoom, map_eq, bind_eq, bind_assoc, ensures_require]
    refine ⟨fun _ => ?_, fun _ => .refused rfl⟩
    refine ensures_now fun t _ => ensures_fresh fun u _ _ => ensures_fresh fun v _ _ => ?_
    refine ensures_save hI id fun _ h => ?_
    refine ensures_posted hI (fun _ _ _ => .single (.room _ _ _ rfl)) ?_
    exact fun _ _ hw => hw
  | startRoom c => exact startRoom_concludes hI c
  | finishRoom c => exact finishRoom_concludes hI c
  | joinRoom c => exact joinRoom_concludes hI hk c
  | listenerHeartbeat c => exact listenerHeartbeat_concludes hI hk c
  | leaveListener c => exact leaveListener_concludes hI hk c
  | requestToSpeak c => exact requestToSpeak_concludes hI c
  | approveSpeakerRequest c => exact decideSpeakerRequest_concludes hI c fun _ _ _ _ _ => rfl
  | declineSpeakerRequest c => exact decideSpeakerRequest_concludes hI c fun _ _ _ _ _ => rfl
  | createSpeakerSession c => exact createSpeakerSession_concludes hI hk c
  | revokeSpeaker c => exact revokeSpeaker_concludes hI c
  | blockSpeaking c => exact blockSpeaking_concludes hI hk c
  | unblockSpeaking c => exact unblockSpeaking_concludes hI hk c
  | removeParticipant c => exact removeParticipant_concludes hI hk c
  | startRecording c => exact startRecording_concludes hI hk c
  | stopRecording c => exact stopRecording_concludes hI hk c
  | generateReport c => exact generateReport_concludes hI c
  | expireStaleListenerSessions cutoff limit correlationID =>
    exact expireStaleListenerSessions_concludes hI hk cutoff limit correlationID
  | closeRoomSessions roomID endedAt correlationID =>
    exact closeRoomSessions_concludes hI hk roomID endedAt correlationID
  | _ => cases hreads trivial

/-! ## Runs -/

section Serial

variable {s : Service} {I : Infra} {jobs : List VoiceJob} {p q : VoicePool}

/-- A command that ran alone from a state of some run. -/
theorem perform_concludes (hI : I.KeepsStore) (hk : p.state.Keyed) {job : VoiceJob}
    (h : (s.system I).perform job p = some q) (o : System.Outcome (s.system I) p job q) :
    Concludes s I p.state o.history o.result q.state :=
  System.perform_ensures h o (program_concludes hI hk job.1)

/-- **A sequential run is a sequence of postings.** -/
theorem serial_reaches (hI : I.KeepsStore) (h : (s.system I).serial jobs = some p) :
    Reaches s I World.empty.ledger p.state.ledger := by
  have hany : (s.system I).SerialOk (fun _ _ => True) jobs := fun _ _ _ _ _ _ => trivial
  refine System.serial_induction (I := fun p => Reaches s I World.empty.ledger p.state.ledger)
    .refl ?_ hany h
  intro jobs p job q hp hr _ hq
  obtain ⟨ms, hms⟩ := System.serial_isRun hp
  obtain ⟨o, -⟩ := System.perform_outcome hq (program_asks s job.1)
  exact hr.trans (perform_concludes hI (run_keyed hms) hq o).reaches

end Serial

end WaveCast
