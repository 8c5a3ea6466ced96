import WaveCast.Provenance

/-!
# The life of a record

Every table evolves (`Interaction.Evolves`): whatever the interleaving, a
record is created under a freshly drawn id and from then on only changed by the
steps of the commands. `RoomChange`, `SessionStep`, `RequestStep`, `BlockStep`
and `RecordingStep` are these steps; participant sessions have none.

* `rooms_evolve`, `sessions_evolve`, `participants_evolve`, `requests_evolve`,
  `blocks_evolve`, `recordings_evolve`: the tables of every run.
-/

namespace WaveCast

open Interaction Service

/-! ## The other parts of the world -/

section Tables

variable {I : Infra} {env : Env} {w w' : World}

private theorem step_other_tables {now : Time} {order order' : List String} {c : StoreCall}
    {st st' : Store} {a : Except AppError c.Result}
    (h : st.step now order order' c = some (a, st')) :
    st'.participantSessions =
      st.participantSessions.afterSave (savedParticipantSession ⟨.store c, a⟩) ∧
    st'.recordings = st.recordings.afterSave (savedRecording ⟨.store c, a⟩) ∧
    st'.reportsByRoom = st.reportsByRoom.afterSave (savedReport ⟨.store c, a⟩) := by
  cases c <;> simp only [Store.step, Option.map_eq_some_iff, Option.bind_eq_some_iff,
    Option.some.injEq, Prod.mk.injEq] at h
  case reportStats => obtain ⟨_, -, _, -, -, rfl⟩ := h; exact ⟨rfl, rfl, rfl⟩
  all_goals first
    | (obtain ⟨rfl, rfl⟩ := h; exact ⟨rfl, rfl, rfl⟩)
    | (obtain ⟨_, -, -, rfl⟩ := h; exact ⟨rfl, rfl, rfl⟩)

theorem World.exec_other_tables {e : Effect} {a : e.Answer}
    (h : World.exec I env e w = some (a, w')) :
    w'.store.participantSessions =
      w.store.participantSessions.afterSave (savedParticipantSession ⟨e, a⟩) ∧
    w'.store.recordings = w.store.recordings.afterSave (savedRecording ⟨e, a⟩) ∧
    w'.store.reportsByRoom = w.store.reportsByRoom.afterSave (savedReport ⟨e, a⟩) := by
  by_cases he : ∃ c, e = .store c
  · obtain ⟨c, rfl⟩ := he
    rcases World.exec_store h with ⟨rfl, rfl⟩ | ⟨st, hs, rfl⟩
    · cases c <;> exact ⟨rfl, rfl, rfl⟩
    · exact step_other_tables hs
  · have hst := World.exec_store_eq h fun c hc => he ⟨c, hc⟩
    rw [hst]
    cases e with
    | store c => exact absurd ⟨c, rfl⟩ he
    | _ => exact ⟨rfl, rfl, rfl⟩

/-- The event a call appended to the log. -/
def appendedEvent : VoiceExchange → Option VoiceEvent
  | ⟨.store (.appendEvent event), .ok _⟩ => some event
  | _ => none

/-- The event the bus accepted in a call. -/
def publishedEvent : VoiceExchange → Option VoiceEvent
  | ⟨.publish event, .ok _⟩ => some event
  | _ => none

theorem appendedEvent_eq_some {x : VoiceExchange} {event : VoiceEvent} :
    appendedEvent x = some event ↔ x = ⟨.store (.appendEvent event), .ok ()⟩ := by
  constructor
  · intro h
    unfold appendedEvent at h
    split at h
    · cases h; rfl
    · cases h
  · rintro rfl
    rfl

theorem publishedEvent_eq_some {x : VoiceExchange} {event : VoiceEvent} :
    publishedEvent x = some event ↔ x = ⟨.publish event, .ok ()⟩ := by
  constructor
  · intro h
    unfold publishedEvent at h
    split at h
    · cases h; rfl
    · cases h
  · rintro rfl
    rfl

private theorem step_events {now : Time} {order order' : List String} {c : StoreCall}
    {st st' : Store} {a : Except AppError c.Result}
    (h : st.step now order order' c = some (a, st')) :
    st'.events = st.events ++ (appendedEvent ⟨.store c, a⟩).toList := by
  cases c <;> simp only [Store.step, Option.map_eq_some_iff, Option.bind_eq_some_iff,
    Option.some.injEq, Prod.mk.injEq] at h
  case reportStats => obtain ⟨_, -, _, -, -, rfl⟩ := h; exact (List.append_nil _).symm
  case appendEvent => obtain ⟨rfl, rfl⟩ := h; rfl
  all_goals first
    | (obtain ⟨rfl, rfl⟩ := h; exact (List.append_nil _).symm)
    | (obtain ⟨_, -, -, rfl⟩ := h; exact (List.append_nil _).symm)

theorem World.exec_events {e : Effect} {a : e.Answer} (h : World.exec I env e w = some (a, w')) :
    w'.store.events = w.store.events ++ (appendedEvent ⟨e, a⟩).toList := by
  by_cases he : ∃ c, e = .store c
  · obtain ⟨c, rfl⟩ := he
    rcases World.exec_store h with ⟨rfl, rfl⟩ | ⟨st, hs, rfl⟩
    · cases c <;> exact (List.append_nil _).symm
    · exact step_events hs
  · rw [World.exec_store_eq h fun c hc => he ⟨c, hc⟩]
    cases e with
    | store c => exact absurd ⟨c, rfl⟩ he
    | _ => exact (List.append_nil _).symm

theorem World.exec_bus {e : Effect} {a : e.Answer} (h : World.exec I env e w = some (a, w')) :
    w'.bus = w.bus ++ (publishedEvent ⟨e, a⟩).toList := by
  cases e with
  | newID pfx =>
    obtain ⟨-, -, rfl⟩ := World.exec_newID h
    exact (List.append_nil _).symm
  | store c =>
    rcases World.exec_store h with ⟨-, rfl⟩ | ⟨st, -, rfl⟩ <;> exact (List.append_nil _).symm
  | publish event =>
    rcases World.exec_cases h with ⟨-, -, hf, rfl⟩ | ⟨-, h⟩
    · cases hf
      exact (List.append_nil _).symm
    · cases h
      rfl
  | _ =>
    rcases World.exec_cases h with ⟨-, -, -, rfl⟩ | ⟨-, h⟩
    · exact (List.append_nil _).symm
    · cases h
      exact (List.append_nil _).symm

/-- Only calls of the presence store change it. -/
theorem World.exec_presence {e : Effect} {a : e.Answer}
    (h : World.exec I env e w = some (a, w')) :
    w'.presence = w.presence ∨ ∃ c, e = .presence c ∧ w'.presence = (w.presence.step c).2 := by
  cases e with
  | newID pfx =>
    obtain ⟨-, -, rfl⟩ := World.exec_newID h
    exact .inl rfl
  | store c =>
    rcases World.exec_store h with ⟨-, rfl⟩ | ⟨st, -, rfl⟩ <;> exact .inl rfl
  | presence c =>
    rcases World.exec_cases h with ⟨-, -, -, rfl⟩ | ⟨-, h⟩
    · exact .inl rfl
    · cases h
      exact .inr ⟨c, rfl, rfl⟩
  | _ =>
    rcases World.exec_cases h with ⟨-, -, -, rfl⟩ | ⟨-, h⟩
    · exact .inl rfl
    · cases h
      exact .inl rfl

end Tables

section Stored

variable {s : Service} {I : Infra} {t : List VoiceEntry} {w : World}

abbrev participantSaves (e : VoiceEntry) : Option (String × ParticipantSession) :=
  savedParticipantSession e.exchange
abbrev recordingSaves (e : VoiceEntry) : Option (String × RoomRecording) :=
  savedRecording e.exchange
abbrev reportSaves (e : VoiceEntry) : Option (String × RoomReport) := savedReport e.exchange

theorem lookup_participantSessions (h : (s.system I).Replays t w) (k : String) :
    w.store.participantSessions.lookup k = lastWrite participantSaves k t :=
  lookup_eq_lastWrite (fun w => w.store.participantSessions) savedParticipantSession rfl
    (fun _ _ _ _ _ h => (World.exec_other_tables h).1) h k

theorem lookup_recordings (h : (s.system I).Replays t w) (k : String) :
    w.store.recordings.lookup k = lastWrite recordingSaves k t :=
  lookup_eq_lastWrite (fun w => w.store.recordings) savedRecording rfl
    (fun _ _ _ _ _ h => (World.exec_other_tables h).2.1) h k

theorem lookup_reports (h : (s.system I).Replays t w) (k : String) :
    w.store.reportsByRoom.lookup k = lastWrite reportSaves k t :=
  lookup_eq_lastWrite (fun w => w.store.reportsByRoom) savedReport rfl
    (fun _ _ _ _ _ h => (World.exec_other_tables h).2.2) h k

theorem savedParticipantSession_eq_some {x : VoiceExchange} {k : String}
    {session : ParticipantSession} : savedParticipantSession x = some (k, session) ↔
      x = ⟨.store (.saveParticipantSession session), .ok ()⟩ ∧ k = session.id := by
  constructor
  · intro h
    unfold savedParticipantSession at h
    split at h
    · cases h; exact ⟨rfl, rfl⟩
    · cases h
  · rintro ⟨rfl, rfl⟩
    rfl

theorem savedRecording_eq_some {x : VoiceExchange} {k : String} {recording : RoomRecording} :
    savedRecording x = some (k, recording) ↔
      x = ⟨.store (.saveRecording recording), .ok ()⟩ ∧ k = recording.id := by
  constructor
  · intro h
    unfold savedRecording at h
    split at h
    · cases h; exact ⟨rfl, rfl⟩
    · cases h
  · rintro ⟨rfl, rfl⟩
    rfl

theorem savedReport_eq_some {x : VoiceExchange} {k : String} {report : RoomReport} :
    savedReport x = some (k, report) ↔
      x = ⟨.store (.saveReport report), .ok ()⟩ ∧ k = report.roomID := by
  constructor
  · intro h
    unfold savedReport at h
    split at h
    · cases h; exact ⟨rfl, rfl⟩
    · cases h
  · rintro ⟨rfl, rfl⟩
    rfl

end Stored

/-! ## What the store returns -/

/-- The sessions a listing call may return. -/
def Lists (session : ListenerSession) : Effect → Prop
  | .store (.listActiveListenerSessions roomID) =>
      session.roomID = roomID ∧ session.status = .active
  | .store (.listActiveListenerSessionsByUser roomID userID) =>
      session.roomID = roomID ∧ session.userID = userID ∧ session.status = .active
  | .store (.listStaleListenerSessions cutoff _) =>
      session.status = .active ∧ session.lastHeartbeatAt < cutoff
  | _ => False

namespace World

variable {I : Infra} {env : Env} {w w' : World}

theorem exec_lists {e : Effect} {a : e.Answer} (h : exec I env e w = some (a, w'))
    {session : ListenerSession} (hs : session ∈ listedSessions ⟨e, a⟩) : Lists session e := by
  unfold listedSessions at hs
  split at hs
  · rename_i heq; cases heq
    obtain ⟨st, hst, -⟩ := exec_store_ok h
    obtain ⟨xs, -, hr⟩ := Option.map_eq_some_iff.mp hst
    cases hr
    simpa [Lists] using (List.mem_filter.mp hs).2
  · rename_i heq; cases heq
    obtain ⟨st, hst, -⟩ := exec_store_ok h
    obtain ⟨xs, -, hr⟩ := Option.map_eq_some_iff.mp hst
    cases hr
    simpa [Lists, and_assoc] using (List.mem_filter.mp hs).2
  · rename_i heq; cases heq
    obtain ⟨st, hst, -⟩ := exec_store_ok h
    obtain ⟨xs, -, hr⟩ := Option.map_eq_some_iff.mp hst
    cases hr
    split at hs
    · simpa [Lists] using (List.mem_filter.mp (List.mem_of_mem_take hs)).2
    · simpa [Lists] using (List.mem_filter.mp hs).2
  · cases hs

theorem exec_getRecording {recordingID : String} {recording : RoomRecording}
    (h : exec I env (.store (.getRecording recordingID)) w = some (.ok recording, w')) :
    w.store.recordings.lookup recordingID = some recording := by
  obtain ⟨st, hs, -⟩ := exec_store_ok h
  simp only [Store.step, Option.some.injEq, Prod.mk.injEq, found_eq_ok] at hs
  exact hs.1

theorem exec_getActiveSpeakingBlock {roomID userID : String} {block : SpeakingBlock}
    (h : exec I env (.store (.getActiveSpeakingBlock roomID userID)) w = some (.ok block, w')) :
    (∃ k, w.store.speakingBlocks.lookup k = some block) ∧ block.roomID = roomID ∧
      block.userID = userID ∧ block.unblockedAt = none := by
  obtain ⟨st, hs, -⟩ := exec_store_ok h
  obtain ⟨blocks, hr, hf⟩ := Option.map_eq_some_iff.mp hs
  have hf := found_eq_ok.mp (Prod.mk.inj hf).1
  have hp := List.find?_some hf
  simp only [Bool.and_eq_true, decide_eq_true_eq] at hp
  exact ⟨(Table.mem_range hr block).mp (List.mem_of_find?_eq_some hf), hp.1.1, hp.1.2, hp.2⟩

end World

/-! ## Reads in a history -/

section Reads

variable {s : Service} {I : Infra} {t : List VoiceEntry} {w : World} {i : ℕ}

/-- What the history of a thread says was executed in some earlier state. -/
theorem read_executed (h : (s.system I).Replays t w) {x : VoiceExchange}
    (hx : x ∈ threadHistory i t) : ∃ env newer older w₀ w₁, t = newer ++ older ∧
      (s.system I).Replays older w₀ ∧ World.exec I env x.call w₀ = some (x.answer, w₁) := by
  obtain ⟨mid, r, rest, rfl, -, rfl⟩ := exists_read hx
  obtain ⟨w₁, w₀, h₀, he⟩ := h.of_append
  exact ⟨r.env, mid ++ [r], rest, w₀, w₁, List.append_cons mid r rest, h₀, he⟩

theorem room_read_id (h : (s.system I).Replays t w) {roomID : String} {room : Room}
    (hx : ⟨.store (.getRoom roomID), .ok room⟩ ∈ threadHistory i t) : room.id = roomID :=
  was_stored_room_id (room_was_stored (rooms_coherent h) hx)

theorem session_was_stored (h : (s.system I).Replays t w) {sessionID : String}
    {session : ListenerSession}
    (hx : ⟨.store (.getListenerSession sessionID), .ok session⟩ ∈ threadHistory i t) :
    WasStored sessionSaves t sessionID session ∧ session.id = sessionID := by
  obtain ⟨r, hr, -, hr'⟩ := mem_threadHistory.mp hx
  have hs := (sessions_coherent h).wasStored hr (readListenerSession_eq_some.mpr hr')
  obtain ⟨_, _, -, hl⟩ := id hs
  exact ⟨hs, stored_session_id hl⟩

theorem session_was_listed (h : (s.system I).Replays t w) {x : VoiceExchange}
    (hx : x ∈ threadHistory i t) {session : ListenerSession} (hs : session ∈ listedSessions x) :
    WasStored sessionSaves t session.id session ∧ Lists session x.call := by
  obtain ⟨env, newer, older, w₀, w₁, rfl, h₀, he⟩ := read_executed h hx
  obtain ⟨k, hk⟩ := World.exec_listed he hs
  rw [lookup_listenerSessions h₀] at hk
  obtain rfl := stored_session_id hk
  exact ⟨⟨newer, older, rfl, hk⟩, World.exec_lists he hs⟩

theorem block_was_stored (h : (s.system I).Replays t w) {roomID userID : String}
    {block : SpeakingBlock} (hx : ⟨.store (.getActiveSpeakingBlock roomID userID), .ok block⟩ ∈
      threadHistory i t) :
    WasStored blockSaves t block.id block ∧ block.roomID = roomID ∧ block.userID = userID ∧
      block.unblockedAt = none := by
  obtain ⟨env, newer, older, w₀, w₁, rfl, h₀, he⟩ := read_executed h hx
  obtain ⟨⟨k, hk⟩, hb⟩ := World.exec_getActiveSpeakingBlock he
  rw [lookup_speakingBlocks h₀] at hk
  obtain ⟨e, -, hw⟩ := exists_write_of_lastWrite hk
  obtain rfl := (savedSpeakingBlock_eq_some.mp hw).2
  exact ⟨⟨newer, older, rfl, hk⟩, hb⟩

theorem recording_was_stored (h : (s.system I).Replays t w) {recordingID : String}
    {recording : RoomRecording}
    (hx : ⟨.store (.getRecording recordingID), .ok recording⟩ ∈ threadHistory i t) :
    WasStored recordingSaves t recordingID recording ∧ recording.id = recordingID := by
  obtain ⟨env, newer, older, w₀, w₁, rfl, h₀, he⟩ := read_executed h hx
  have hk := World.exec_getRecording he
  rw [lookup_recordings h₀] at hk
  obtain ⟨e, -, hw⟩ := exists_write_of_lastWrite hk
  exact ⟨⟨newer, older, rfl, hk⟩, (savedRecording_eq_some.mp hw).2.symm⟩

end Reads

/-! ## Steps -/

/-- `roomID` was drawn as the id of a room. -/
def IssuedRoom (t : List VoiceEntry) (roomID : String) : Prop :=
  ∃ e ∈ t, idDraws prefixRoom e = some roomID

theorem IssuedRoom.cons {t : List VoiceEntry} {roomID : String} (e : VoiceEntry)
    (h : IssuedRoom t roomID) : IssuedRoom (e :: t) roomID := by
  obtain ⟨d, hd, h⟩ := h
  exact ⟨d, by simp [hd], h⟩

def NewRoom (s : Service) (_older : List VoiceEntry) (e : VoiceEntry) (room : Room) : Prop :=
  ∃ c t streamID, e.cmd = .createRoom c ∧ trimSpace c.ownerID ≠ "" ∧
    room = s.draftRoom c room.id streamID t

def NewSession (older : List VoiceEntry) (e : VoiceEntry) (session : ListenerSession) : Prop :=
  ∃ c t room, e.cmd = .joinRoom c ∧ room.id = c.roomID ∧ IssuedRoom older c.roomID ∧
    session = newListenerSession room c.userID session.id t

/-- What a command does to a stored listener session. -/
def SessionStep (session₀ session : ListenerSession) : Command → Prop
  | .listenerHeartbeat c => session₀.id = c.sessionID ∧
      SessionChange session₀ session (.listenerHeartbeat c)
  | .leaveListener c => session₀.id = c.sessionID ∧
      SessionChange session₀ session (.leaveListener c)
  | .removeParticipant c => session₀.roomID = c.roomID ∧ session₀.userID = c.targetUserID ∧
      c.actorUserID ≠ "" ∧ ∃ t, session = removedSession session₀ c t
  | .expireStaleListenerSessions _ _ _ =>
      ∃ t, session = endedSession session₀ .expired "heartbeat_timeout" t
  | .closeRoomSessions roomID endedAt _ => session₀.roomID = roomID ∧
      session = endedSession session₀ .left "room_finished" endedAt
  | _ => False

def NewParticipantSession (_older : List VoiceEntry) (e : VoiceEntry)
    (session : ParticipantSession) : Prop :=
  ∃ roomID userID room role t, roomScope e.cmd = some roomID ∧ room.id = roomID ∧
    session = newParticipantSession room userID role session.id t

def NewRequest (_older : List VoiceEntry) (e : VoiceEntry) (request : SpeakerRequest) : Prop :=
  ∃ c t room, e.cmd = .requestToSpeak c ∧ room.id = c.roomID ∧
    request = pendingRequest room c.userID request.id t

/-- What a command does to a stored speaker request. -/
def RequestStep (request₀ request : SpeakerRequest) (cmd : Command) : Prop :=
  ∃ c status t, decision cmd = some (c, status) ∧ request₀.id = c.requestID ∧
    request₀.roomID = c.roomID ∧ request₀.status = .pending ∧ c.actorUserID ≠ "" ∧
    request = decidedRequest request₀ c status t

def NewBlock (_older : List VoiceEntry) (e : VoiceEntry) (block : SpeakingBlock) : Prop :=
  ∃ c t room, e.cmd = .blockSpeaking c ∧ room.id = c.roomID ∧
    block = newBlock room c block.id t

/-- What a command does to a stored speaking block. -/
def BlockStep (block₀ block : SpeakingBlock) : Command → Prop
  | .unblockSpeaking c => block₀.roomID = c.roomID ∧ block₀.userID = c.targetUserID ∧
      block₀.unblockedAt = none ∧ c.actorUserID ≠ "" ∧ ∃ t, block = liftedBlock block₀ c t
  | _ => False

def NewRecording (s : Service) (_older : List VoiceEntry) (e : VoiceEntry)
    (recording : RoomRecording) : Prop :=
  ∃ c t room, e.cmd = .startRecording c ∧ room.id = c.roomID ∧
    recording = s.startedRecording room recording.id t

/-- What a command does to a stored recording. -/
def RecordingStep (s : Service) (recording₀ recording : RoomRecording) : Command → Prop
  | .stopRecording c => recording₀.id = c.recordingID ∧ recording₀.roomID = c.roomID ∧
      ∃ t, recording = s.completedRecording recording₀ t
  | _ => False

/-! ## The tables evolve -/

section Evolve

variable {s : Service} {I : Infra} {ms : List VoiceMove} {p : VoicePool}

theorem rooms_evolve (h : (s.system I).run ms = some p) :
    Evolves roomSaves (idDraws prefixRoom) client (NewRoom s)
      (fun e room₀ room => RoomChange room₀ room e.cmd) p.trace := by
  refine (room_saved h).mono fun older e hs k room hw => ?_
  rcases hs k room hw with ⟨c, t, streamID, hcmd, howner, hroom, hc⟩ |
    ⟨mid, r, rest, room₀, rfl, -, -, hl, hch, -⟩
  · obtain ⟨-, rfl⟩ := savedRoom_eq_some.mp hw
    exact .inl ⟨hc, c, t, streamID, hcmd, howner, hroom⟩
  · exact .inr ⟨room₀, ⟨mid ++ [r], rest, List.append_cons mid r rest, hl⟩, hch⟩

/-- A room that was read was issued. -/
theorem room_read_issued (h : (s.system I).run ms = some p) {i : ℕ} {roomID : String}
    {room : Room} (hx : ⟨.store (.getRoom roomID), .ok room⟩ ∈ threadHistory i p.trace) :
    IssuedRoom p.trace roomID :=
  (rooms_evolve h).drawn (room_was_stored (rooms_coherent (System.run_replays h)) hx).ne_none

/-- **Rule for the calls of a run**: each is made as both protocols allow, in a
pool that a run has reached. -/
theorem run_calls {P : List VoiceEntry → VoiceEntry → Prop} (h : (s.system I).run ms = some p)
    (hP : ∀ ms' q e, (s.system I).run ms' = some q →
      Asks s e.cmd (threadHistory e.thread q.trace) e.exchange.call →
      Accounts s e.cmd (threadHistory e.thread q.trace) e.exchange.call → P q.trace e) :
    Always P p.trace := by
  rw [always_iff]
  intro newer e older ht
  have htrace : p.trace = (newer ++ [e]) ++ older := by simp [ht]
  obtain ⟨n, q, hq, rfl⟩ := System.run_prefix h htrace
  have hall := (run_asks h).and (run_accounts h)
  rw [ht] at hall
  exact hP _ q e hq hall.at.1 hall.at.2

theorem sessions_evolve (h : (s.system I).run ms = some p) :
    Evolves sessionSaves (idDraws prefixListenerSession) client NewSession
      (fun e session₀ session => SessionStep session₀ session e.cmd) p.trace := by
  refine run_calls h fun ms' q ⟨i, cmd, env, x⟩ hq hasks _ k session hw => ?_
  obtain ⟨hx, rfl⟩ := savedListenerSession_eq_some.mp hw
  obtain rfl : x = _ := hx
  have hrep := System.run_replays hq
  have hsave : SavesListenerSession (threadHistory i q.trace) session cmd := hasks
  have listed : ∀ {x session₀}, x ∈ threadHistory i q.trace →
      session₀ ∈ listedSessions x → session.id = session₀.id →
      (Lists session₀ x.call → SessionStep session₀ session cmd) →
      ∃ session₀, WasStored sessionSaves q.trace session.id session₀ ∧
        SessionStep session₀ session cmd := by
    intro x session₀ hx hs hid hstep
    obtain ⟨hstored, hl⟩ := session_was_listed hrep hx hs
    exact ⟨session₀, hid ▸ hstored, hstep hl⟩
  cases cmd with
  | joinRoom c =>
    obtain ⟨t, sessionID, room, hh, -, rfl⟩ := hsave
    have hread : ⟨.store (.getRoom c.roomID), .ok room⟩ ∈ threadHistory i q.trace := by
      simp [hh]
    exact .inl ⟨creates_of_draw (by simp [hh, newListenerSession])
      (by simp [hh, savedListenerSession]), c, t, room, rfl, room_read_id hrep hread,
      room_read_issued hq hread, rfl⟩
  | listenerHeartbeat c =>
    obtain ⟨t, session₀, hh, hr, hu, ha, rfl⟩ := hsave
    obtain ⟨hs, hid⟩ := session_was_stored hrep (show
      ⟨.store (.getListenerSession c.sessionID), .ok session₀⟩ ∈ threadHistory i q.trace by
        simp [hh])
    exact .inr ⟨session₀, hid ▸ hs, hid, hr, hu, ha, t, rfl⟩
  | leaveListener c =>
    obtain ⟨t, session₀, hh, hr, hu, rfl⟩ := hsave
    obtain ⟨hs, hid⟩ := session_was_stored hrep (show
      ⟨.store (.getListenerSession c.sessionID), .ok session₀⟩ ∈ threadHistory i q.trace by
        simp [hh])
    exact .inr ⟨session₀, hid ▸ hs, hid, hr, hu, t, rfl⟩
  | removeParticipant c =>
    obtain ⟨t, room, sessions, session₀, hread, hm, hl, -, hs, rfl⟩ := hsave
    refine .inr (listed hl hs rfl fun hlist => ?_)
    exact ⟨hlist.1.trans (room_read_id hrep hread), hlist.2.1, hm.1, t, rfl⟩
  | expireStaleListenerSessions cutoff limit correlationID =>
    obtain ⟨t, sessions, session₀, hl, -, hs, rfl⟩ := hsave
    exact .inr (listed hl hs rfl fun _ => ⟨t, rfl⟩)
  | closeRoomSessions roomID endedAt correlationID =>
    obtain ⟨sessions, session₀, hl, hs, rfl⟩ := hsave
    exact .inr (listed hl hs rfl fun hlist => ⟨hlist.1, rfl⟩)
  | _ => cases hsave

theorem participants_evolve (h : (s.system I).run ms = some p) :
    Evolves participantSaves (idDraws prefixParticipant) client NewParticipantSession
      (fun _ _ _ => False) p.trace := by
  refine run_calls h fun ms' q ⟨i, cmd, env, x⟩ hq _ hacc k session hw => ?_
  obtain ⟨hx, rfl⟩ := savedParticipantSession_eq_some.mp hw
  have hsave : SavesParticipant (threadHistory i q.trace) session cmd := by
    rwa [show x = _ from hx] at hacc
  have new : ∀ roomID userID, roomScope cmd = some roomID →
      NewParticipant (threadHistory i q.trace) roomID userID session →
      Creates participantSaves (idDraws prefixParticipant) client q.trace
          ⟨i, cmd, env, x⟩ session.id ∧
        NewParticipantSession q.trace ⟨i, cmd, env, x⟩ session := by
    rintro roomID userID hscope ⟨t, id, role, room, hd, hread, rfl, hno⟩
    exact ⟨creates_of_draw hd hno, roomID, userID, room, role, t, hscope,
      room_read_id (System.run_replays hq) hread, rfl⟩
  cases cmd with
  | joinRoom c => exact .inl (new c.roomID c.userID rfl hsave)
  | createSpeakerSession c => exact .inl (new c.roomID c.userID rfl hsave)
  | _ => cases hsave

theorem requests_evolve (h : (s.system I).run ms = some p) :
    Evolves requestSaves (idDraws prefixSpeakerRequest) client NewRequest
      (fun e request₀ request => RequestStep request₀ request e.cmd) p.trace := by
  refine run_calls h fun ms' q ⟨i, cmd, env, x⟩ hq hasks _ k request hw => ?_
  obtain ⟨hx, rfl⟩ := savedSpeakerRequest_eq_some.mp hw
  obtain rfl : x = _ := hx
  have hrep := System.run_replays hq
  have hsave : SavesSpeakerRequest (threadHistory i q.trace) request cmd := hasks
  have decided : ∀ c status, decision cmd = some (c, status) →
      Decides (threadHistory i q.trace) request c status →
      ∃ request₀, WasStored requestSaves q.trace request.id request₀ ∧
        RequestStep request₀ request cmd := by
    rintro c status hd ⟨t, room, request₀, hh, hm, hr, hp, rfl⟩
    have hreq := request_was_stored (requests_coherent hrep) (show
      ⟨.store (.getSpeakerRequest c.requestID), .ok request₀⟩ ∈ threadHistory i q.trace by
        simp [hh])
    obtain ⟨_, _, -, hl⟩ := id hreq
    have hid := stored_request_id hl
    have hroom := room_read_id hrep (show
      ⟨.store (.getRoom c.roomID), .ok room⟩ ∈ threadHistory i q.trace by simp [hh])
    exact ⟨request₀, hid ▸ hreq, c, status, t, hd, hid, hr.trans hroom, hp, hm.1, rfl⟩
  cases cmd with
  | requestToSpeak c =>
    obtain ⟨t, id, room, hh, -, rfl⟩ := hsave
    have hread : ⟨.store (.getRoom c.roomID), .ok room⟩ ∈ threadHistory i q.trace := by
      simp [hh]
    exact .inl ⟨creates_of_draw (by simp [hh, pendingRequest])
      (by simp [hh, savedSpeakerRequest]), c, t, room, rfl,
      room_read_id hrep hread, rfl⟩
  | approveSpeakerRequest c =>
    exact .inr (decided c .approved rfl hsave)
  | declineSpeakerRequest c =>
    exact .inr (decided c .declined rfl hsave)
  | _ => cases hsave

theorem blocks_evolve (h : (s.system I).run ms = some p) :
    Evolves blockSaves (idDraws prefixSpeakingBlock) client NewBlock
      (fun e block₀ block => BlockStep block₀ block e.cmd) p.trace := by
  refine run_calls h fun ms' q ⟨i, cmd, env, x⟩ hq hasks _ k block hw => ?_
  obtain ⟨hx, rfl⟩ := savedSpeakingBlock_eq_some.mp hw
  obtain rfl : x = _ := hx
  have hrep := System.run_replays hq
  have hsave : SavesSpeakingBlock (threadHistory i q.trace) block cmd := hasks
  cases cmd with
  | blockSpeaking c =>
    obtain ⟨t, id, room, hh, hm, rfl⟩ := hsave
    have hread : ⟨.store (.getRoom c.roomID), .ok room⟩ ∈ threadHistory i q.trace := by
      simp [hh]
    exact .inl ⟨creates_of_draw (by simp [hh, newBlock])
      (by simp [hh, savedSpeakingBlock]), c, t, room, rfl,
      room_read_id hrep hread, rfl⟩
  | unblockSpeaking c =>
    obtain ⟨t, room, block₀, hh, hm, rfl⟩ := hsave
    have hread : ⟨.store (.getRoom c.roomID), .ok room⟩ ∈ threadHistory i q.trace := by
      simp [hh]
    obtain ⟨hstored, hr, hu, ha⟩ := block_was_stored hrep (show
      ⟨.store (.getActiveSpeakingBlock room.id c.targetUserID), .ok block₀⟩ ∈
        threadHistory i q.trace by simp [hh])
    exact .inr ⟨block₀, hstored, hr.trans (room_read_id hrep hread), hu, ha, hm.1, t, rfl⟩
  | _ => cases hsave

theorem recordings_evolve (h : (s.system I).run ms = some p) :
    Evolves recordingSaves (idDraws prefixRecording) client (NewRecording s)
      (fun e recording₀ recording => RecordingStep s recording₀ recording e.cmd) p.trace := by
  refine run_calls h fun ms' q ⟨i, cmd, env, x⟩ hq _ hacc k recording hw => ?_
  obtain ⟨hx, rfl⟩ := savedRecording_eq_some.mp hw
  obtain rfl : x = _ := hx
  have hrep := System.run_replays hq
  have hsave : SavesRecording s (threadHistory i q.trace) recording cmd := hacc
  cases cmd with
  | startRecording c =>
    obtain ⟨t, id, room, hh, rfl⟩ := hsave
    have hread : ⟨.store (.getRoom c.roomID), .ok room⟩ ∈ threadHistory i q.trace := by
      simp [hh]
    exact .inl ⟨creates_of_draw (by simp [hh, startedRecording])
      (by simp [hh, savedRecording]), c, t, room, rfl,
      room_read_id hrep hread, rfl⟩
  | stopRecording c =>
    obtain ⟨t, room, recording₀, hh, hr, rfl⟩ := hsave
    have hread : ⟨.store (.getRoom c.roomID), .ok room⟩ ∈ threadHistory i q.trace := by
      simp [hh]
    obtain ⟨hstored, hid⟩ := recording_was_stored hrep (show
      ⟨.store (.getRecording c.recordingID), .ok recording₀⟩ ∈ threadHistory i q.trace by
        simp [hh])
    exact .inr ⟨recording₀, hid ▸ hstored, hid, hr.trans (room_read_id hrep hread), t, rfl⟩
  | _ => cases hsave

end Evolve

end WaveCast
