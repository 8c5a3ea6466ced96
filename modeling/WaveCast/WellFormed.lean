import WaveCast.Lineage

/-!
# Stored records are well formed

The statuses, times and actors of every stored record fit together, and its
identifying fields are those of its first save, whatever the interleaving and
whatever fails (`records_well_formed`). Commands write whole records back from
stale reads, so each invariant speaks of one record alone and is kept by every
step from every record that was ever stored.
-/

namespace WaveCast

open Interaction

/-! ## What a well-formed record is -/

structure Room.WellFormed (room : Room) : Prop where
  status : room.status = .draft ∨ room.status = .live ∨ room.status = .finished
  draft : room.status = .draft → room.startedAt = none ∧ room.endedAt = none
  live : room.status = .live → room.startedAt.isSome ∧ room.endedAt = none
  finished : room.status = .finished →
    room.startedAt.isSome ∧ room.endedAt.isSome ∧ room.endedBy ≠ ""

structure ListenerSession.WellFormed (session : ListenerSession) : Prop where
  active : session.status = .active ↔ session.leftAt = none
  removed : session.status = .removed → session.removedBy ≠ ""

structure SpeakerRequest.WellFormed (request : SpeakerRequest) : Prop where
  decidedAt : request.status = .pending ↔ request.decidedAt = none
  decidedBy : request.status = .pending ↔ request.decidedBy = ""

structure SpeakingBlock.WellFormed (block : SpeakingBlock) : Prop where
  unblocked : block.unblockedAt = none ↔ block.unblockedBy = ""

structure RoomRecording.WellFormed (recording : RoomRecording) : Prop where
  status : recording.status = .started ∨ recording.status = .completed
  completed : recording.status = .completed ↔ recording.endedAt.isSome

structure Store.WellFormed (store : Store) : Prop where
  rooms : ∀ k room, store.rooms.lookup k = some room → room.WellFormed
  listenerSessions : ∀ k session, store.listenerSessions.lookup k = some session →
    session.WellFormed
  speakerRequests : ∀ k request, store.speakerRequests.lookup k = some request →
    request.WellFormed
  speakingBlocks : ∀ k block, store.speakingBlocks.lookup k = some block → block.WellFormed
  recordings : ∀ k recording, store.recordings.lookup k = some recording → recording.WellFormed

/-! ## What identifies a record -/

/-- The fields of a room that identify it, with its owner, admins and moderators. -/
def Room.identity (room : Room) : String × String × List String × List String × String × Time :=
  (room.id, room.ownerID, room.adminIDs, room.moderatorIDs, room.liveKitRoomName, room.createdAt)

def ListenerSession.identity (session : ListenerSession) :
    String × String × String × Time × Time :=
  (session.id, session.roomID, session.userID, session.joinedAt, session.createdAt)

def ParticipantSession.identity (session : ParticipantSession) :
    String × String × String × Time :=
  (session.id, session.roomID, session.userID, session.joinedAt)

def SpeakerRequest.identity (request : SpeakerRequest) : String × String × String × Time :=
  (request.id, request.roomID, request.userID, request.requestedAt)

def SpeakingBlock.identity (block : SpeakingBlock) : String × String × String × Time :=
  (block.id, block.roomID, block.userID, block.blockedAt)

def RoomRecording.identity (recording : RoomRecording) : String × String × Time × Time :=
  (recording.id, recording.roomID, recording.startedAt, recording.createdAt)

/-- Every record of `t` is still in `t'`, and still the same one. -/
def Table.KeepsIdentity {V ι : Type} (ident : V → ι) (t t' : Table V) : Prop :=
  ∀ k v, t.lookup k = some v → ∃ v', t'.lookup k = some v' ∧ ident v' = ident v

structure Store.KeepsIdentity (store store' : Store) : Prop where
  rooms : Table.KeepsIdentity Room.identity store.rooms store'.rooms
  listenerSessions : Table.KeepsIdentity ListenerSession.identity
    store.listenerSessions store'.listenerSessions
  participantSessions : Table.KeepsIdentity ParticipantSession.identity
    store.participantSessions store'.participantSessions
  speakerRequests : Table.KeepsIdentity SpeakerRequest.identity
    store.speakerRequests store'.speakerRequests
  speakingBlocks : Table.KeepsIdentity SpeakingBlock.identity
    store.speakingBlocks store'.speakingBlocks
  recordings : Table.KeepsIdentity RoomRecording.identity store.recordings store'.recordings

/-! ## The steps keep both -/

section Steps

variable {s : Service} {older : List VoiceEntry} {e : VoiceEntry} {cmd : Command}

theorem NewRoom.wellFormed {room : Room} (h : NewRoom s older e room) : room.WellFormed := by
  obtain ⟨c, t, streamID, -, -, hroom⟩ := h
  rw [hroom]
  exact ⟨.inl rfl, fun _ => ⟨rfl, rfl⟩, fun h => (nomatch h), fun h => (nomatch h)⟩

theorem RoomChange.wellFormed {room₀ room : Room} (h : RoomChange room₀ room cmd)
    (h₀ : room₀.WellFormed) : room.WellFormed := by
  obtain ⟨hst, hdraft, hlive, hfinished⟩ := h₀
  cases cmd with
  | startRoom c =>
    obtain ⟨-, -, hd | hd, t, rfl⟩ := h
    · exact ⟨.inr (.inl rfl), fun h => (nomatch h), fun _ => ⟨rfl, (hdraft hd).2⟩,
        fun h => (nomatch h)⟩
    · rcases hst with h | h | h <;> rw [hd] at h <;> cases h
  | finishRoom c =>
    obtain ⟨-, hm, hl | hl, t, rfl⟩ := h
    · exact ⟨.inr (.inr rfl), fun h => (nomatch h), fun h => (nomatch h),
        fun _ => ⟨(hlive hl).1, rfl, hm.1⟩⟩
    · rcases hst with h | h | h <;> rw [hl] at h <;> cases h
  | startRecording c =>
    obtain ⟨-, -, -, t, id, rfl⟩ := h
    exact ⟨hst, hdraft, hlive, hfinished⟩
  | stopRecording c =>
    obtain ⟨-, -, t, rfl⟩ := h
    exact ⟨hst, hdraft, hlive, hfinished⟩
  | _ => cases h

theorem NewSession.wellFormed {session : ListenerSession} (h : NewSession older e session) :
    session.WellFormed := by
  obtain ⟨c, t, room, -, -, -, hsession⟩ := h
  rw [hsession]
  exact ⟨by simp [newListenerSession], by simp [newListenerSession]⟩

/-- A step touches a session, ends it, or removes its user. -/
theorem SessionStep.cases {session₀ session : ListenerSession}
    (h : SessionStep session₀ session cmd) :
    (∃ t, session = touchedSession session₀ t) ∨
    (∃ status leaveType t, status ≠ .active ∧ status ≠ .removed ∧
      session = endedSession session₀ status leaveType t) ∨
    ∃ c t, c.actorUserID ≠ "" ∧ session = removedSession session₀ c t := by
  cases cmd with
  | listenerHeartbeat c =>
    obtain ⟨-, -, -, -, t, hs⟩ := h
    exact .inl ⟨t, hs⟩
  | leaveListener c =>
    obtain ⟨-, -, -, t, hs⟩ := h
    exact .inr (.inl ⟨_, _, t, by decide, by decide, hs⟩)
  | removeParticipant c =>
    obtain ⟨-, -, hactor, t, hs⟩ := h
    exact .inr (.inr ⟨c, t, hactor, hs⟩)
  | expireStaleListenerSessions cutoff limit correlationID =>
    obtain ⟨t, hs⟩ := h
    exact .inr (.inl ⟨_, _, t, by decide, by decide, hs⟩)
  | closeRoomSessions roomID endedAt correlationID =>
    exact .inr (.inl ⟨_, _, endedAt, by decide, by decide, h.2⟩)
  | _ => cases h

theorem SessionStep.wellFormed {session₀ session : ListenerSession}
    (h : SessionStep session₀ session cmd) (h₀ : session₀.WellFormed) : session.WellFormed := by
  obtain ⟨hactive, hremoved⟩ := h₀
  rcases h.cases with ⟨t, rfl⟩ | ⟨status, leaveType, t, ha, hr, rfl⟩ | ⟨c, t, hactor, rfl⟩
  · exact ⟨hactive, hremoved⟩
  · exact ⟨by simp [endedSession, ha], by simp [endedSession, hr]⟩
  · exact ⟨by simp [removedSession], fun _ => hactor⟩

theorem NewRequest.wellFormed {request : SpeakerRequest} (h : NewRequest older e request) :
    request.WellFormed := by
  obtain ⟨c, t, room, -, -, hrequest⟩ := h
  rw [hrequest]
  exact ⟨by simp [pendingRequest], by simp [pendingRequest]⟩

theorem RequestStep.wellFormed {request₀ request : SpeakerRequest}
    (h : RequestStep request₀ request cmd) : request.WellFormed := by
  obtain ⟨c, status, t, hd, -, -, -, hactor, rfl⟩ := h
  have hst := decision_ne_pending hd
  exact ⟨by simp [decidedRequest, hst], by simp [decidedRequest, hst, hactor]⟩

theorem NewBlock.wellFormed {block : SpeakingBlock} (h : NewBlock older e block) :
    block.WellFormed := by
  obtain ⟨c, t, room, -, -, hblock⟩ := h
  rw [hblock]
  exact ⟨by simp [newBlock]⟩

theorem BlockStep.wellFormed {block₀ block : SpeakingBlock} (h : BlockStep block₀ block cmd) :
    block.WellFormed := by
  cases cmd with
  | unblockSpeaking c =>
    obtain ⟨-, -, -, hactor, t, rfl⟩ := h
    exact ⟨by simp [liftedBlock, hactor]⟩
  | _ => cases h

theorem NewRecording.wellFormed {recording : RoomRecording}
    (h : NewRecording s older e recording) : recording.WellFormed := by
  obtain ⟨c, t, room, -, -, hrecording⟩ := h
  rw [hrecording]
  exact ⟨.inl rfl, by simp [Service.startedRecording]⟩

theorem RecordingStep.wellFormed {recording₀ recording : RoomRecording}
    (h : RecordingStep s recording₀ recording cmd) : recording.WellFormed := by
  cases cmd with
  | stopRecording c =>
    obtain ⟨-, -, t, rfl⟩ := h
    exact ⟨.inr rfl, by simp [Service.completedRecording]⟩
  | _ => cases h

theorem RoomChange.identity_eq {room₀ room : Room} (h : RoomChange room₀ room cmd) :
    room.identity = room₀.identity := by
  rw [h.frame]
  rfl

theorem SessionStep.identity_eq {session₀ session : ListenerSession}
    (h : SessionStep session₀ session cmd) : session.identity = session₀.identity := by
  rcases h.cases with ⟨t, rfl⟩ | ⟨status, leaveType, t, -, -, rfl⟩ | ⟨c, t, -, rfl⟩ <;> rfl

theorem RequestStep.identity_eq {request₀ request : SpeakerRequest}
    (h : RequestStep request₀ request cmd) : request.identity = request₀.identity := by
  obtain ⟨c, status, t, -, -, -, -, -, rfl⟩ := h
  rfl

theorem BlockStep.identity_eq {block₀ block : SpeakingBlock} (h : BlockStep block₀ block cmd) :
    block.identity = block₀.identity := by
  cases cmd with
  | unblockSpeaking c => obtain ⟨-, -, -, -, t, rfl⟩ := h; rfl
  | _ => cases h

theorem RecordingStep.identity_eq {recording₀ recording : RoomRecording}
    (h : RecordingStep s recording₀ recording cmd) :
    recording.identity = recording₀.identity := by
  cases cmd with
  | stopRecording c => obtain ⟨-, -, t, rfl⟩ := h; rfl
  | _ => cases h

end Steps

/-! ## Every run -/

section Run

variable {s : Service} {I : Infra} {ms : List VoiceMove} {p : VoicePool}

/-- A property of every new record that every step keeps holds of every record
ever stored. -/
theorem evolves_property {V : Type} {saves : VoiceEntry → Option (String × V)}
    {draws : VoiceEntry → Option String} {new : List VoiceEntry → VoiceEntry → V → Prop}
    {step : VoiceEntry → V → V → Prop} {t : List VoiceEntry} {P : V → Prop}
    (h : Evolves saves draws client new step t) (hnew : ∀ older e v, new older e v → P v)
    (hstep : ∀ e v₀ v, P v₀ → step e v₀ v → P v) {k : String} {v : V}
    (hv : lastWrite saves k t = some v) : P v :=
  h.invariant (I := fun _ v => P v) (fun _ _ _ => id) hnew (fun _ => hstep) (.now hv)

theorem run_wellFormed (h : (s.system I).run ms = some p) : p.state.store.WellFormed := by
  have hrep := System.run_replays h
  constructor
  · intro k room hk
    rw [lookup_rooms hrep] at hk
    exact evolves_property (rooms_evolve h) (fun _ _ _ hn => hn.wellFormed)
      (fun _ _ _ h₀ hst => hst.wellFormed h₀) hk
  · intro k session hk
    rw [lookup_listenerSessions hrep] at hk
    exact evolves_property (sessions_evolve h) (fun _ _ _ hn => hn.wellFormed)
      (fun _ _ _ h₀ hst => hst.wellFormed h₀) hk
  · intro k request hk
    rw [lookup_speakerRequests hrep] at hk
    exact evolves_property (requests_evolve h) (fun _ _ _ hn => hn.wellFormed)
      (fun _ _ _ _ hst => hst.wellFormed) hk
  · intro k block hk
    rw [lookup_speakingBlocks hrep] at hk
    exact evolves_property (blocks_evolve h) (fun _ _ _ hn => hn.wellFormed)
      (fun _ _ _ _ hst => hst.wellFormed) hk
  · intro k recording hk
    rw [lookup_recordings hrep] at hk
    exact evolves_property (recordings_evolve h) (fun _ _ _ hn => hn.wellFormed)
      (fun _ _ _ _ hst => hst.wellFormed) hk

/-- What no step changes is the same in two states of one run. -/
theorem evolves_keeps {V ι : Type} {saves : VoiceEntry → Option (String × V)} {pfx : String}
    {new : List VoiceEntry → VoiceEntry → V → Prop} {step : VoiceEntry → V → V → Prop}
    {ident : V → ι} (table : World → Table V)
    (hlookup : ∀ t w, (s.system I).Replays t w → ∀ k,
      (table w).lookup k = lastWrite saves k t)
    (h : (s.system I).run ms = some p) {n : ℕ} {q : VoicePool}
    (hq : (s.system I).run (ms.take n) = some q)
    (hev : Evolves saves (idDraws pfx) client new step p.trace)
    (hstep : ∀ e v₀ v, step e v₀ v → ident v = ident v₀) :
    Table.KeepsIdentity ident (table q.state) (table p.state) := by
  intro k v hk
  obtain ⟨q', newer, hq', ht⟩ := System.run_take h n
  obtain rfl := Option.some.inj (hq.symm.trans hq')
  rw [hlookup _ _ (System.run_replays hq)] at hk
  have hv : WasStored saves p.trace k v := ⟨newer, q.trace, ht, hk⟩
  obtain ⟨v', hv'⟩ := Option.ne_none_iff_exists'.mp hv.ne_none
  refine ⟨v', by rw [hlookup _ _ (System.run_replays h), hv'], ?_⟩
  exact (hev.keepsIdent (fresh_draws pfx (System.run_replays h)) hstep).eq (.now hv') hv

theorem run_keepsIdentity (h : (s.system I).run ms = some p) {n : ℕ} {q : VoicePool}
    (hq : (s.system I).run (ms.take n) = some q) :
    q.state.store.KeepsIdentity p.state.store where
  rooms := evolves_keeps (fun w => w.store.rooms) (fun _ _ => lookup_rooms) h hq
    (rooms_evolve h) fun _ _ _ hst => hst.identity_eq
  listenerSessions := evolves_keeps (fun w => w.store.listenerSessions)
    (fun _ _ => lookup_listenerSessions) h hq (sessions_evolve h) fun _ _ _ hst => hst.identity_eq
  participantSessions := evolves_keeps (fun w => w.store.participantSessions)
    (fun _ _ => lookup_participantSessions) h hq (participants_evolve h) fun _ _ _ hst => hst.elim
  speakerRequests := evolves_keeps (fun w => w.store.speakerRequests)
    (fun _ _ => lookup_speakerRequests) h hq (requests_evolve h) fun _ _ _ hst => hst.identity_eq
  speakingBlocks := evolves_keeps (fun w => w.store.speakingBlocks)
    (fun _ _ => lookup_speakingBlocks) h hq (blocks_evolve h) fun _ _ _ hst => hst.identity_eq
  recordings := evolves_keeps (fun w => w.store.recordings)
    (fun _ _ => lookup_recordings) h hq (recordings_evolve h) fun _ _ _ hst => hst.identity_eq

/-- A room that was stored is still stored, with everything that no change of a room touches. -/
theorem stored_room_kept {ι : Type} {ident : Room → ι}
    (hident : ∀ room₀ room cmd, RoomChange room₀ room cmd → ident room = ident room₀)
    (h : (s.system I).run ms = some p) {roomID : String} {room : Room}
    (hs : WasStored roomSaves p.trace roomID room) :
    ∃ room', p.state.store.rooms.lookup roomID = some room' ∧ ident room' = ident room := by
  obtain ⟨room', hnow⟩ := Option.ne_none_iff_exists'.mp hs.ne_none
  have hrep := System.run_replays h
  refine ⟨room', by rw [lookup_rooms hrep, hnow], ?_⟩
  exact ((rooms_evolve h).keepsIdent (fresh_draws _ hrep) fun e _ _ => hident _ _ e.cmd).eq
    (.now hnow) hs

end Run

/-- **Stored records stay well formed**, and stay the records they were at
their first save, in every interleaving and whatever fails. -/
theorem records_well_formed (s : Service) (I : Infra) (ms : List VoiceMove) (p : VoicePool)
    (h : (s.system I).run ms = some p) :
    p.state.store.WellFormed ∧
      ∀ n q, (s.system I).run (ms.take n) = some q → q.state.store.KeepsIdentity p.state.store :=
  ⟨run_wellFormed h, fun _ _ hq => run_keepsIdentity h hq⟩

theorem records_well_formed_promotion :
    ∃ p, (sampleService.system (sampleInfra fun _ => false)).run
        (movesFrom 0 (openRoom ++ promotion)) = some p ∧ p.state.store.WellFormed := by
  have hrun : ((sampleService.system (sampleInfra fun _ => false)).run
      (movesFrom 0 (openRoom ++ promotion))).isSome = true := by decide +kernel
  obtain ⟨p, hp⟩ := Option.isSome_iff_exists.mp hrun
  exact ⟨p, hp, (records_well_formed _ _ _ p hp).1⟩

end WaveCast
