import WaveCast.Records

/-!
# Lost updates

The store has no compare-and-set, and the commands write back whole records
they have read before. Two laws depend on who reads and saves in which order:

* a finished room stays finished iff no other command saves the room after
  `FinishRoom` has, from a read before it (`finished_rooms_stay_iff`);
* an ended listener session stays ended iff no heartbeat saves the session
  after it was ended, from a read before that (`ended_sessions_stay_iff`).

Both are instances of `terminal_stable_iff`.
-/

namespace WaveCast

open Interaction

variable {s : Service} {I : Infra} {ms : List VoiceMove} {p : VoicePool}

/-! ## Finished rooms -/

/-- A room that is finished as `FinishRoom` leaves it. -/
def Finished (room : Room) : Prop :=
  room.status = .finished ∧ room.endedAt.isSome ∧ room.endedBy ≠ ""

/-- Once a room is stored as finished, every later state of the run has it
finished, with its end recorded. -/
def FinishedRoomsStay (s : Service) (I : Infra) (ms : List VoiceMove) : Prop :=
  ∀ n m q q' k room, n ≤ m → (s.system I).run (ms.take n) = some q →
    (s.system I).run (ms.take m) = some q' → q.state.store.rooms.lookup k = some room →
    room.status = .finished →
    ∃ room', q'.state.store.rooms.lookup k = some room' ∧ Finished room'

/-- No command but `FinishRoom` saves a room that was stored as finished after
the command had read it unfinished. -/
def NoStaleRoomSave (t : List VoiceEntry) : Prop :=
  Always (fun older e => ∀ k room mid r rest room₀, roomSaves e = some (k, room) →
    (∀ c, e.cmd ≠ .finishRoom c) → older = mid ++ r :: rest → client r = client e →
    roomReads r = some (k, room₀) → room₀.status ≠ .finished →
    ∀ f ∈ mid, ∀ room', roomSaves f = some (k, room') → room'.status ≠ .finished) t

theorem RoomChange.finished {room₀ room : Room} {cmd : Command} (h : RoomChange room₀ room cmd)
    (hf : room.status = .finished) :
    (∃ c, cmd = .finishRoom c ∧ Finished room) ∨ (room₀.status = .finished ∧
      room.endedAt = room₀.endedAt ∧ room.endedBy = room₀.endedBy) := by
  cases cmd with
  | finishRoom c =>
    obtain ⟨-, hm, -, t, rfl⟩ := h
    exact .inl ⟨c, rfl, rfl, rfl, hm.1⟩
  | startRoom c => obtain ⟨-, -, -, t, rfl⟩ := h; cases hf
  | startRecording c =>
    obtain ⟨-, -, hl, t, id, rfl⟩ := h
    exact absurd hf (by simp [withActiveRecording, hl])
  | stopRecording c => obtain ⟨-, -, t, rfl⟩ := h; exact .inr ⟨hf, rfl, rfl⟩
  | _ => cases h

/-- Whoever stores a room as finished, its end is recorded. -/
theorem finished_complete (h : (s.system I).run ms = some p) {k : String} {room : Room}
    (hs : WasStored roomSaves p.trace k room) (hf : room.status = .finished) : Finished room := by
  refine wasStored_induction (I := fun _ _ (room : Room) => room.status = .finished → Finished room)
    (fun _ _ _ _ h => h) ?_ hs hf
  refine (room_saved h).mono fun older e hsaved k room hw past hf => ?_
  rcases hsaved k room hw with ⟨c, t, streamID, hcmd, -, rfl, -⟩ |
    ⟨mid, r, rest, room₀, rfl, -, -, hl, hch, -⟩
  · cases hf
  · rcases hch.finished hf with ⟨-, -, hfin⟩ | ⟨hf₀, hat, hby⟩
    · exact hfin
    · have h₀ := past k room₀ ⟨mid ++ [r], rest, List.append_cons mid r rest, hl⟩ hf₀
      exact ⟨hf, hat ▸ h₀.2.1, hby ▸ h₀.2.2⟩

theorem RoomChange.keeps_finished {room₀ room : Room} {cmd : Command}
    (h : RoomChange room₀ room cmd) (hf : Finished room₀) : Finished room := by
  obtain ⟨t, rfl⟩ := h.of_finished hf.1
  exact hf

theorem rooms_disciplined (h : (s.system I).run ms = some p) :
    Disciplined roomSaves roomReads client Finished p.trace := by
  refine ((room_saved h).and (room_created_first h)).mono ?_
  rintro older e ⟨hsaved, hfirst⟩ k room hw
  rcases hsaved k room hw with hc | ⟨mid, r, rest, room₀, rfl, hi, hr, -, hch, -⟩
  · exact .inr (.inl (hfirst k room hc))
  · exact .inr (.inr ⟨mid, room₀, ⟨r, rest, rfl, hi, hr⟩, hch.keeps_finished⟩)

theorem roomReads_not_save (e : VoiceEntry) (h : (roomReads e).isSome) : roomSaves e = none := by
  obtain ⟨⟨k, room⟩, hr⟩ := Option.isSome_iff_exists.mp h
  simp [roomSaves, readRoom_eq_some.mp hr, savedRoom]

theorem noStaleRoomSave_iff (h : (s.system I).run ms = some p) :
    NoLateWrite roomSaves roomReads client Finished p.trace ↔ NoStaleRoomSave p.trace := by
  have hcoh := rooms_coherent (System.run_replays h)
  have hsaved := (room_saved h).and (room_created_first h)
  have complete : ∀ newer e older k room, p.trace = newer ++ e :: older →
      roomSaves e = some (k, room) → room.status = .finished → Finished room := by
    intro newer e older k room ht hw hf
    exact finished_complete h ⟨newer, e :: older, ht, lastWrite_cons_self hw⟩ hf
  have complete_read : ∀ newer r rest k room, p.trace = newer ++ r :: rest →
      roomReads r = some (k, room) → room.status = .finished → Finished room := by
    intro newer r rest k room ht hr hf
    rw [ht] at hcoh
    exact finished_complete h
      ⟨newer ++ [r], rest, by rw [ht]; exact List.append_cons newer r rest, hcoh.at k room hr⟩ hf
  rw [NoLateWrite, NoStaleRoomSave, always_iff, always_iff]
  refine forall_congr' fun newer => forall_congr' fun e => forall_congr' fun older =>
    forall_congr' fun ht => ?_
  rw [ht] at hsaved
  constructor
  · intro hlate k room mid r rest room₀ hw hcmd hold hi hr h₀ f hf room' hwf hfin
    obtain ⟨m₁, m₂, rfl⟩ := List.append_of_mem hf
    have hfin' : Finished room' := complete (newer ++ e :: m₁) f (m₂ ++ r :: rest) k room'
      (by rw [ht, hold]; simp) hwf hfin
    have hroom : Finished room := by
      by_contra hne
      exact hlate k room hw hne _ room₀ ⟨r, rest, hold, hi, hr⟩ (fun hf₀ => h₀ hf₀.1) f hf room'
        hwf hfin'
    rcases hsaved.at.1 k room hw with hc | ⟨_, _, _, room₁, -, -, -, -, hch, honly⟩
    · exact lastWrite_eq_none.mp (hsaved.at.2 k room hc) f (by simp [hold]) room' hwf
    · obtain rfl := honly r (by simp [hold]) hi k room₀ hr
      rcases hch.finished hroom.1 with ⟨c, hc, -⟩ | ⟨hf₀, -⟩
      · exact hcmd c hc
      · exact h₀ hf₀
  · rintro hstale k room hw hne mid room₀ ⟨r, rest, hold, hi, hr⟩ h₀ f hf room' hwf hfin
    have hcmd : ∀ c, e.cmd ≠ .finishRoom c := by
      intro c hc
      rcases hsaved.at.1 k room hw with ⟨_, _, _, hcr, -⟩ | ⟨_, _, _, room₁, -, -, -, -, hch, -⟩
      · rw [hc] at hcr; cases hcr
      · rw [hc] at hch
        obtain ⟨-, hm, -, t, rfl⟩ := hch
        exact hne ⟨rfl, rfl, hm.1⟩
    have h₀' : room₀.status ≠ .finished := fun hf₀ =>
      h₀ (complete_read (newer ++ e :: mid) r rest k room₀ (by rw [ht, hold]; simp) hr hf₀)
    exact hstale k room mid r rest room₀ hw hcmd hold hi hr h₀' f hf room' hwf hfin.1

/-- **A finished room stays finished** in every state of a run iff no command
other than `FinishRoom` saves the room over a finish that came after its read. -/
theorem finished_rooms_stay_iff (s : Service) (I : Infra) (ms : List VoiceMove) (p : VoicePool)
    (h : (s.system I).run ms = some p) : FinishedRoomsStay s I ms ↔ NoStaleRoomSave p.trace := by
  have hrep := System.run_replays h
  rw [← noStaleRoomSave_iff h, ← terminal_stable_iff (rooms_coherent hrep) (rooms_disciplined h)
    roomReads_not_save]
  rw [← System.terminal_states_iff (fun t w hr k => lookup_rooms hr k) h]
  constructor
  · intro hstay n m q q' k room hnm hq hq' hk hf
    exact hstay n m q q' k room hnm hq hq' hk hf.1
  · intro hstay n m q q' k room hnm hq hq' hk hf
    have hstored := lookup_rooms (System.run_replays hq) k
    rw [hk] at hstored
    exact hstay n m q q' k room hnm hq hq' hk (finished_complete hq (.now hstored.symm) hf)

def sampleRecording : String := newID prefixRecording (sampleUlid 4)

/-- The beginning of a run: the room is live and being recorded, and a
moderator's `StopRecording` has read it. -/
def stopPending : List VoiceMove :=
  movesFrom 0 (openRoom ++ [(.startRecording ⟨sampleRoom, "moderator", ""⟩,
    plain 2 ++ drawing 4 ++ plain 2 ++ publishing 5)]) ++
  .start (.stopRecording ⟨sampleRoom, sampleRecording, "moderator", ""⟩) :: (plain 3).map (.call 3)

/-- The owner finishes the room. -/
def finishMoves : List VoiceMove :=
  movesFrom 4 [(.finishRoom ⟨sampleRoom, "owner", "over", ""⟩, plain 3 ++ publishing 6 ++ plain 2)]

/-- The pending `StopRecording` saves the recording and the room. -/
def stopMoves : List VoiceMove := (plain 2).map (.call 3)

theorem finished_rooms_stay_fails :
    ¬ ∀ (s : Service) (I : Infra) (ms : List VoiceMove) (p : VoicePool),
      (s.system I).run ms = some p → FinishedRoomsStay s I ms := by
  intro hclaim
  have hfinished : ((sampleService.system (sampleInfra fun _ => false)).run
      ((stopPending ++ finishMoves ++ stopMoves).take (stopPending ++ finishMoves).length)).any
        (fun q => (q.state.store.rooms.lookup sampleRoom).any (·.status = .finished)) = true := by
    decide +kernel
  have hlive : ((sampleService.system (sampleInfra fun _ => false)).run
      (stopPending ++ finishMoves ++ stopMoves)).any
        (fun q => (q.state.store.rooms.lookup sampleRoom).any (·.status = .live)) = true := by
    decide +kernel
  obtain ⟨q, hq, hroom⟩ := (Option.any_eq_true _ _).mp hfinished
  obtain ⟨q', hq', hroom'⟩ := (Option.any_eq_true _ _).mp hlive
  obtain ⟨room, hk, hst⟩ := (Option.any_eq_true _ _).mp hroom
  obtain ⟨room', hk', hst'⟩ := (Option.any_eq_true _ _).mp hroom'
  obtain ⟨room'', hk'', hf, -⟩ := hclaim _ _ _ q' hq' _
    (stopPending ++ finishMoves ++ stopMoves).length q q' sampleRoom room (by decide) hq
    (by rw [List.take_length]; exact hq') hk (of_decide_eq_true hst)
  rw [hk'] at hk''
  cases hk''
  rw [of_decide_eq_true hst'] at hf
  cases hf

/-- Where a finished room is saved last of all, no save of a room is stale. -/
theorem noStaleRoomSave_of_last {t : List VoiceEntry} (h : Always (fun older e =>
    (roomSaves e).isSome → ∀ f ∈ older, (roomSaves f).all (·.2.status ≠ .finished)) t) :
    NoStaleRoomSave t := by
  refine h.mono fun older e hlast k room mid r rest room₀ hs _ ht _ _ _ f hf room' hw => ?_
  subst ht
  have hopen := hlast (by rw [hs]; rfl) f (List.mem_append_left _ hf)
  rw [hw, Option.all_some] at hopen
  exact of_decide_eq_true hopen

/-- The pending `StopRecording` saves the room before it is finished. -/
theorem finished_rooms_stay_in_order :
    ∃ p, (sampleService.system (sampleInfra fun _ => false)).run
        (stopPending ++ stopMoves ++ finishMoves) = some p ∧
      (p.state.store.rooms.lookup sampleRoom).any (·.status = .finished) = true ∧
      FinishedRoomsStay sampleService (sampleInfra fun _ => false)
        (stopPending ++ stopMoves ++ finishMoves) := by
  have hrun : ((sampleService.system (sampleInfra fun _ => false)).run
      (stopPending ++ stopMoves ++ finishMoves)).any (fun p =>
        (p.state.store.rooms.lookup sampleRoom).any (·.status = .finished) ∧
        Always (fun older e => (roomSaves e).isSome →
          ∀ f ∈ older, (roomSaves f).all (·.2.status ≠ .finished)) p.trace) = true := by
    decide +kernel
  obtain ⟨p, hp, hfacts⟩ := (Option.any_eq_true _ _).mp hrun
  obtain ⟨hfinished, hlast⟩ := of_decide_eq_true hfacts
  exact ⟨p, hp, hfinished,
    (finished_rooms_stay_iff _ _ _ p hp).mpr (noStaleRoomSave_of_last hlast)⟩

/-! ## Ended listener sessions -/

/-- Once a session is stored with a status other than active, every later
state of the run has it so. -/
def EndedSessionsStay (s : Service) (I : Infra) (ms : List VoiceMove) : Prop :=
  ∀ n m q q' k session, n ≤ m → (s.system I).run (ms.take n) = some q →
    (s.system I).run (ms.take m) = some q' →
    q.state.store.listenerSessions.lookup k = some session → session.status ≠ .active →
    ∃ session', q'.state.store.listenerSessions.lookup k = some session' ∧
      session'.status ≠ .active

/-- No heartbeat saves a session that was ended after the heartbeat had read it. -/
def NoStaleHeartbeat (t : List VoiceEntry) : Prop :=
  Always (fun older e => ∀ c k session mid r rest session₀, e.cmd = .listenerHeartbeat c →
    sessionSaves e = some (k, session) → older = mid ++ r :: rest → client r = client e →
    sessionReads r = some (k, session₀) →
    ∀ f ∈ mid, ∀ session', sessionSaves f = some (k, session') → session'.status = .active) t

theorem SessionChange.status {session₀ session : ListenerSession} {cmd : Command}
    (h : SessionChange session₀ session cmd) :
    ((∃ c, cmd = .listenerHeartbeat c) ∧ session₀.status = .active ∧ session.status = .active) ∨
      session.status ≠ .active := by
  cases cmd with
  | listenerHeartbeat c =>
    obtain ⟨-, -, ha, t, rfl⟩ := h
    exact .inl ⟨⟨c, rfl⟩, ha, ha⟩
  | leaveListener c =>
    obtain ⟨-, -, t, rfl⟩ := h
    exact .inr (by simp [endedSession])
  | _ => cases h

theorem sessions_disciplined (h : (s.system I).run ms = some p) :
    Disciplined sessionSaves sessionReads client (·.status ≠ .active) p.trace := by
  refine ((session_saved h).and (session_created_first h)).mono ?_
  rintro older e ⟨hsaved, hfirst⟩ k session hw
  rcases hsaved k session hw with hc | ⟨mid, r, rest, session₀, rfl, hi, hr, -, hch, -⟩ | hends
  · exact .inr (.inl (hfirst k session hc))
  · rcases hch.status with ⟨-, ha, -⟩ | hne
    · exact .inr (.inr ⟨mid, session₀, ⟨r, rest, rfl, hi, hr⟩, fun hne => absurd ha hne⟩)
    · exact .inl hne
  · exact .inl hends.2.1

theorem sessionReads_not_save (e : VoiceEntry) (h : (sessionReads e).isSome) :
    sessionSaves e = none := by
  obtain ⟨⟨k, session⟩, hr⟩ := Option.isSome_iff_exists.mp h
  simp [sessionSaves, readListenerSession_eq_some.mp hr, savedListenerSession]

theorem noStaleHeartbeat_iff (h : (s.system I).run ms = some p) :
    NoLateWrite sessionSaves sessionReads client (·.status ≠ .active) p.trace ↔
      NoStaleHeartbeat p.trace := by
  have hcoh := sessions_coherent (System.run_replays h)
  have hsaved := (session_saved h).and (session_created_first h)
  rw [NoLateWrite, NoStaleHeartbeat, always_iff, always_iff]
  refine forall_congr' fun newer => forall_congr' fun e => forall_congr' fun older =>
    forall_congr' fun ht => ?_
  rw [ht] at hsaved
  constructor
  · intro hlate c k session mid r rest session₀ hcmd hw hold hi hr f hf session' hwf
    rcases hsaved.at.1 k session hw with ⟨_, _, _, hj, -⟩ |
      ⟨_, _, _, session₁, -, -, -, -, hch, honly⟩ | hends
    · rw [hcmd] at hj; cases hj
    · obtain rfl := honly r (by simp [hold]) hi k session₀ hr
      rw [hcmd] at hch
      obtain ⟨-, -, ha, t, rfl⟩ := hch
      have := hlate k _ hw (not_not.mpr ha) mid session₀ ⟨r, rest, hold, hi, hr⟩
        (not_not.mpr ha) f hf session' hwf
      exact not_not.mp this
    · exact absurd hcmd (hends.1 c)
  · rintro hstale k session hw hne mid session₀ ⟨r, rest, hold, hi, hr⟩ h₀ f hf session' hwf hend
    rcases hsaved.at.1 k session hw with hc | ⟨_, _, _, session₁, -, -, -, -, hch, -⟩ | hends
    · exact lastWrite_eq_none.mp (hsaved.at.2 k session hc) f (by simp [hold, hf]) session' hwf
    · rcases hch.status with ⟨⟨c, hcmd⟩, -⟩ | hst
      · exact hend (hstale c k session mid r rest session₀ hcmd hw hold hi hr f hf session' hwf)
      · exact hne hst
    · exact hne hends.2.1

/-- **An ended listener session stays ended** in every state of a run iff no
heartbeat saves the session over an end that came after its read. -/
theorem ended_sessions_stay_iff (s : Service) (I : Infra) (ms : List VoiceMove) (p : VoicePool)
    (h : (s.system I).run ms = some p) : EndedSessionsStay s I ms ↔ NoStaleHeartbeat p.trace := by
  rw [← noStaleHeartbeat_iff h, ← terminal_stable_iff
    (sessions_coherent (System.run_replays h)) (sessions_disciplined h) sessionReads_not_save]
  exact System.terminal_states_iff (fun t w hr k => lookup_listenerSessions hr k) h

def sampleSession : String := newID prefixListenerSession (sampleUlid 4)

/-- The beginning of a run: a guest listens, and a heartbeat of the guest has
read the session. -/
def heartbeatPending : List VoiceMove :=
  movesFrom 0 (openRoom ++ [(.joinRoom ⟨sampleRoom, "guest", ""⟩,
    plain 3 ++ drawing 4 ++ plain 2 ++ publishing 5)]) ++
  .start (.listenerHeartbeat ⟨sampleRoom, sampleSession, "guest", ""⟩) :: (plain 2).map (.call 3)

/-- A moderator removes the guest. -/
def removalMoves : List VoiceMove :=
  movesFrom 4 [(.removeParticipant ⟨sampleRoom, "moderator", "guest", "spam", ""⟩,
    plain 1 ++ visiting [sampleSession] ++ plain 3 ++ publishing 6)]

/-- The pending heartbeat saves the session. -/
def heartbeatMoves : List VoiceMove := (plain 1).map (.call 3)

theorem ended_sessions_stay_fails :
    ¬ ∀ (s : Service) (I : Infra) (ms : List VoiceMove) (p : VoicePool),
      (s.system I).run ms = some p → EndedSessionsStay s I ms := by
  intro hclaim
  have hremoved : ((sampleService.system (sampleInfra fun _ => false)).run
      ((heartbeatPending ++ removalMoves ++ heartbeatMoves).take
        (heartbeatPending ++ removalMoves).length)).any
        (fun q => (q.state.store.listenerSessions.lookup sampleSession).any
          (·.status = .removed)) = true := by
    decide +kernel
  have hactive : ((sampleService.system (sampleInfra fun _ => false)).run
      (heartbeatPending ++ removalMoves ++ heartbeatMoves)).any
        (fun q => (q.state.store.listenerSessions.lookup sampleSession).any
          (·.status = .active)) = true := by
    decide +kernel
  obtain ⟨q, hq, hsession⟩ := (Option.any_eq_true _ _).mp hremoved
  obtain ⟨q', hq', hsession'⟩ := (Option.any_eq_true _ _).mp hactive
  obtain ⟨session, hk, hst⟩ := (Option.any_eq_true _ _).mp hsession
  obtain ⟨session', hk', hst'⟩ := (Option.any_eq_true _ _).mp hsession'
  obtain ⟨session'', hk'', hne⟩ := hclaim _ _ _ q' hq' _
    (heartbeatPending ++ removalMoves ++ heartbeatMoves).length q q' sampleSession session
    (by decide) hq (by rw [List.take_length]; exact hq') hk
    (by rw [of_decide_eq_true hst]; decide)
  rw [hk'] at hk''
  cases hk''
  exact hne (of_decide_eq_true hst')

/-- A session that has ended is saved last of all. -/
def EndedLast (t : List VoiceEntry) : Prop :=
  Always (fun older e => (sessionSaves e).isSome →
    ∀ f ∈ older, (sessionSaves f).all (·.2.status = .active)) t

instance EndedLast.decidable (t : List VoiceEntry) : Decidable (EndedLast t) :=
  Always.decidable t

theorem EndedLast.noStaleHeartbeat {t : List VoiceEntry} (h : EndedLast t) :
    NoStaleHeartbeat t := by
  refine h.mono fun older e hlast c k session mid r rest _ _ hs ht _ _ f hf session' hw => ?_
  subst ht
  have hactive := hlast (by rw [hs]; rfl) f (List.mem_append_left _ hf)
  rw [hw, Option.all_some] at hactive
  exact of_decide_eq_true hactive

/-- The pending heartbeat saves the session before the guest is removed. -/
theorem ended_sessions_stay_in_order :
    ∃ p, (sampleService.system (sampleInfra fun _ => false)).run
        (heartbeatPending ++ heartbeatMoves ++ removalMoves) = some p ∧
      (p.state.store.listenerSessions.lookup sampleSession).any (·.status = .removed) = true ∧
      EndedSessionsStay sampleService (sampleInfra fun _ => false)
        (heartbeatPending ++ heartbeatMoves ++ removalMoves) := by
  have hrun : ((sampleService.system (sampleInfra fun _ => false)).run
      (heartbeatPending ++ heartbeatMoves ++ removalMoves)).any (fun p =>
        (p.state.store.listenerSessions.lookup sampleSession).any (·.status = .removed) ∧
          EndedLast p.trace) = true := by
    decide +kernel
  obtain ⟨p, hp, hfacts⟩ := (Option.any_eq_true _ _).mp hrun
  obtain ⟨hremoved, hlast⟩ := of_decide_eq_true hfacts
  exact ⟨p, hp, hremoved, (ended_sessions_stay_iff _ _ _ p hp).mpr hlast.noStaleHeartbeat⟩

end WaveCast
