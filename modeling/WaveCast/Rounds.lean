import WaveCast.Cleanup

/-!
# Rounds

Three commands list active listener sessions and end them one after the other:
`RemoveParticipant`, `ExpireStaleListenerSessions` and `CloseRoomSessions`. A
round saves one session as ended and takes its mark out (`Round`). A loop that
reaches its end has ended all the sessions that were listed and no others
(`Rounds.lookup_ended`, `Rounds.lookup_other`).
-/

namespace WaveCast

open Interaction WaveCast.Action Program Service

/-- The state after a session was saved as `session` and its mark taken out. -/
def World.ended (s : Service) (w : World) (session : ListenerSession) : World :=
  { w with
    store := (StoreCall.saveListenerSession session).apply w.store
    presence := s.presented (.markListenerInactive session.roomID session.id) w.presence }

/-- What a round that saves `session` does to the sessions and their marks. -/
structure Round (s : Service) (session : ListenerSession) (w w' : World) : Prop where
  sessions : w'.store.listenerSessions = w.store.listenerSessions.insert session.id session
  participantSessions : w'.store.participantSessions = w.store.participantSessions
  presence : w'.presence = s.presented (.markListenerInactive session.roomID session.id) w.presence

theorem World.round_ended (s : Service) (w : World) (session : ListenerSession) :
    Round s session w (w.ended s session) := ⟨rfl, rfl, rfl⟩

/-- The rounds of a loop that saves each of the listed sessions as `ends` says. -/
abbrev Rounds (s : Service) (ends : ListenerSession → ListenerSession) :
    List ListenerSession → World → World → Prop :=
  Steps fun x => Round s (ends x)

/-- `session` was saved, and no other session of either kind has changed. -/
structure Saves (session : ListenerSession) (w w' : World) : Prop where
  sessions : w'.store.listenerSessions = w.store.listenerSessions.insert session.id session
  participantSessions : w'.store.participantSessions = w.store.participantSessions

theorem Round.saves {s : Service} {session : ListenerSession} {w w' : World}
    (h : Round s session w w') : Saves session w w' := ⟨h.sessions, h.participantSessions⟩

section Saves

variable {ends : ListenerSession → ListenerSession} {sessions : List ListenerSession}
  {w w' : World} {x : ListenerSession} {k : String}

theorem Saves.participantSessions_eq (h : Steps (fun x => Saves (ends x)) sessions w w') :
    w'.store.participantSessions = w.store.participantSessions :=
  h.invariant (T := fun w' => w'.store.participantSessions = w.store.participantSessions)
    (fun _ _ _ _ hr hw => hr.participantSessions.trans hw) rfl

theorem Saves.lookup_other (h : Steps (fun x => Saves (ends x)) sessions w w')
    (hk : ∀ x ∈ sessions, (ends x).id ≠ k) :
    w'.store.listenerSessions.lookup k = w.store.listenerSessions.lookup k := by
  refine h.invariant (T := fun w' =>
    w'.store.listenerSessions.lookup k = w.store.listenerSessions.lookup k) ?_ rfl
  intro x hx w₁ w₂ hr hw
  rw [hr.sessions, Table.lookup_insert_ite, if_neg (hk x hx).symm, hw]

theorem Saves.lookup_ended (h : Steps (fun x => Saves (ends x)) sessions w w')
    (hnodup : (sessions.map fun x => (ends x).id).Nodup) (hx : x ∈ sessions) :
    w'.store.listenerSessions.lookup (ends x).id = some (ends x) := by
  induction h with
  | nil => cases hx
  | @cons y ys w₀ w₁ w₂ hr hrest ih =>
    obtain ⟨hout, hnodup⟩ := List.nodup_cons.mp hnodup
    rcases List.mem_cons.mp hx with rfl | hx
    · rw [Saves.lookup_other hrest, hr.sessions, Table.lookup_insert_ite, if_pos rfl]
      exact fun z hz heq => hout (List.mem_map.mpr ⟨z, hz, heq⟩)
    · exact ih hnodup hx

end Saves

section Rounds

variable {s : Service} {ends : ListenerSession → ListenerSession} {sessions : List ListenerSession}
  {w w' : World} {x : ListenerSession} {k : String}

theorem Rounds.saves (h : Rounds s ends sessions w w') :
    Steps (fun x => Saves (ends x)) sessions w w' := h.mono fun _ _ _ hr => hr.saves

theorem Rounds.participantSessions (h : Rounds s ends sessions w w') :
    w'.store.participantSessions = w.store.participantSessions :=
  Saves.participantSessions_eq (Rounds.saves h)

/-- The marks of the speakers stay. -/
theorem Rounds.participants (h : Rounds s ends sessions w w') :
    w'.presence.participants = w.presence.participants := by
  refine h.invariant (T := fun w' => w'.presence.participants = w.presence.participants)
    (fun _ _ _ _ hr hw => ?_) rfl
  rw [hr.presence, ← hw, presented]
  split <;> rfl

theorem Rounds.lookup_other (h : Rounds s ends sessions w w')
    (hk : ∀ x ∈ sessions, (ends x).id ≠ k) :
    w'.store.listenerSessions.lookup k = w.store.listenerSessions.lookup k :=
  Saves.lookup_other (Rounds.saves h) hk

theorem Rounds.lookup_ended (h : Rounds s ends sessions w w')
    (hnodup : (sessions.map fun x => (ends x).id).Nodup) (hx : x ∈ sessions) :
    w'.store.listenerSessions.lookup (ends x).id = some (ends x) :=
  Saves.lookup_ended (Rounds.saves h) hnodup hx

/-- The marks of the sessions that were ended are taken out, if there are any. -/
theorem Rounds.listeners (h : Rounds s ends sessions w w') (roomID sessionID : String) :
    sessionID ∈ Presence.members w'.presence.listeners roomID ↔
      sessionID ∈ Presence.members w.presence.listeners roomID ∧ (s.hasPresence = true →
        ∀ x ∈ sessions, (ends x).roomID = roomID → (ends x).id ≠ sessionID) := by
  induction h with
  | nil => simp
  | @cons y ys w₀ w₁ w₂ hr _ ih =>
    have hround : sessionID ∈ Presence.members w₁.presence.listeners roomID ↔
        sessionID ∈ Presence.members w₀.presence.listeners roomID ∧ (s.hasPresence = true →
          (ends y).roomID = roomID → (ends y).id ≠ sessionID) := by
      rw [hr.presence, presented]
      split
      · rename_i hs
        simp only [Presence.step, Presence.members_unmark, hs, true_implies]
        by_cases hroom : roomID = (ends y).roomID
        · simp [hroom, and_comm, eq_comm]
        · simp [hroom, Ne.symm hroom]
      · simp [*]
    rw [ih, hround, List.forall_mem_cons, forall_and, and_assoc]

end Rounds

/-! ## The programs -/

section Programs

variable {I : Infra} {α : Type} {s : Service} {w : World} {h : List VoiceExchange}
  {Q : List VoiceExchange → Except AppError α → World → Prop}

/-- Some component may fail. -/
def Infra.Fails (I : Infra) : Prop := ∃ c, I.mayFail c = true

/-- A session is saved as ended and its mark taken out, unless a component fails. -/
theorem ensures_round {session : ListenerSession} {rest : Unit → Action α}
    (hok : ∀ h, Ensures (S := effects) (World.exec I) Q h (w.ended s session) (rest ()))
    (herr : I.Fails → ∀ h e w', Q h (.error e) w') :
    Ensures (S := effects) (World.exec I) Q h w
      ((store (.saveListenerSession session)).bind fun _ =>
        (s.presenceDo (.markListenerInactive session.roomID session.id)).bind rest) :=
  ensures_write id
    (fun _ _ => ensures_presenceDo hok fun _ hf h e _ => herr ⟨_, hf⟩ h e _)
    fun hf h e => herr ⟨_, hf⟩ h e _

/-- Both tables of sessions and the presence store are the same. -/
structure World.SameSessions (w w' : World) : Prop where
  listenerSessions : w'.store.listenerSessions = w.store.listenerSessions
  participantSessions : w'.store.participantSessions = w.store.participantSessions
  presence : w'.presence = w.presence

/-- Publishing puts one event into the log. -/
theorem publish_logs
    {eventType roomID actorUserID targetUserID correlationID : String} {payload : Payload} :
    Ensures (S := effects) (World.exec I) (Yields I.Fails fun _ w' => ∃ u t,
        w' = { w with issued := u :: w.issued }.logged (envelope eventType roomID actorUserID
          targetUserID correlationID payload (newID prefixEvent u) t) true) h w
      (publish eventType roomID actorUserID targetUserID correlationID payload) := by
  rw [← bind_ret (publish eventType _ _ _ _ _)]
  simp only [publish, bind_eq, bind_assoc]
  refine ensures_fresh fun u _ _ => ensures_now fun t _ => ?_
  refine ensures_write id (fun _ h => ?_) fun hf _ _ => ⟨_, hf⟩
  intro env a w' hx
  rcases World.exec_cases hx with ⟨-, hf, ha, -⟩ | ⟨-, hp⟩
  · cases ha
    exact ⟨_, hf⟩
  · cases hp
    exact ⟨u, t, rfl⟩

/-- Publishing leaves the sessions as they are. -/
theorem publish_yields
    {eventType roomID actorUserID targetUserID correlationID : String} {payload : Payload} :
    Ensures (S := effects) (World.exec I) (Yields I.Fails fun _ w' => w.SameSessions w' ∧
        ∃ eventID t, w'.store.events = w.store.events ++ [envelope eventType roomID actorUserID
          targetUserID correlationID payload eventID t]) h w
      (publish eventType roomID actorUserID targetUserID correlationID payload) := by
  refine publish_logs.mono ?_
  rintro h' (e | a) w' hr
  · exact hr
  · obtain ⟨u, t, rfl⟩ := hr
    exact ⟨⟨rfl, rfl, rfl⟩, _, t, rfl⟩

/-- Listing the active sessions of a room only fails where the store fails. -/
theorem ensures_listActive {roomID : String} {f : List ListenerSession → Action α}
    (hok : ∀ env sessions h, World.exec I env (.store (.listActiveListenerSessions roomID)) w =
        some (.ok sessions, w) → Ensures (S := effects) (World.exec I) Q h w (f sessions))
    (herr : I.Fails → ∀ h, Q h (.error unavailable) w) :
    Ensures (S := effects) (World.exec I) Q h w
      ((store (.listActiveListenerSessions roomID)).bind f) := by
  rw [store, bind_assoc]
  refine ensures_askRead (c := .listActiveListenerSessions roomID) trivial fun env a h hx => ?_
  rcases World.exec_store hx with ⟨rfl, -⟩ | ⟨st, hst, -⟩
  · rcases World.exec_cases hx with ⟨-, hf, -⟩ | ⟨-, hp⟩
    · exact herr ⟨_, hf⟩ h
    · obtain ⟨r, hr, he⟩ := Option.map_eq_some_iff.mp hp
      obtain ⟨stored, -, rfl⟩ := Option.map_eq_some_iff.mp hr
      cases he
  · obtain ⟨stored, -, he⟩ := Option.map_eq_some_iff.mp hst
    cases he
    exact hok env _ h hx

theorem World.exec_selectByUser (hw : w.FilesSessions) {env : Env} {roomID userID : String}
    {sessions : List ListenerSession} {w' : World}
    (h : World.exec I env (.store (.listActiveListenerSessionsByUser roomID userID)) w =
      some (.ok sessions, w')) :
    w.Selects (fun x => x.roomID = roomID ∧ x.userID = userID ∧ x.status = .active) sessions := by
  obtain ⟨st, hst, -⟩ := World.exec_store_ok h
  obtain ⟨stored, hr, heq⟩ := Option.map_eq_some_iff.mp hst
  cases heq
  exact hw.selects hr _ (by simp [and_assoc])

/-- `CloseRoomSessions` ends the active sessions of the room. -/
theorem closeRoomSessions_ends (hw : w.FilesSessions) (roomID : String) (endedAt : Time)
    (correlationID : String) :
    Ensures (S := effects) (World.exec I) (Yields I.Fails fun _ w' => ∃ sessions,
        w.Selects (fun x => x.roomID = roomID ∧ x.status = .active) sessions ∧
        Steps (fun x w w' => w' = w.ended s (endedSession x .left "room_finished" endedAt))
          sessions w w') h w
      (s.closeRoomSessions roomID endedAt correlationID) := by
  simp only [closeRoomSessions, bind_eq]
  refine ensures_listActive (fun env sessions h hx => ?_) fun hf _ => hf
  have hsel := World.exec_selectActive hw hx
  refine (ensures_forEach_steps (F := I.Fails)
    (R := fun x w w' => w' = w.ended s (endedSession x .left "room_finished" endedAt))
    (fun x hx h w => ?_) h w).mono ?_
  · rw [← bind_ret (s.presenceDo _), ← ((hsel.mem_iff x).mp hx).2.1]
    exact ensures_round (fun _ => rfl) fun hf _ _ _ => hf
  · rintro h' (e | a) w' hr
    · exact hr
    · exact ⟨sessions, hsel, hr⟩

theorem closeRoomSessions_yields (hw : w.FilesSessions) (roomID : String) (endedAt : Time)
    (correlationID : String) :
    Ensures (S := effects) (World.exec I) (Yields I.Fails fun _ w' => ∃ sessions,
        w.Selects (fun x => x.roomID = roomID ∧ x.status = .active) sessions ∧
        Rounds s (endedSession · .left "room_finished" endedAt) sessions w w') [] w
      (s.program (.closeRoomSessions roomID endedAt correlationID)) := by
  rw [Service.program, map_eq, ensures_bind]
  refine (closeRoomSessions_ends hw roomID endedAt correlationID).mono ?_
  rintro h' (e | a) w' hr
  · exact hr
  · obtain ⟨sessions, hsel, hsteps⟩ := hr
    exact ⟨sessions, hsel, hsteps.mono fun x w w' hw' => hw' ▸ w.round_ended s _⟩

end Programs

end WaveCast
