import WaveCast.Rounds

/-!
# Removing a participant

`RemoveParticipant` lists the active listener sessions of the user in the room
and ends each of them. It looks neither at participant sessions nor at their
marks, nor at marks of sessions that are no longer active. So the user is out
of the room afterwards iff there was nothing of that kind
(`removed_from_room_iff`).
-/

namespace WaveCast

open Interaction WaveCast.Action Program Service

/-- `id` is the id of a session of the user, of either kind. -/
def World.SessionOf (w : World) (userID id : String) : Prop :=
  (∃ session, w.store.listenerSessions.lookup id = some session ∧ session.userID = userID) ∨
  ∃ session, w.store.participantSessions.lookup id = some session ∧ session.userID = userID

/-- The user listens in the room with this session. -/
def ListenerSession.Of (session : ListenerSession) (roomID userID : String) : Prop :=
  session.roomID = roomID ∧ session.userID = userID

def ParticipantSession.Of (session : ParticipantSession) (roomID userID : String) : Prop :=
  session.roomID = roomID ∧ session.userID = userID

/-- Between `w` and `w'` all sessions of the user in the room have ended, and
those of others are as they were. -/
structure RemovedFrom (w w' : World) (roomID userID : String) : Prop where
  listeners : ∀ k session, w'.store.listenerSessions.lookup k = some session →
    session.Of roomID userID → session.status ≠ .active
  participants : ∀ k session, w'.store.participantSessions.lookup k = some session →
    session.Of roomID userID → session.status ≠ .active
  listenerMarks : ∀ id, w'.SessionOf userID id →
    id ∉ Presence.members w'.presence.listeners roomID
  participantMarks : ∀ id, w'.SessionOf userID id →
    id ∉ Presence.members w'.presence.participants roomID
  otherListeners : ∀ k, (∀ session, w.store.listenerSessions.lookup k = some session →
      ¬ session.Of roomID userID) →
    w'.store.listenerSessions.lookup k = w.store.listenerSessions.lookup k
  otherParticipants : ∀ k, (∀ session, w.store.participantSessions.lookup k = some session →
      ¬ session.Of roomID userID) →
    w'.store.participantSessions.lookup k = w.store.participantSessions.lookup k

/-- The user has no speaker session in the room, and no mark there but those of
active listener sessions. -/
structure OnlyListens (s : Service) (w : World) (roomID userID : String) : Prop where
  participants : ∀ k session, w.store.participantSessions.lookup k = some session →
    session.Of roomID userID → session.status ≠ .active
  participantMarks : ∀ id, w.SessionOf userID id →
    id ∉ Presence.members w.presence.participants roomID
  listenerMarks : ∀ id, w.SessionOf userID id → id ∈ Presence.members w.presence.listeners roomID →
    s.hasPresence = true ∧ ∃ session, w.store.listenerSessions.lookup id = some session ∧
      session.Of roomID userID ∧ session.status = .active

section Removal

variable {s : Service} {I : Infra} {w w' w₁ : World} {h : List VoiceExchange}
  {c : RemoveParticipantCommand}

/-- `RemoveParticipant` ends the active listener sessions of the user in the room. -/
theorem removeParticipant_yields (hw : w.FilesSessions)
    (hrooms : ∀ k room, w.store.rooms.lookup k = some room → room.id = k) :
    Ensures (S := effects) (World.exec I) (Yields True fun _ w' => ∃ sessions t w₁,
        w.Selects (fun x => x.roomID = c.roomID ∧ x.userID = c.targetUserID ∧ x.status = .active)
          sessions ∧
        Rounds s (removedSession · c t) sessions w w₁ ∧ w₁.SameSessions w') [] w
      (s.program (.removeParticipant c)) := by
  simp only [Service.program, removeParticipant, map_eq, bind_eq, bind_assoc]
  refine ensures_read (c := .getRoom c.roomID) trivial (fun env room h hx => ?_) fun _ _ => trivial
  rw [ensures_require]
  refine ⟨fun _ => ?_, fun _ => trivial⟩
  have hid := hrooms _ _ (World.exec_getRoom hx)
  refine ensures_read (c := .listActiveListenerSessionsByUser room.id c.targetUserID) trivial
    (fun env sessions h hx => ?_) fun _ _ => trivial
  have hsel := World.exec_selectByUser hw hx
  rw [hid] at hsel
  refine ensures_now fun t h => ?_
  rw [ensures_bind]
  refine (ensures_forEach_steps (F := True) (R := fun x => Round s (removedSession x c t))
    (fun x hx h w => ?_) h w).mono ?_
  · rw [← bind_ret (s.presenceDo _), hid, ← ((hsel.mem_iff x).mp hx).2.1]
    exact ensures_round (fun _ => w.round_ended s _) fun _ _ _ _ => trivial
  · rintro h' (e | a) w₁ hr
    · trivial
    · rw [ensures_bind]
      refine publish_yields.mono ?_
      rintro h'' (e | a) w' hsame
      · trivial
      · exact ⟨sessions, t, w₁, hsel, hr, hsame.1⟩

/-- What a removal that returns does to the sessions and their marks. -/
structure Removal (s : Service) (c : RemoveParticipantCommand) (w w' : World) : Prop where
  ended : ∀ k session, w.store.listenerSessions.lookup k = some session →
    session.Of c.roomID c.targetUserID → session.status = .active →
    ∃ t, w'.store.listenerSessions.lookup k = some (removedSession session c t)
  kept : ∀ k, (∀ session, w.store.listenerSessions.lookup k = some session →
      session.Of c.roomID c.targetUserID → session.status ≠ .active) →
    w'.store.listenerSessions.lookup k = w.store.listenerSessions.lookup k
  participantSessions : w'.store.participantSessions = w.store.participantSessions
  participants : w'.presence.participants = w.presence.participants
  listeners : ∀ id, id ∈ Presence.members w'.presence.listeners c.roomID ↔
    id ∈ Presence.members w.presence.listeners c.roomID ∧ ¬ (s.hasPresence = true ∧
      ∃ session, w.store.listenerSessions.lookup id = some session ∧
        session.Of c.roomID c.targetUserID ∧ session.status = .active)

theorem removal_of_rounds (hw : w.FilesSessions) {sessions : List ListenerSession} {t : Time}
    (hsel : w.Selects (fun x => x.roomID = c.roomID ∧ x.userID = c.targetUserID ∧
      x.status = .active) sessions)
    (hr : Rounds s (removedSession · c t) sessions w w₁) (hsame : w₁.SameSessions w') :
    Removal s c w w' := by
  have hsel_iff : ∀ {k session}, w.store.listenerSessions.lookup k = some session →
      session.Of c.roomID c.targetUserID → session.status = .active → session ∈ sessions := by
    intro k session hl hof hactive
    exact (hsel.mem_iff session).mpr ⟨(hw k session hl).symm ▸ hl, hof.1, hof.2, hactive⟩
  constructor
  · intro k session hl hof hactive
    refine ⟨t, ?_⟩
    rw [hsame.listenerSessions, ← hw k session hl]
    exact Rounds.lookup_ended hr hsel.nodup (hsel_iff hl hof hactive)
  · intro k hk
    rw [hsame.listenerSessions]
    refine Rounds.lookup_other hr fun x hx hid => ?_
    obtain ⟨hl, hroom, huser, hactive⟩ := (hsel.mem_iff x).mp hx
    exact hk x (hid ▸ hl) ⟨hroom, huser⟩ hactive
  · rw [hsame.participantSessions, Rounds.participantSessions hr]
  · rw [hsame.presence, Rounds.participants hr]
  · intro id
    rw [hsame.presence, Rounds.listeners hr]
    refine and_congr_right fun _ => ?_
    rw [not_and]
    refine imp_congr_right fun _ => ⟨?_, ?_⟩
    · rintro hno ⟨session, hl, hof, hactive⟩
      exact hno session (hsel_iff hl hof hactive) hof.1 (hw id session hl)
    · intro hno x hx hroom hid
      obtain ⟨hl, -, huser, hactive⟩ := (hsel.mem_iff x).mp hx
      exact hno ⟨x, (show x.id = id from hid) ▸ hl, ⟨hroom, huser⟩, hactive⟩

/-- A removal changes no session's user. -/
theorem Removal.sessionOf_iff (h : Removal s c w w') (userID id : String) :
    w'.SessionOf userID id ↔ w.SessionOf userID id := by
  refine or_congr ?_ (by rw [h.participantSessions])
  by_cases hex : ∃ session, w.store.listenerSessions.lookup id = some session ∧
      session.Of c.roomID c.targetUserID ∧ session.status = .active
  · obtain ⟨session, hl, hof, hactive⟩ := hex
    obtain ⟨t, hl'⟩ := h.ended id session hl hof hactive
    simp [hl, hl', removedSession]
  · rw [h.kept id fun session hl hof hactive => hex ⟨session, hl, hof, hactive⟩]

theorem Removal.removedFrom_iff (h : Removal s c w w') :
    RemovedFrom w w' c.roomID c.targetUserID ↔ OnlyListens s w c.roomID c.targetUserID := by
  constructor
  · intro hout
    refine ⟨?_, ?_, ?_⟩
    · rw [← h.participantSessions]
      exact hout.participants
    · intro id hid
      rw [← h.participants]
      exact hout.participantMarks id ((h.sessionOf_iff _ id).mpr hid)
    · intro id hid hmark
      by_contra hstale
      exact hout.listenerMarks id ((h.sessionOf_iff _ id).mpr hid)
        ((h.listeners id).mpr ⟨hmark, hstale⟩)
  · intro honly
    refine ⟨?_, ?_, ?_, ?_, ?_, ?_⟩
    · intro k session hl hof hactive
      by_cases hex : ∃ session₀, w.store.listenerSessions.lookup k = some session₀ ∧
          session₀.Of c.roomID c.targetUserID ∧ session₀.status = .active
      · obtain ⟨session₀, hl₀, hof₀, hactive₀⟩ := hex
        obtain ⟨t, hl'⟩ := h.ended k session₀ hl₀ hof₀ hactive₀
        cases hl.symm.trans hl'
        cases hactive
      · rw [h.kept k fun session hl hof hactive => hex ⟨session, hl, hof, hactive⟩] at hl
        exact hex ⟨session, hl, hof, hactive⟩
    · rw [h.participantSessions]
      exact honly.participants
    · intro id hid hmark
      obtain ⟨hold, hno⟩ := (h.listeners id).mp hmark
      exact hno (honly.listenerMarks id ((h.sessionOf_iff _ id).mp hid) hold)
    · intro id hid
      rw [h.participants]
      exact honly.participantMarks id ((h.sessionOf_iff _ id).mp hid)
    · exact fun k hk => h.kept k fun session hl hof => absurd hof (hk session hl)
    · exact fun k _ => by rw [h.participantSessions]

end Removal

/-- **A removed user is out of the room** iff the user was there only as a
listener: participant sessions and stale marks stay. -/
theorem removed_from_room_iff (s : Service) (I : Infra) (ms : List VoiceMove) (p : VoicePool)
    (h : (s.system I).run ms = some p) (c : RemoveParticipantCommand) (envs : List Env)
    (q : VoicePool) (hq : (s.system I).perform (.removeParticipant c, envs) p = some q)
    (reply : Reply) (hreply : q.threads = p.threads ++ [⟨.removeParticipant c, .ret reply⟩]) :
    RemovedFrom p.state q.state c.roomID c.targetUserID ↔
      OnlyListens s p.state c.roomID c.targetUserID := by
  have hk := run_keyed h
  have hfiles : p.state.FilesSessions := hk.listenerSessions.ident_eq
  obtain ⟨o, -⟩ := System.perform_outcome hq (program_asks s (.removeParticipant c))
  have hyields := System.perform_ensures hq o
    (removeParticipant_yields (s := s) hfiles hk.rooms.ident_eq)
  have hthreads := o.threads_eq
  rw [hreply] at hthreads
  cases hr : o.result with
  | error e => simp [hr] at hthreads
  | ok a =>
    rw [hr] at hyields
    obtain ⟨sessions, t, w₁, hsel, hrounds, hsame⟩ := hyields
    exact (removal_of_rounds hfiles hsel hrounds hsame).removedFrom_iff

/-- A moderator removes the guest, whose listener sessions are `order`. -/
def guestDismissed (order : List String) : VoiceJob :=
  (.removeParticipant ⟨sampleRoom, "moderator", "guest", "spam", ""⟩,
    plain 1 ++ visiting order ++ plain (1 + 2 * order.length) ++ publishing 9)

/-- The run ends in a state in which removing the guest succeeds, with `ok` before
and after it. -/
theorem exists_dismissal (pre : List VoiceJob) (order : List String)
    (ok : VoicePool → VoicePool → Bool)
    (h : ((sampleService.system (sampleInfra fun _ => false)).serial pre).any (fun p =>
      ((sampleService.system (sampleInfra fun _ => false)).perform (guestDismissed order) p).any
        fun q => !lastFailed q && ok p q) = true) :
    ∃ ms p q reply, (sampleService.system (sampleInfra fun _ => false)).run ms = some p ∧
      (sampleService.system (sampleInfra fun _ => false)).perform (guestDismissed order) p =
        some q ∧ q.threads = p.threads ++ [⟨(guestDismissed order).1, .ret reply⟩] ∧
      ok p q = true := by
  obtain ⟨p, hp, hfacts⟩ := (Option.any_eq_true _ _).mp h
  obtain ⟨q, hq, hfacts⟩ := (Option.any_eq_true _ _).mp hfacts
  obtain ⟨hdone, hok⟩ := Bool.and_eq_true_iff.mp hfacts
  obtain ⟨reply, hreply⟩ := threads_of_not_lastFailed hq (by simpa using hdone)
  obtain ⟨ms, hms⟩ := System.serial_isRun hp
  exact ⟨ms, p, q, reply, hms, hq, hreply, hok⟩

/-- A guest who was promoted goes on speaking. -/
theorem removed_from_room_fails :
    ¬ ∀ (s : Service) (I : Infra) (ms : List VoiceMove) (p : VoicePool),
      (s.system I).run ms = some p → ∀ c envs q,
      (s.system I).perform (.removeParticipant c, envs) p = some q → ∀ reply,
      q.threads = p.threads ++ [⟨.removeParticipant c, .ret reply⟩] →
      RemovedFrom p.state q.state c.roomID c.targetUserID := by
  intro hclaim
  obtain ⟨ms, p, q, reply, hms, hq, hreply, hactive⟩ := exists_dismissal (openRoom ++ promotion) []
    (fun _ q => (q.state.store.participantSessions.lookup
      (newID prefixParticipant (sampleUlid 7))).any fun session =>
        session.roomID = sampleRoom && session.userID = "guest" && session.status = .active)
    (by decide +kernel)
  obtain ⟨session, hl, hfacts⟩ := (Option.any_eq_true _ _).mp hactive
  simp only [Bool.and_eq_true, decide_eq_true_eq] at hfacts
  exact (hclaim _ _ ms p hms _ _ q hq reply hreply).participants _ session hl hfacts.1 hfacts.2

/-- The guest's session is the only one, active and marked. -/
def guestListens (w : World) : Bool :=
  decide (w.store.participantSessions.keys = ∅) &&
    decide (Presence.members w.presence.participants sampleRoom = ∅) &&
    decide (Presence.members w.presence.listeners sampleRoom = {guestSession}) &&
    (w.store.listenerSessions.lookup guestSession).any fun session =>
      session.roomID = sampleRoom && session.userID = "guest" && session.status = .active

theorem onlyListens_of_guestListens {w : World} (h : guestListens w = true) :
    OnlyListens sampleService w sampleRoom "guest" := by
  simp only [guestListens, Bool.and_eq_true, decide_eq_true_eq, and_assoc] at h
  obtain ⟨hparticipants, hmarks, hlisteners, hsession⟩ := h
  obtain ⟨session, hl, hfacts⟩ := (Option.any_eq_true _ _).mp hsession
  simp only [Bool.and_eq_true, decide_eq_true_eq] at hfacts
  refine ⟨fun k participant hl => ?_, fun id _ hmem => ?_, fun id _ hmem => ⟨rfl, session, ?_⟩⟩
  · have hk : k ∈ w.store.participantSessions.keys := Finmap.mem_of_lookup_eq_some hl
    rw [hparticipants] at hk
    exact absurd hk (Finset.notMem_empty k)
  · rw [hmarks] at hmem
    exact absurd hmem (Finset.notMem_empty id)
  · rw [hlisteners, Finset.mem_singleton] at hmem
    exact ⟨hmem ▸ hl, hfacts⟩

theorem removed_from_room_listener :
    ∃ p q, (sampleService.system (sampleInfra fun _ => false)).perform
        (guestDismissed [guestSession]) p = some q ∧ guestListens p.state = true ∧
      (q.state.store.listenerSessions.lookup guestSession).any (·.status = .removed) = true ∧
      RemovedFrom p.state q.state sampleRoom "guest" := by
  obtain ⟨ms, p, q, reply, hms, hq, hreply, hfacts⟩ := exists_dismissal
    (openRoom ++ [guestJoins]) [guestSession]
    (fun p q => guestListens p.state &&
      (q.state.store.listenerSessions.lookup guestSession).any (·.status = .removed))
    (by decide +kernel)
  obtain ⟨hlistens, hremoved⟩ := Bool.and_eq_true_iff.mp hfacts
  exact ⟨p, q, hq, hlistens, hremoved, (removed_from_room_iff _ _ ms p hms _ _ q hq reply
    hreply).mpr (onlyListens_of_guestListens hlistens)⟩

end WaveCast
