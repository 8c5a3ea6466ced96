import WaveCast.Interaction.Ensures
import WaveCast.WellFormed

/-!
# Commands stay in their room

A command that is addressed to a room changes nothing that belongs to another
one, whatever ids it is given and whatever fails (`commands_confined`).
`call_confined` says so of every single call in every interleaving: what is
saved belongs to the room, and what it replaces belonged there too, because a
record never changes its room (`KeepsIdent.eq`).

A heartbeat or a leave touches only the session it names, and only for its own
user (`own_session_only`).
-/

namespace WaveCast

open Interaction WaveCast.Action Program Service

/-- The records outside the room are the same in both tables. -/
def Table.SameOutside {V : Type} (roomOf : V → String) (roomID : String) (t t' : Table V) : Prop :=
  ∀ k v, roomOf v ≠ roomID → (t'.lookup k = some v ↔ t.lookup k = some v)

/-- What was added to a list of events belongs to the room. -/
def OnlyAddsTo (roomID : String) (events events' : List VoiceEvent) : Prop :=
  ∃ new, events' = events ++ new ∧ ∀ event ∈ new, event.roomID = roomID

/-- Nothing that belongs to another room changes. -/
structure World.Confined (roomID : String) (w w' : World) : Prop where
  rooms : Table.SameOutside Room.id roomID w.store.rooms w'.store.rooms
  listenerSessions : Table.SameOutside ListenerSession.roomID roomID
    w.store.listenerSessions w'.store.listenerSessions
  participantSessions : Table.SameOutside ParticipantSession.roomID roomID
    w.store.participantSessions w'.store.participantSessions
  speakerRequests : Table.SameOutside SpeakerRequest.roomID roomID
    w.store.speakerRequests w'.store.speakerRequests
  speakingBlocks : Table.SameOutside SpeakingBlock.roomID roomID
    w.store.speakingBlocks w'.store.speakingBlocks
  recordings : Table.SameOutside RoomRecording.roomID roomID
    w.store.recordings w'.store.recordings
  reports : Table.SameOutside RoomReport.roomID roomID w.store.reportsByRoom w'.store.reportsByRoom
  listeners : ∀ k, k ≠ roomID → w'.presence.listeners.lookup k = w.presence.listeners.lookup k
  participants : ∀ k, k ≠ roomID →
    w'.presence.participants.lookup k = w.presence.participants.lookup k
  events : OnlyAddsTo roomID w.store.events w'.store.events
  bus : OnlyAddsTo roomID w.bus w'.bus

theorem Table.SameOutside.refl {V : Type} (roomOf : V → String) (roomID : String) (t : Table V) :
    Table.SameOutside roomOf roomID t t := fun _ _ _ => Iff.rfl

theorem Table.SameOutside.trans {V : Type} {roomOf : V → String} {roomID : String}
    {t t' t'' : Table V} (h : Table.SameOutside roomOf roomID t t')
    (h' : Table.SameOutside roomOf roomID t' t'') : Table.SameOutside roomOf roomID t t'' :=
  fun k v hv => (h' k v hv).trans (h k v hv)

theorem OnlyAddsTo.refl (roomID : String) (events : List VoiceEvent) :
    OnlyAddsTo roomID events events := ⟨[], by simp⟩

theorem OnlyAddsTo.trans {roomID : String} {events events' events'' : List VoiceEvent}
    (h : OnlyAddsTo roomID events events') (h' : OnlyAddsTo roomID events' events'') :
    OnlyAddsTo roomID events events'' := by
  obtain ⟨new, rfl, hnew⟩ := h
  obtain ⟨new', rfl, hnew'⟩ := h'
  refine ⟨new ++ new', List.append_assoc _ _ _, fun event he => ?_⟩
  exact (List.mem_append.mp he).elim (hnew event) (hnew' event)

namespace World.Confined

variable {roomID : String} {w w' w'' : World}

theorem refl (roomID : String) (w : World) : w.Confined roomID w :=
  ⟨.refl _ _ _, .refl _ _ _, .refl _ _ _, .refl _ _ _, .refl _ _ _, .refl _ _ _, .refl _ _ _,
    fun _ _ => rfl, fun _ _ => rfl, .refl _ _, .refl _ _⟩

theorem trans (h : w.Confined roomID w') (h' : w'.Confined roomID w'') :
    w.Confined roomID w'' where
  rooms := h.rooms.trans h'.rooms
  listenerSessions := h.listenerSessions.trans h'.listenerSessions
  participantSessions := h.participantSessions.trans h'.participantSessions
  speakerRequests := h.speakerRequests.trans h'.speakerRequests
  speakingBlocks := h.speakingBlocks.trans h'.speakingBlocks
  recordings := h.recordings.trans h'.recordings
  reports := h.reports.trans h'.reports
  listeners k hk := (h'.listeners k hk).trans (h.listeners k hk)
  participants k hk := (h'.participants k hk).trans (h.participants k hk)
  events := h.events.trans h'.events
  bus := h.bus.trans h'.bus

end World.Confined

/-! ## The steps stay in the room -/

section Steps

variable {s : Service} {older : List VoiceEntry} {e : VoiceEntry} {cmd : Command} {roomID : String}

theorem RoomChange.in_scope {room₀ room : Room} (h : RoomChange room₀ room cmd)
    (hs : roomScope cmd = some roomID) : room.id = roomID := by
  rw [h.id_eq]
  cases cmd with
  | startRoom c => cases hs; exact h.1
  | finishRoom c => cases hs; exact h.1
  | startRecording c => cases hs; exact h.1
  | stopRecording c => cases hs; exact h.1
  | _ => cases h

theorem NewSession.in_scope {session : ListenerSession} (h : NewSession older e session)
    (hs : roomScope e.cmd = some roomID) : session.roomID = roomID := by
  obtain ⟨c, t, room, hcmd, hroom, -, hsession⟩ := h
  rw [hcmd] at hs
  cases hs
  rw [hsession]
  exact hroom

theorem SessionStep.in_scope {session₀ session : ListenerSession}
    (h : SessionStep session₀ session cmd) (hs : roomScope cmd = some roomID) :
    session.roomID = roomID := by
  cases cmd with
  | listenerHeartbeat c => obtain ⟨-, hr, -, -, t, rfl⟩ := h; cases hs; exact hr
  | leaveListener c => obtain ⟨-, hr, -, t, rfl⟩ := h; cases hs; exact hr
  | removeParticipant c => obtain ⟨hr, -, -, t, rfl⟩ := h; cases hs; exact hr
  | closeRoomSessions roomID endedAt correlationID => obtain ⟨hr, rfl⟩ := h; cases hs; exact hr
  | expireStaleListenerSessions cutoff limit correlationID => cases hs
  | _ => cases h

theorem NewParticipantSession.in_scope {session : ParticipantSession}
    (h : NewParticipantSession older e session) (hs : roomScope e.cmd = some roomID) :
    session.roomID = roomID := by
  obtain ⟨roomID', userID, room, role, t, hscope, hroom, hsession⟩ := h
  rw [hsession]
  exact hroom.trans (Option.some.inj (hscope.symm.trans hs))

theorem NewRequest.in_scope {request : SpeakerRequest} (h : NewRequest older e request)
    (hs : roomScope e.cmd = some roomID) : request.roomID = roomID := by
  obtain ⟨c, t, room, hcmd, hroom, hrequest⟩ := h
  rw [hcmd] at hs
  cases hs
  rw [hrequest]
  exact hroom

theorem decision_scope {c : DecideSpeakerRequestCommand} {status : SpeakerRequestStatus}
    (h : decision cmd = some (c, status)) : roomScope cmd = some c.roomID := by
  cases cmd with
  | approveSpeakerRequest c => cases h; rfl
  | declineSpeakerRequest c => cases h; rfl
  | _ => cases h

theorem RequestStep.in_scope {request₀ request : SpeakerRequest}
    (h : RequestStep request₀ request cmd) (hs : roomScope cmd = some roomID) :
    request.roomID = roomID := by
  obtain ⟨c, status, t, hd, -, hr, -, -, rfl⟩ := h
  exact hr.trans (Option.some.inj ((decision_scope hd).symm.trans hs))

theorem NewBlock.in_scope {block : SpeakingBlock} (h : NewBlock older e block)
    (hs : roomScope e.cmd = some roomID) : block.roomID = roomID := by
  obtain ⟨c, t, room, hcmd, hroom, hblock⟩ := h
  rw [hcmd] at hs
  cases hs
  rw [hblock]
  exact hroom

theorem BlockStep.in_scope {block₀ block : SpeakingBlock} (h : BlockStep block₀ block cmd)
    (hs : roomScope cmd = some roomID) : block.roomID = roomID := by
  cases cmd with
  | unblockSpeaking c => obtain ⟨hr, -, -, -, t, rfl⟩ := h; cases hs; exact hr
  | _ => cases h

theorem NewRecording.in_scope {recording : RoomRecording} (h : NewRecording s older e recording)
    (hs : roomScope e.cmd = some roomID) : recording.roomID = roomID := by
  obtain ⟨c, t, room, hcmd, hroom, hrecording⟩ := h
  rw [hcmd] at hs
  cases hs
  rw [hrecording]
  exact hroom

theorem RecordingStep.in_scope {recording₀ recording : RoomRecording}
    (h : RecordingStep s recording₀ recording cmd) (hs : roomScope cmd = some roomID) :
    recording.roomID = roomID := by
  cases cmd with
  | stopRecording c => obtain ⟨-, hr, t, rfl⟩ := h; cases hs; exact hr
  | _ => cases h

/-- The room a command may speak of is its own. -/
theorem InRoom.in_scope {I : Infra} {w : World} {i : ℕ} {roomID' : String}
    (h : (s.system I).Replays older w) (hr : InRoom (threadHistory i older) roomID' cmd)
    (hs : roomScope cmd = some roomID) : roomID' = roomID := by
  have read : ∀ r, roomScope cmd = some r → RoomRead (threadHistory i older) r roomID' →
      roomID' = roomID := by
    rintro r hscope ⟨room, hread, rfl⟩
    exact (room_read_id h hread).trans (Option.some.inj (hscope.symm.trans hs))
  cases cmd with
  | createRoom c => cases hs
  | listenerHeartbeat c => cases hs; exact hr.1
  | leaveListener c => cases hs; exact hr.1
  | expireStaleListenerSessions cutoff limit correlationID => cases hs
  | closeRoomSessions r endedAt correlationID => cases hs; exact hr.1
  | _ =>
    obtain ⟨r, hscope, hread⟩ := hr
    exact read r hscope hread

end Steps

/-! ## Every call stays in the room -/

/-- A call that writes into a table what belongs to the room leaves the rest as
it was: a record never changes its room. -/
theorem sameOutside_of_evolves {V : Type} {saves : VoiceEntry → Option (String × V)}
    {pfx roomID : String} {new : List VoiceEntry → VoiceEntry → V → Prop}
    {step : VoiceEntry → V → V → Prop} {roomOf : V → String} {t t' : Table V}
    {older : List VoiceEntry} {e : VoiceEntry}
    (hev : Evolves saves (idDraws pfx) client new step (e :: older))
    (hfresh : FreshDraws (idDraws pfx) (e :: older))
    (ht : ∀ k, t.lookup k = lastWrite saves k older)
    (ht' : ∀ k, t'.lookup k = lastWrite saves k (e :: older))
    (hkeep : ∀ e v₀ v, step e v₀ v → roomOf v = roomOf v₀)
    (hnew : ∀ v, new older e v → roomOf v = roomID)
    (hstep : ∀ v₀ v, step e v₀ v → roomOf v = roomID) :
    Table.SameOutside roomOf roomID t t' := by
  intro k v hv
  rw [ht, ht']
  by_cases hw : ∃ v', saves e = some (k, v')
  · obtain ⟨v', hw⟩ := hw
    have hroom : roomOf v' = roomID := by
      rcases hev.1 k v' hw with ⟨-, hn⟩ | ⟨v₀, -, hst⟩
      · exact hnew v' hn
      · exact hstep v₀ v' hst
    rw [lastWrite_cons_self hw]
    constructor
    · rintro ⟨⟩
      exact absurd hroom hv
    · intro hold
      have heq := (hev.keepsIdent hfresh hkeep).eq (wasStored_cons.mpr (.inl hw))
        (wasStored_cons.mpr (.inr (.now hold)))
      exact absurd (heq.symm.trans hroom) hv
  · rw [lastWrite_cons_other fun v' hv' => hw ⟨v', hv'⟩]

section Calls

variable {s : Service} {I : Infra} {ms : List VoiceMove} {q : VoicePool}
  {older : List VoiceEntry} {e : VoiceEntry} {w w' : World} {roomID : String}

theorem presence_confined {c : PresenceCall} (hc : ∀ k, c.changedRoom = some k → k = roomID)
    (p : Presence) (k : String) (hk : k ≠ roomID) :
    (p.step c).2.listeners.lookup k = p.listeners.lookup k ∧
      (p.step c).2.participants.lookup k = p.participants.lookup k := by
  have unmarked : ∀ (t : Table (Finset String)) (r id : String), k ≠ r →
      (Presence.unmark t r id).lookup k = t.lookup k := by
    intro t r id hr
    unfold Presence.unmark
    split
    · exact Finmap.lookup_insert_of_ne _ hr
    · rfl
  cases c with
  | markListenerActive r _ _ _ | touchListener r _ _ | markParticipantActive r _ _ _ =>
    obtain rfl := hc r rfl
    exact ⟨by simp [Presence.step, Presence.mark, Finmap.lookup_insert_of_ne _ hk],
      by simp [Presence.step, Presence.mark, Finmap.lookup_insert_of_ne _ hk]⟩
  | markListenerInactive r _ | markParticipantInactive r _ =>
    obtain rfl := hc r rfl
    exact ⟨by simp [Presence.step, unmarked _ _ _ hk], by simp [Presence.step, unmarked _ _ _ hk]⟩
  | activeListenerCount | activeParticipantCount => exact ⟨rfl, rfl⟩

theorem stored_report_room {t : List VoiceEntry} {k : String} {report : RoomReport}
    (h : lastWrite reportSaves k t = some report) : report.roomID = k := by
  obtain ⟨e, -, he⟩ := exists_write_of_lastWrite h
  exact (savedReport_eq_some.mp he).2.symm

/-- **No call of a command leaves the room the command is addressed to**, in
any interleaving. -/
theorem call_confined (h : (s.system I).run ms = some q) (ht : q.trace = e :: older)
    (hw : (s.system I).Replays older w)
    (he : World.exec I e.env e.exchange.call w = some (e.exchange.answer, w'))
    (hs : roomScope e.cmd = some roomID) : w.Confined roomID w' := by
  have hw' : (s.system I).Replays (e :: older) w' := ⟨w, hw, he⟩
  have hacc := run_accounts h
  have hrooms := rooms_evolve h
  have hsessions := sessions_evolve h
  have hparticipants := participants_evolve h
  have hrequests := requests_evolve h
  have hblocks := blocks_evolve h
  have hrecordings := recordings_evolve h
  rw [ht] at hacc hrooms hsessions hparticipants hrequests hblocks hrecordings
  have hcall : ∀ c, e.exchange.call = c → Accounts s e.cmd (threadHistory e.thread older) c :=
    fun c hc => hc ▸ hacc.1
  have hroom : ∀ k, InRoom (threadHistory e.thread older) k e.cmd → k = roomID :=
    fun k hk => hk.in_scope hw hs
  constructor
  · refine sameOutside_of_evolves hrooms (fresh_draws _ hw') (lookup_rooms hw) (lookup_rooms hw')
      (fun _ _ _ hst => hst.id_eq) ?_ fun _ _ hst => hst.in_scope hs
    rintro room ⟨c, -, -, hcmd, -⟩
    rw [hcmd] at hs
    cases hs
  · exact sameOutside_of_evolves hsessions (fresh_draws _ hw') (lookup_listenerSessions hw)
      (lookup_listenerSessions hw') (fun _ _ _ hst => congrArg (·.2.1) hst.identity_eq)
      (fun _ hn => hn.in_scope hs) fun _ _ hst => hst.in_scope hs
  · exact sameOutside_of_evolves hparticipants (fresh_draws _ hw') (lookup_participantSessions hw)
      (lookup_participantSessions hw') (fun _ _ _ hst => hst.elim)
      (fun _ hn => hn.in_scope hs) fun _ _ hst => hst.elim
  · exact sameOutside_of_evolves hrequests (fresh_draws _ hw') (lookup_speakerRequests hw)
      (lookup_speakerRequests hw') (fun _ _ _ hst => congrArg (·.2.1) hst.identity_eq)
      (fun _ hn => hn.in_scope hs) fun _ _ hst => hst.in_scope hs
  · exact sameOutside_of_evolves hblocks (fresh_draws _ hw') (lookup_speakingBlocks hw)
      (lookup_speakingBlocks hw') (fun _ _ _ hst => congrArg (·.2.1) hst.identity_eq)
      (fun _ hn => hn.in_scope hs) fun _ _ hst => hst.in_scope hs
  · exact sameOutside_of_evolves hrecordings (fresh_draws _ hw') (lookup_recordings hw)
      (lookup_recordings hw') (fun _ _ _ hst => congrArg (·.2.1) hst.identity_eq)
      (fun _ hn => hn.in_scope hs) fun _ _ hst => hst.in_scope hs
  · -- a report is stored under its room
    intro k report hne
    rw [lookup_reports hw, lookup_reports hw']
    by_cases hsave : ∃ report', reportSaves e = some (k, report')
    · obtain ⟨report', hsave⟩ := hsave
      obtain ⟨hx, rfl⟩ := savedReport_eq_some.mp hsave
      have hk : report'.roomID = roomID :=
        hroom _ (hcall (.store (.saveReport report')) (congrArg Exchange.call hx))
      rw [lastWrite_cons_self hsave]
      constructor
      · rintro ⟨⟩
        exact absurd hk hne
      · intro hold
        exact absurd ((stored_report_room hold).trans hk) hne
    · rw [lastWrite_cons_other fun v hv => hsave ⟨v, hv⟩]
  · intro k hk
    rcases World.exec_presence he with heq | ⟨c, hc, heq⟩
    · rw [heq]
    · rw [heq]
      exact (presence_confined (fun k' hk' => hroom k' (hcall (.presence c) hc k' hk')) _ k hk).1
  · intro k hk
    rcases World.exec_presence he with heq | ⟨c, hc, heq⟩
    · rw [heq]
    · rw [heq]
      exact (presence_confined (fun k' hk' => hroom k' (hcall (.presence c) hc k' hk')) _ k hk).2
  · refine ⟨_, World.exec_events he, fun event hevent => ?_⟩
    have hx := appendedEvent_eq_some.mp (Option.mem_toList.mp hevent)
    exact hroom _ (hcall (.store (.appendEvent event)) (congrArg Exchange.call hx))
  · refine ⟨_, World.exec_bus he, fun event hevent => ?_⟩
    have hx := publishedEvent_eq_some.mp (Option.mem_toList.mp hevent)
    exact hroom _ (hcall (.publish event) (congrArg Exchange.call hx)).2

end Calls

theorem performed_confined {s : Service} {I : Infra} {ms : List VoiceMove} {p q : VoicePool}
    {job : Command × List Env} {roomID : String} (hp : (s.system I).run ms = some p)
    (hq : (s.system I).perform job p = some q) (hs : roomScope job.1 = some roomID) :
    p.state.Confined roomID q.state := by
  obtain ⟨o, -⟩ := System.perform_outcome hq (program_asks s job.1)
  obtain ⟨ms', hrun⟩ := System.perform_isRun hp hq
  have hcalls : ∀ newer older w, o.entries = newer ++ older →
      (s.system I).ReplaysFrom p.state older w → p.state.Confined roomID w := by
    intro newer older
    induction older generalizing newer with
    | nil =>
      rintro w - rfl
      exact .refl _ _
    | cons e older ih =>
      rintro w' ht ⟨w, hw, he⟩
      have hbefore := ih (newer ++ [e]) w (by simp [ht]) hw
      have htrace : q.trace = newer ++ e :: (older ++ p.trace) := by simp [o.trace_eq, ht]
      obtain ⟨n, q', hq', hqt⟩ := System.run_prefix hrun htrace
      have hcmd : e.cmd = job.1 := (o.own e (by simp [ht])).2.1
      exact hbefore.trans (call_confined hq' hqt (hw.append (System.run_replays hp)) he
        (by rw [hcmd]; exact hs))
  exact hcalls [] o.entries q.state rfl o.replays

/-! ## A listener's own session -/

/-- At most the one session changes, and only if it is the user's. -/
structure World.TouchesOnly (sessionID userID : String) (w w' : World) : Prop where
  others : ∀ k, k ≠ sessionID →
    w'.store.listenerSessions.lookup k = w.store.listenerSessions.lookup k
  tables : { w'.store with
    listenerSessions := w.store.listenerSessions, events := w.store.events } = w.store
  listeners : ∀ roomID k, k ≠ sessionID →
    (k ∈ Presence.members w'.presence.listeners roomID ↔
      k ∈ Presence.members w.presence.listeners roomID)
  participants : w'.presence.participants = w.presence.participants
  owner : w' ≠ w → ∃ session, w.store.listenerSessions.lookup sessionID = some session ∧
    session.userID = userID

/-- A call that changes at most the one session. -/
def OwnCall (sessionID : String) : Effect → Prop
  | .now => True
  | .newID _ => True
  | .store (.saveListenerSession session) => session.id = sessionID
  | .store (.appendEvent _) => True
  | .presence (.touchListener _ k _) => k = sessionID
  | .presence (.markListenerInactive _ k) => k = sessionID
  | .publish _ => True
  | _ => False

section OwnSession

variable {s : Service} {I : Infra} {w w' : World} {sessionID userID : String}

theorem Presence.mem_members_mark {t : Table (Finset String)} {roomID k roomID' k' : String} :
    k' ∈ Presence.members (Presence.mark t roomID k) roomID' ↔
      (roomID' = roomID ∧ k' = k) ∨ k' ∈ Presence.members t roomID' := by
  rw [Presence.members_mark]
  split <;> simp [*]

theorem Presence.mem_members_unmark {t : Table (Finset String)} {roomID k roomID' k' : String} :
    k' ∈ Presence.members (Presence.unmark t roomID k) roomID' ↔
      k' ∈ Presence.members t roomID' ∧ ¬ (roomID' = roomID ∧ k' = k) := by
  rw [Presence.members_unmark]
  split <;> simp [*, and_comm]

/-- What a heartbeat or a leave may have done after it found the session. -/
theorem World.TouchesOnly.exec {w₀ : World} {env : Env} {e : Effect} {a : e.Answer}
    (howner : ∃ session, w₀.store.listenerSessions.lookup sessionID = some session ∧
      session.userID = userID)
    (hown : OwnCall sessionID e) (h : World.exec I env e w = some (a, w'))
    (ht : w₀.TouchesOnly sessionID userID w) : w₀.TouchesOnly sessionID userID w' := by
  obtain ⟨hothers, htables, hlisteners, hparticipants, -⟩ := ht
  rcases World.exec_cases h with ⟨-, -, -, rfl⟩ | ⟨-, hp⟩
  · exact ⟨hothers, htables, hlisteners, hparticipants, fun _ => howner⟩
  cases e with
  | now | publish => cases hp; exact ⟨hothers, htables, hlisteners, hparticipants, fun _ => howner⟩
  | newID pfx =>
    obtain ⟨-, -, rfl⟩ := World.exec_newID h
    exact ⟨hothers, htables, hlisteners, hparticipants, fun _ => howner⟩
  | store c =>
    cases c with
    | saveListenerSession session =>
      obtain rfl : session.id = sessionID := hown
      cases hp
      refine ⟨fun k hk => ?_, htables, hlisteners, hparticipants, fun _ => howner⟩
      rw [← hothers k hk]
      exact Finmap.lookup_insert_of_ne _ hk
    | appendEvent event =>
      cases hp
      exact ⟨hothers, htables, hlisteners, hparticipants, fun _ => howner⟩
    | _ => cases hown
  | presence c =>
    cases c with
    | touchListener roomID k ttl =>
      obtain rfl : k = sessionID := hown
      cases hp
      refine ⟨hothers, htables, fun roomID' k' hk => ?_, hparticipants, fun _ => howner⟩
      rw [← hlisteners roomID' k' hk]
      simp [Presence.step, Presence.mem_members_mark, hk]
    | markListenerInactive roomID k =>
      obtain rfl : k = sessionID := hown
      cases hp
      refine ⟨hothers, htables, fun roomID' k' hk => ?_, hparticipants, fun _ => howner⟩
      rw [← hlisteners roomID' k' hk]
      simp [Presence.step, Presence.mem_members_unmark, hk]
    | _ => cases hown
  | _ => cases hown

theorem World.TouchesOnly.refl (w : World) : w.TouchesOnly sessionID userID w :=
  ⟨fun _ _ => rfl, rfl, fun _ _ _ => Iff.rfl, rfl, fun h => absurd rfl h⟩

/-- A command that reads the session, checks its room and user, and then makes
only calls about that session. -/
theorem own_session {α : Type} {roomID : String} {f : ListenerSession → Action α}
    (hid : ∀ session, w.store.listenerSessions.lookup sessionID = some session →
      session.id = sessionID)
    (hf : ∀ session h, session.id = sessionID →
      Follows (S := effects) (fun _ e => OwnCall sessionID e) anyResult h (f session)) :
    Ensures (S := effects) (World.exec I) (fun _ _ w' => w.TouchesOnly sessionID userID w') [] w
      ((store (.getListenerSession sessionID)).bind fun session =>
        (require (session.roomID = roomID && session.userID = userID) .permissionDenied).bind
          fun _ => f session) := by
  intro env a w₁ hx
  rcases World.exec_store hx with ⟨rfl, rfl⟩ | ⟨st, hs, rfl⟩
  · exact .refl _
  · cases hs
    cases hl : w.store.listenerSessions.lookup sessionID with
    | none => exact .refl _
    | some session =>
      simp only [Store.found, ofExcept_ok, ret_bind, ensures_require]
      refine ⟨fun hown => ?_, fun _ => .refl _⟩
      simp only [Bool.and_eq_true, decide_eq_true_eq] at hown
      have howner : ∃ session, w.store.listenerSessions.lookup sessionID = some session ∧
          session.userID = userID := ⟨session, hl, hown.2⟩
      exact Follows.ensures_invariant (fun _ _ _ _ _ hc hx ht => ht.exec howner hc hx)
        (hf session _ (hid session hl)) (.refl _)

end OwnSession

/-- `publish` makes no other calls than the ones any listener may make. -/
theorem ownCall_publish {α : Type} {sessionID eventType roomID actorUserID targetUserID
    correlationID : String} {payload : Payload} {h : List VoiceExchange} (x : α) :
    Follows (S := effects) (fun _ e => OwnCall sessionID e) anyResult h
      ((publish eventType roomID actorUserID targetUserID correlationID payload).bind
        fun _ => .ret x) := by
  simp [publish, bind_assoc, follows_fresh, follows_now, follows_store, follows_ask,
    follows_ofExcept, OwnCall]

theorem ownCall_presenceDo {α : Type} {s : Service} {sessionID : String} {c : PresenceCall}
    {h : List VoiceExchange} {f : Unit → Action α} (hc : OwnCall sessionID (.presence c))
    (hf : ∀ h, Follows (S := effects) (fun _ e => OwnCall sessionID e) anyResult h (f ())) :
    Follows (S := effects) (fun _ e => OwnCall sessionID e) anyResult h
      ((s.presenceDo c).bind f) := by
  rw [presenceDo]
  split
  · simp [present, bind_assoc, follows_ask, follows_ofExcept, hc, hf]
  · exact hf h

theorem listenerHeartbeat_own {s : Service} {I : Infra} {w : World}
    (c : ListenerHeartbeatCommand)
    (hid : ∀ session, w.store.listenerSessions.lookup c.sessionID = some session →
      session.id = c.sessionID) :
    Ensures (S := effects) (World.exec I)
      (fun _ _ w' => w.TouchesOnly c.sessionID c.userID w') [] w
      (s.program (.listenerHeartbeat c)) := by
  simp only [Service.program, listenerHeartbeat, map_eq, bind_eq, pure_eq, bind_assoc, ret_bind]
  refine own_session hid fun session h hs => ?_
  simp only [follows_require, follows_now, follows_store, OwnCall, true_and, implies_true,
    and_true]
  exact fun _ t => ⟨hs, fun _ => ownCall_presenceDo hs fun _ => ownCall_publish _⟩

theorem leaveListener_own {s : Service} {I : Infra} {w : World} (c : LeaveListenerCommand)
    (hid : ∀ session, w.store.listenerSessions.lookup c.sessionID = some session →
      session.id = c.sessionID) :
    Ensures (S := effects) (World.exec I)
      (fun _ _ w' => w.TouchesOnly c.sessionID c.userID w') [] w
      (s.program (.leaveListener c)) := by
  simp only [Service.program, leaveListener, map_eq, bind_eq, pure_eq, bind_assoc, ret_bind]
  refine own_session hid fun session h hs => ?_
  simp only [follows_now, follows_store, OwnCall, true_and, implies_true, and_true]
  exact fun t => ⟨hs, fun _ => ownCall_presenceDo hs fun _ => ownCall_publish _⟩

/-- **Commands are confined to their room and their caller.** From every pool
that a run has reached, a command addressed to a room leaves everything of the
other rooms as it was and appends only events of its room; a heartbeat or a
leave changes at most the session it names, if that is its user's. -/
theorem commands_confined (s : Service) (I : Infra) (ms : List VoiceMove) (p q : VoicePool)
    (cmd : Command) (envs : List Env) (hp : (s.system I).run ms = some p)
    (hq : (s.system I).perform (cmd, envs) p = some q) :
    (∀ roomID, roomScope cmd = some roomID → p.state.Confined roomID q.state) ∧
    (∀ c, cmd = .listenerHeartbeat c → p.state.TouchesOnly c.sessionID c.userID q.state) ∧
    ∀ c, cmd = .leaveListener c → p.state.TouchesOnly c.sessionID c.userID q.state := by
  have hid : ∀ k session, p.state.store.listenerSessions.lookup k = some session →
      session.id = k := by
    intro k session hl
    rw [lookup_listenerSessions (System.run_replays hp)] at hl
    exact stored_session_id hl
  obtain ⟨o, -⟩ := System.perform_outcome hq (program_asks s cmd)
  refine ⟨fun roomID hs => performed_confined hp hq hs, ?_, ?_⟩
  · rintro c rfl
    exact System.perform_ensures hq o (listenerHeartbeat_own c (hid c.sessionID))
  · rintro c rfl
    exact System.perform_ensures hq o (leaveListener_own c (hid c.sessionID))

/-- A guest joins as a listener. -/
def guestJoins : Command × List Env :=
  (.joinRoom ⟨sampleRoom, "guest", ""⟩, plain 3 ++ drawing 4 ++ plain 2 ++ publishing 5)

def guestSession : String := newID prefixListenerSession (sampleUlid 4)

/-- The listener leaves again. -/
def guestLeaves : Command × List Env :=
  (.leaveListener ⟨sampleRoom, guestSession, "guest", "", ""⟩, plain 4 ++ publishing 6)

theorem commands_confined_leave :
    ∃ p q, (sampleService.system (sampleInfra fun _ => false)).run
        (movesFrom 0 (openRoom ++ [guestJoins])) = some p ∧
      (sampleService.system (sampleInfra fun _ => false)).perform guestLeaves p = some q ∧
      p.state.Confined sampleRoom q.state ∧ p.state.TouchesOnly guestSession "guest" q.state := by
  have hrun : ((sampleService.system (sampleInfra fun _ => false)).run
      (movesFrom 0 (openRoom ++ [guestJoins]))).any (fun p =>
        ((sampleService.system (sampleInfra fun _ => false)).perform guestLeaves p).isSome) =
      true := by
    decide +kernel
  obtain ⟨p, hp, hq⟩ := (Option.any_eq_true _ _).mp hrun
  obtain ⟨q, hq⟩ := Option.isSome_iff_exists.mp hq
  have h := commands_confined _ _ _ p q _ _ hp hq
  exact ⟨p, q, hp, hq, h.1 sampleRoom rfl, h.2.2 _ rfl⟩

end WaveCast
