import WaveCast.Interaction.Tickets
import WaveCast.Attestation
import WaveCast.Finishing
import WaveCast.Lineage

/-!
# The log as an audit trail

In every interleaving, whatever fails, each event of the log is `Authentic`:
the command that appended it had saved the record it carries, the type and the
room are those of the record, and whoever it names as its actor could cause it.
No event id occurs twice, and the bus only carries events of the log
(`log_authentic`).
-/

namespace WaveCast

open Interaction

/-! ## What an event says -/

/-- The type, the room and the target of an event are those of its payload. -/
def EventEnvelope.Consistent (event : VoiceEvent) : Prop :=
  match event.payload with
  | .room room => room.id = event.roomID ∧
      (event.eventType = eventRoomCreated ∧ room.status = .draft ∨
        event.eventType = eventRoomStarted ∧ room.status = .live ∨
        event.eventType = eventRoomFinished ∧ room.status = .finished)
  | .listenerSession session => session.roomID = event.roomID ∧
      (event.eventType = eventListenerSessionStarted ∧ session.status = .active ∨
        event.eventType = eventListenerHeartbeatReceived ∧ session.status = .active ∨
        event.eventType = eventListenerSessionLeft ∧ session.status = .left ∨
        event.eventType = eventListenerSessionExpired ∧ session.status = .expired ∧
          session.userID = event.targetUserID)
  | .speakerRequest request =>
      request.roomID = event.roomID ∧ request.userID = event.targetUserID ∧
      (event.eventType = eventSpeakerRequested ∧ request.status = .pending ∨
        event.eventType = eventSpeakerApproved ∧ request.status = .approved ∧
          request.decidedBy = event.actorUserID ∨
        event.eventType = eventSpeakerDeclined ∧ request.status = .declined ∧
          request.decidedBy = event.actorUserID)
  | .speakingBlock block => block.roomID = event.roomID ∧ block.userID = event.targetUserID ∧
      (event.eventType = eventSpeakerBlocked ∧ block.unblockedAt = none ∧
          block.blockedBy = event.actorUserID ∨
        event.eventType = eventSpeakerUnblocked ∧ block.unblockedAt ≠ none ∧
          block.unblockedBy = event.actorUserID)
  | .recording recording => recording.roomID = event.roomID ∧
      (event.eventType = eventRecordingStarted ∧ recording.status = .started ∨
        event.eventType = eventRecordingCompleted ∧ recording.status = .completed)
  | .report report => report.roomID = event.roomID ∧ event.eventType = eventReportCompleted
  | .target target => target.roomID = event.roomID ∧ target.targetUserID = event.targetUserID ∧
      (event.eventType = eventSpeakerRevoked ∨ event.eventType = eventModerationUserRemoved)

/-- The events only a moderator of the room can cause. -/
def moderatorEvents : List String :=
  [eventRoomStarted, eventRoomFinished, eventSpeakerApproved, eventSpeakerDeclined,
    eventSpeakerRevoked, eventSpeakerBlocked, eventSpeakerUnblocked, eventModerationUserRemoved,
    eventRecordingStarted, eventRecordingCompleted, eventReportCompleted]

/-- The events a listener causes about its own session. -/
def listenerEvents : List String :=
  [eventListenerSessionStarted, eventListenerHeartbeatReceived, eventListenerSessionLeft]

/-- Who stands behind an event: the `actorUserID` it carries could cause it. -/
inductive Vouched (t : List VoiceEntry) (event : VoiceEvent) : Prop
  | owner (room : Room) (htype : event.eventType = eventRoomCreated)
      (hpayload : event.payload = .room room) (hactor : room.ownerID = event.actorUserID)
  | moderator (created : Room) (htype : event.eventType ∈ moderatorEvents)
      (hroom : CreatedAs t event.roomID created) (hactor : created.Moderates event.actorUserID)
  | listener (session : ListenerSession) (htype : event.eventType ∈ listenerEvents)
      (hpayload : event.payload = .listenerSession session)
      (hactor : session.userID = event.actorUserID)
  | requester (request : SpeakerRequest) (htype : event.eventType = eventSpeakerRequested)
      (hpayload : event.payload = .speakerRequest request)
      (hactor : request.userID = event.actorUserID)
  /-- A timeout has no actor. -/
  | timeout (htype : event.eventType = eventListenerSessionExpired)
      (hactor : event.actorUserID = "")

/-- What is known of an event that `e` appends after `older`. -/
structure Authentic (older : List VoiceEntry) (e : VoiceEntry) (event : VoiceEvent) : Prop where
  correlation : event.correlationID = e.cmd.correlationID
  actor : event.actorUserID = e.cmd.actor
  spoken : ¬ e.cmd.Silent
  creation : ∀ c, e.cmd = .createRoom c → event.eventType = eventRoomCreated
  drawn : ⟨.newID prefixEvent, event.eventID⟩ ∈ threadHistory e.thread older
  clocked : ⟨.now, event.occurredAt⟩ ∈ threadHistory e.thread older
  saved : event.payload.Saved (threadHistory e.thread older)
  consistent : event.Consistent
  vouched : Vouched older event

/-! ## Events are authentic -/

section Authentic

variable {s : Service} {I : Infra} {ms : List VoiceMove} {p : VoicePool} {i : ℕ}

theorem CheckedIn.moderates (h : (s.system I).run ms = some p) {roomID actorUserID roomID' : String}
    (hc : CheckedIn (threadHistory i p.trace) roomID actorUserID roomID') :
    ∃ created, CreatedAs p.trace roomID' created ∧ created.Moderates actorUserID := by
  obtain ⟨room, hread, hm, rfl⟩ := hc
  have hstored := room_was_stored (rooms_coherent (System.run_replays h)) hread
  obtain ⟨⟨created, hid⟩, -⟩ := room_identity h hstored
  rw [was_stored_room_id hstored]
  exact ⟨created, hid.creation, (hid.moderates actorUserID).mp hm⟩

/-- A notice of a moderator is vouched for by the room as it was created. -/
theorem CheckedIn.vouched (h : (s.system I).run ms = some p) {event : VoiceEvent} {roomID : String}
    (hc : CheckedIn (threadHistory i p.trace) roomID event.actorUserID event.roomID)
    (htype : event.eventType ∈ moderatorEvents) : Vouched p.trace event := by
  obtain ⟨created, hcreated, hm⟩ := hc.moderates h
  exact .moderator created htype hcreated hm

attribute [local simp] Notice.event envelope moderatorEvents listenerEvents in
/-- Every notice says what its record says, and somebody stands behind it. -/
theorem Notifies.authentic (h : (s.system I).run ms = some p) {n : Notice} {cmd : Command}
    (hn : Notifies (threadHistory i p.trace) n cmd) (correlationID eventID : String) (t : Time) :
    (n.event correlationID eventID t).Consistent ∧
      Vouched p.trace (n.event correlationID eventID t) := by
  cases cmd with
  | createRoom c =>
    obtain ⟨room, hstatus, howner, rfl⟩ := hn
    exact ⟨⟨rfl, .inl ⟨rfl, hstatus⟩⟩, .owner room rfl rfl howner⟩
  | startRoom c =>
    obtain ⟨room, hc, hstatus, rfl⟩ := hn
    exact ⟨⟨rfl, .inr (.inl ⟨rfl, hstatus⟩)⟩, hc.vouched h (by simp)⟩
  | finishRoom c =>
    obtain ⟨room, hc, hstatus, rfl⟩ := hn
    exact ⟨⟨rfl, .inr (.inr ⟨rfl, hstatus⟩)⟩, hc.vouched h (by simp)⟩
  | joinRoom c =>
    obtain ⟨session, huser, hstatus, rfl⟩ := hn
    exact ⟨⟨rfl, .inl ⟨rfl, hstatus⟩⟩, .listener session (by simp) rfl huser⟩
  | listenerHeartbeat c =>
    obtain ⟨session, huser, hstatus, rfl⟩ := hn
    exact ⟨⟨rfl, .inr (.inl ⟨rfl, hstatus⟩)⟩, .listener session (by simp) rfl huser⟩
  | leaveListener c =>
    obtain ⟨session, huser, hstatus, rfl⟩ := hn
    exact ⟨⟨rfl, .inr (.inr (.inl ⟨rfl, hstatus⟩))⟩,
      .listener session (by simp) rfl huser⟩
  | expireStaleListenerSessions cutoff limit correlationID =>
    obtain ⟨session, hstatus, rfl⟩ := hn
    exact ⟨⟨rfl, .inr (.inr (.inr ⟨rfl, hstatus, rfl⟩))⟩, .timeout rfl rfl⟩
  | requestToSpeak c =>
    obtain ⟨request, huser, hstatus, rfl⟩ := hn
    exact ⟨⟨rfl, huser, .inl ⟨rfl, hstatus⟩⟩, .requester request rfl rfl huser⟩
  | approveSpeakerRequest c =>
    obtain ⟨request, hc, hdecided, hstatus, rfl⟩ := hn
    exact ⟨⟨rfl, rfl, .inr (.inl ⟨rfl, hstatus, hdecided⟩)⟩, hc.vouched h (by simp)⟩
  | declineSpeakerRequest c =>
    obtain ⟨request, hc, hdecided, hstatus, rfl⟩ := hn
    exact ⟨⟨rfl, rfl, .inr (.inr ⟨rfl, hstatus, hdecided⟩)⟩, hc.vouched h (by simp)⟩
  | revokeSpeaker c =>
    obtain ⟨roomID, hc, rfl⟩ := hn
    exact ⟨⟨rfl, rfl, .inl rfl⟩, hc.vouched h (by simp)⟩
  | removeParticipant c =>
    obtain ⟨roomID, hc, rfl⟩ := hn
    exact ⟨⟨rfl, rfl, .inr rfl⟩, hc.vouched h (by simp)⟩
  | blockSpeaking c =>
    obtain ⟨block, hc, huser, hactive, hblocker, rfl⟩ := hn
    exact ⟨⟨rfl, huser, .inl ⟨rfl, hactive, hblocker⟩⟩, hc.vouched h (by simp)⟩
  | unblockSpeaking c =>
    obtain ⟨t', room, block₀, hc, hread, rfl⟩ := hn
    obtain ⟨-, hroom, huser, -⟩ := block_was_stored (System.run_replays h) hread
    exact ⟨⟨hroom, huser, .inr ⟨rfl, by simp [liftedBlock], rfl⟩⟩, hc.vouched h (by simp)⟩
  | startRecording c =>
    obtain ⟨recording, hc, hstatus, rfl⟩ := hn
    exact ⟨⟨rfl, .inl ⟨rfl, hstatus⟩⟩, hc.vouched h (by simp)⟩
  | stopRecording c =>
    obtain ⟨recording, hc, hstatus, rfl⟩ := hn
    exact ⟨⟨rfl, .inr ⟨rfl, hstatus⟩⟩, hc.vouched h (by simp)⟩
  | generateReport c =>
    obtain ⟨report, hc, rfl⟩ := hn
    exact ⟨⟨rfl, rfl⟩, hc.vouched h (by simp)⟩
  | _ => exact hn.elim

/-- What a call appends is authentic. -/
theorem appended_authentic (h : (s.system I).run ms = some p) {newer older : List VoiceEntry}
    {e : VoiceEntry} {event : VoiceEvent} (ht : p.trace = newer ++ e :: older)
    (hcall : e.exchange.call = .store (.appendEvent event)) : Authentic older e event := by
  have hsplit : p.trace = (newer ++ [e]) ++ older := by simp [ht]
  obtain ⟨n, q, hq, rfl⟩ := System.run_prefix h hsplit
  have hattests := run_attests h
  rw [ht] at hattests
  have happend := hattests.at
  rw [hcall] at happend
  obtain ⟨n, t, id, h₀, hhist, hsaved, hn, rfl⟩ := happend
  have hsub : h₀ ⊆ threadHistory e.thread q.trace := fun x hx => by simp [hhist, hx]
  obtain ⟨hconsistent, hvouched⟩ := (hn.mono hsub).authentic hq e.cmd.correlationID id t
  refine ⟨rfl, hn.actor, hn.not_silent, ?_, ?_, ?_, hsaved.mono hsub, hconsistent, hvouched⟩
  · intro c hc
    rw [hc] at hn
    obtain ⟨room, -, -, rfl⟩ := hn
    rfl
  · simp [hhist, Notice.event, envelope]
  · simp [hhist, Notice.event, envelope]

/-! ## Events are logged and published once -/

/-- The id a call draws for an event. -/
def drawnEventID : VoiceExchange → Option String
  | ⟨.newID pfx, id⟩ => if pfx = prefixEvent then some id else none
  | _ => none

def appendedID (x : VoiceExchange) : Option String := (appendedEvent x).map EventEnvelope.eventID

def publishedID (x : VoiceExchange) : Option String := (publishedEvent x).map EventEnvelope.eventID

theorem events_of_trace {t : List VoiceEntry} {w : World} (h : (s.system I).Replays t w) :
    w.store.events = (t.filterMap fun e => appendedEvent e.exchange).reverse ∧
      w.bus = (t.filterMap fun e => publishedEvent e.exchange).reverse := by
  refine System.replays_induction (I := fun t w =>
    w.store.events = (t.filterMap fun e => appendedEvent e.exchange).reverse ∧
      w.bus = (t.filterMap fun e => publishedEvent e.exchange).reverse) ⟨rfl, rfl⟩ ?_ h
  intro e older w₀ w₁ _ ih he
  rw [World.exec_events he, World.exec_bus he, ih.1, ih.2]
  constructor
  · cases hx : appendedEvent e.exchange <;> simp [hx]
  · cases hx : publishedEvent e.exchange <;> simp [hx]

/-- An event is appended under the id that was drawn just before. -/
theorem appends_redeem (h : (s.system I).run ms = some p) :
    AllRedeem drawnEventID appendedID p.trace := by
  refine (run_attests h).mono fun older e hattests k hk => ?_
  obtain ⟨event, happ, rfl⟩ := Option.map_eq_some_iff.mp hk
  rw [appendedEvent_eq_some.mp happ] at hattests
  obtain ⟨n, t, id, h₀, hhist, -, -, rfl⟩ := hattests
  refine ⟨[⟨.now, t⟩], ⟨.newID prefixEvent, id⟩, h₀, hhist, ?_, rfl, ?_⟩
  · simp [drawnEventID, Notice.event, envelope]
  · simp [appendedID, appendedEvent]

/-- An event is published when it has just been appended. -/
theorem publications_redeem (h : (s.system I).run ms = some p) :
    AllRedeem appendedID publishedID p.trace := by
  refine (run_attests h).mono fun older e hattests k hk => ?_
  obtain ⟨event, hpub, rfl⟩ := Option.map_eq_some_iff.mp hk
  rw [publishedEvent_eq_some.mp hpub] at hattests
  obtain ⟨h₀, hhist⟩ := hattests
  exact ⟨[], _, h₀, hhist, rfl, rfl, by simp⟩

theorem appended_once (h : (s.system I).run ms = some p) :
    FreshDraws (fun e : VoiceEntry => appendedID e.exchange) p.trace := by
  refine FreshDraws.redeemed ?_ (appends_redeem h)
  exact fresh_draws prefixEvent (System.run_replays h)

theorem published_once (h : (s.system I).run ms = some p) :
    FreshDraws (fun e : VoiceEntry => publishedID e.exchange) p.trace :=
  (appended_once h).redeemed (publications_redeem h)

/-- The bus only carries events of the log. -/
theorem bus_logged (h : (s.system I).run ms = some p) : p.state.bus ⊆ p.state.store.events := by
  intro event hevent
  obtain ⟨hlog, hbus⟩ := events_of_trace (System.run_replays h)
  rw [hbus, List.mem_reverse, List.mem_filterMap] at hevent
  obtain ⟨e, he, hpub⟩ := hevent
  obtain ⟨newer, older, ht⟩ := List.append_of_mem he
  have hattests := run_attests h
  rw [ht] at hattests
  have hat := hattests.at
  rw [publishedEvent_eq_some.mp hpub] at hat
  obtain ⟨h₀, hhist⟩ := hat
  have hmem : ⟨.store (.appendEvent event), .ok ()⟩ ∈ threadHistory e.thread older := by
    simp [hhist]
  obtain ⟨d, hd, -, hx⟩ := mem_threadHistory.mp hmem
  rw [hlog, List.mem_reverse, List.mem_filterMap]
  exact ⟨d, by simp [ht, hd], appendedEvent_eq_some.mpr hx⟩

theorem log_nodup (h : (s.system I).run ms = some p) :
    (p.state.store.events.map EventEnvelope.eventID).Nodup := by
  rw [(events_of_trace (System.run_replays h)).1, List.map_reverse, List.map_filterMap,
    List.nodup_reverse]
  exact (appended_once h).nodup

theorem bus_nodup (h : (s.system I).run ms = some p) :
    (p.state.bus.map EventEnvelope.eventID).Nodup := by
  rw [(events_of_trace (System.run_replays h)).2, List.map_reverse, List.map_filterMap,
    List.nodup_reverse]
  exact (published_once h).nodup

theorem logged_authentic (h : (s.system I).run ms = some p) {event : VoiceEvent}
    (hevent : event ∈ p.state.store.events) : ∃ newer e older, p.trace = newer ++ e :: older ∧
      e.exchange = ⟨.store (.appendEvent event), .ok ()⟩ ∧ Authentic older e event := by
  rw [(events_of_trace (System.run_replays h)).1, List.mem_reverse, List.mem_filterMap] at hevent
  obtain ⟨e, he, happ⟩ := hevent
  obtain ⟨newer, older, ht⟩ := List.append_of_mem he
  have hx := appendedEvent_eq_some.mp happ
  exact ⟨newer, e, older, ht, hx, appended_authentic h ht (by rw [hx])⟩

end Authentic

/-- **The log is an audit trail.** However the commands interleave and whatever
fails, no event id occurs twice in the log or on the bus, the bus carries
events of the log only, and every event of the log is authentic. -/
theorem log_authentic (s : Service) (I : Infra) (ms : List VoiceMove) (p : VoicePool)
    (h : (s.system I).run ms = some p) :
    (p.state.store.events.map EventEnvelope.eventID).Nodup ∧
      (p.state.bus.map EventEnvelope.eventID).Nodup ∧ p.state.bus ⊆ p.state.store.events ∧
      ∀ event ∈ p.state.store.events, ∃ newer e older, p.trace = newer ++ e :: older ∧
        e.exchange = ⟨.store (.appendEvent event), .ok ()⟩ ∧ Authentic older e event :=
  ⟨log_nodup h, bus_nodup h, bus_logged h, fun _ hevent => logged_authentic h hevent⟩

/-- The owner finishes the room while a moderator revokes a speaker; the bus
does not accept that the room has finished. -/
def crossing : List VoiceMove :=
  let owner := Move.call 2
  let moderator := Move.call 3
  movesFrom 0 openRoom ++
    [.start (.finishRoom ⟨sampleRoom, "owner", "over", "c1"⟩),
     .start (.revokeSpeaker ⟨sampleRoom, "moderator", "guest", "", "c2"⟩)] ++
    (plain 3).map owner ++ (plain 1).map moderator ++ (drawing 4).map owner ++
    (drawing 5 ++ plain 2).map moderator ++ (plain 2 ++ [failingEnv]).map owner ++
    (plain 1).map moderator

theorem log_authentic_crossing :
    ∃ p, (sampleService.system flakyBus).run crossing = some p ∧
      (p.state.store.events.length = 4 ∧ p.state.bus.length = 3) ∧
      (p.state.store.events.map EventEnvelope.eventID).Nodup ∧
      (p.state.bus.map EventEnvelope.eventID).Nodup ∧ p.state.bus ⊆ p.state.store.events ∧
      ∀ event ∈ p.state.store.events, ∃ newer e older, p.trace = newer ++ e :: older ∧
        e.exchange = ⟨.store (.appendEvent event), .ok ()⟩ ∧ Authentic older e event := by
  have hrun : ((sampleService.system flakyBus).run crossing).any (fun p =>
      p.state.store.events.length = 4 ∧ p.state.bus.length = 3) = true := by decide +kernel
  obtain ⟨p, hp, hlengths⟩ := (Option.any_eq_true _ _).mp hrun
  exact ⟨p, hp, of_decide_eq_true hlengths, log_authentic _ _ _ p hp⟩

end WaveCast
