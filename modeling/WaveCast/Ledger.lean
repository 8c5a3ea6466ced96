import WaveCast.Alone
import WaveCast.WellFormed

/-!
# What a command leaves behind

The store, the presence store and the bus together are the `Ledger` of the
service. `Posting` says what can be entered in it at once while commands run
one after the other: a record and the event that reports it, a session and its
mark, or an event alone. Every command makes such entries and no others,
whichever calls of the bus and of the token issuer fail, and if none of them
fails an error leaves the ledger as it was (`program_concludes`).
-/

namespace WaveCast

open Interaction WaveCast.Action Program Service

/-! ## Facts -/

/-- What an event says about the stored records. -/
inductive Fact where
  | room (roomID : String) (status : RoomStatus)
  | request (requestID : String) (status : SpeakerRequestStatus)
  | blocked (roomID userID : String)
  | unblocked (roomID userID : String)
  | recording (recordingID : String) (status : RecordingStatus)
  | report (roomID : String) (report : RoomReport)
  deriving DecidableEq

/-- The fact of an event, from its type and from whom it is about; most events
have none. -/
def factOf (event : VoiceEvent) : Option Fact :=
  if event.eventType = eventRoomCreated then some (.room event.roomID .draft)
  else if event.eventType = eventRoomStarted then some (.room event.roomID .live)
  else if event.eventType = eventRoomFinished then some (.room event.roomID .finished)
  else if event.eventType = eventSpeakerBlocked then
    some (.blocked event.roomID event.targetUserID)
  else if event.eventType = eventSpeakerUnblocked then
    some (.unblocked event.roomID event.targetUserID)
  else match event.payload with
    | .speakerRequest request =>
        if event.eventType = eventSpeakerRequested then some (.request request.id .pending)
        else if event.eventType = eventSpeakerApproved then some (.request request.id .approved)
        else if event.eventType = eventSpeakerDeclined then some (.request request.id .declined)
        else none
    | .recording recording =>
        if event.eventType = eventRecordingStarted then some (.recording recording.id .started)
        else if event.eventType = eventRecordingCompleted then
          some (.recording recording.id .completed)
        else none
    | .report report =>
        if event.eventType = eventReportCompleted then some (.report event.roomID report) else none
    | _ => none

/-! ## The ledger -/

structure Ledger where
  store : Store
  presence : Presence
  /-- The events the bus accepted, oldest first. -/
  bus : List VoiceEvent

def World.ledger (w : World) : Ledger := ⟨w.store, w.presence, w.bus⟩

/-- The presence store after the status of a session was entered. -/
def Presence.showing (p : Presence) (session : ListenerSession) : Presence :=
  { p with
    listeners := if session.status = .active then mark p.listeners session.roomID session.id
      else unmark p.listeners session.roomID session.id }

def Presence.seating (p : Presence) (session : ParticipantSession) : Presence :=
  { p with participants := mark p.participants session.roomID session.id }

namespace Ledger

variable (l : Ledger)

def saved (c : StoreCall) : Ledger := { l with store := c.apply l.store }

/-- An event is in the log, and on the bus if it was accepted there. -/
def logged (event : VoiceEvent) (accepted : Bool) : Ledger :=
  { l with
    store := { l.store with events := l.store.events ++ [event] }
    bus := if accepted then l.bus ++ [event] else l.bus }

/-- A listener session is saved, and in the presence store if there is one. -/
def shown (s : Service) (session : ListenerSession) : Ledger :=
  { l.saved (.saveListenerSession session) with
    presence := if s.hasPresence then l.presence.showing session else l.presence }

def seated (s : Service) (session : ParticipantSession) : Ledger :=
  { l.saved (.saveParticipantSession session) with
    presence := if s.hasPresence then l.presence.seating session else l.presence }

/-- Whatever is stored under the id of the session was in the same room. -/
def Places (session : ListenerSession) : Prop :=
  ∀ session₀, l.store.listenerSessions.lookup session.id = some session₀ →
    session₀.roomID = session.roomID

/-- No block keeps the user from speaking in the room. -/
def Unblocked (roomID userID : String) : Prop :=
  ∀ k block, l.store.speakingBlocks.lookup k = some block → block.roomID = roomID →
    block.userID = userID → block.unblockedAt ≠ none

end Ledger

/-- One entry in the ledger. -/
inductive Posting (s : Service) (I : Infra) (l : Ledger) : Ledger → Prop
  | event (event : VoiceEvent) (accepted : Bool) (hfact : factOf event = none) :
      Posting s I l (l.logged event accepted)
  | room (room : Room) (event : VoiceEvent) (accepted : Bool)
      (hfact : factOf event = some (.room room.id room.status)) :
      Posting s I l ((l.saved (.saveRoom room)).logged event accepted)
  | request (request : SpeakerRequest) (event : VoiceEvent) (accepted : Bool)
      (hfact : factOf event = some (.request request.id request.status)) :
      Posting s I l ((l.saved (.saveSpeakerRequest request)).logged event accepted)
  | block (block : SpeakingBlock) (event : VoiceEvent) (accepted : Bool)
      (hnew : l.store.speakingBlocks.lookup block.id = none) (hactive : block.unblockedAt = none)
      (hfree : l.Unblocked block.roomID block.userID)
      (hfact : factOf event = some (.blocked block.roomID block.userID)) :
      Posting s I l ((l.saved (.saveSpeakingBlock block)).logged event accepted)
  | unblock (block₀ block : SpeakingBlock) (event : VoiceEvent) (accepted : Bool)
      (hold : l.store.speakingBlocks.lookup block.id = some block₀)
      (hactive : block₀.unblockedAt = none) (hlifted : block.unblockedAt ≠ none)
      (hroom : block.roomID = block₀.roomID) (huser : block.userID = block₀.userID)
      (hfact : factOf event = some (.unblocked block.roomID block.userID)) :
      Posting s I l ((l.saved (.saveSpeakingBlock block)).logged event accepted)
  | recording (recording : RoomRecording) (room₀ room : Room) (event : VoiceEvent)
      (accepted : Bool) (hold : l.store.rooms.lookup room.id = some room₀)
      (hstatus : room.status = room₀.status)
      (hfact : factOf event = some (.recording recording.id recording.status)) :
      Posting s I l
        (((l.saved (.saveRecording recording)).saved (.saveRoom room)).logged event accepted)
  | report (report : RoomReport) (event : VoiceEvent) (accepted : Bool)
      (hfact : factOf event = some (.report report.roomID report)) :
      Posting s I l ((l.saved (.saveReport report)).logged event accepted)
  | listener (session : ListenerSession) (hplaces : l.Places session) :
      Posting s I l (l.shown s session)
  | participant (session : ParticipantSession) (hactive : session.status = .active)
      (hnew : l.store.participantSessions.lookup session.id = none) :
      Posting s I l (l.seated s session)
  /-- The presence store has failed. -/
  | unshown (session : ListenerSession) (hplaces : l.Places session) (hI : ¬ I.KeepsPresence) :
      Posting s I l (l.saved (.saveListenerSession session))
  | unseated (session : ParticipantSession) (hI : ¬ I.KeepsPresence) :
      Posting s I l (l.saved (.saveParticipantSession session))

/-- Some postings lead from the one ledger to the other. -/
abbrev Reaches (s : Service) (I : Infra) : Ledger → Ledger → Prop :=
  Relation.ReflTransGen (Posting s I)

/-- A call of the bus or of the token issuer has failed. -/
def Halted (h : List VoiceExchange) : Prop :=
  (∃ event e, ⟨.publish event, .error e⟩ ∈ h) ∨
    ∃ input e, ⟨.issueSpeakerToken input, .error e⟩ ∈ h

/-- How a command that started in `w₀` fails. -/
structure Aborts (s : Service) (I : Infra) (w₀ : World) (h : List VoiceExchange) (w : World) :
    Prop where
  reaches : Reaches s I w₀.ledger w.ledger
  unchanged : I.KeepsPresence → Halted h ∨ w.ledger = w₀.ledger

/-- How a command that started in `w₀` ends. -/
def Concludes {α : Type} (s : Service) (I : Infra) (w₀ : World) (h : List VoiceExchange) :
    Except AppError α → World → Prop
  | .ok _, w => Reaches s I w₀.ledger w.ledger
  | .error _, w => Aborts s I w₀ h w

theorem Concludes.reaches {α : Type} {s : Service} {I : Infra} {w₀ w : World}
    {h : List VoiceExchange} {r : Except AppError α} (hc : Concludes s I w₀ h r w) :
    Reaches s I w₀.ledger w.ledger := by
  cases r with
  | ok a => exact hc
  | error e => exact hc.1

/-! ## Rules -/

section Rules

variable {α β : Type} {s : Service} {I : Infra} {w₀ w : World} {h : List VoiceExchange}

theorem Aborts.refused (hw : w.ledger = w₀.ledger) : Aborts s I w₀ h w :=
  ⟨hw ▸ .refl, fun _ => .inr hw⟩

/-- An event is published; it is in the ledger also when the bus does not accept it. -/
theorem ensures_posted (hI : I.KeepsStore)
    {eventType roomID actorUserID targetUserID correlationID : String} {payload : Payload}
    {f : Unit → Action α}
    (hpost : ∀ id t accepted, Reaches s I w₀.ledger (w.ledger.logged (envelope eventType roomID
      actorUserID targetUserID correlationID payload id t) accepted))
    (hf : ∀ h w, Reaches s I w₀.ledger w.ledger →
      Ensures (S := effects) (World.exec I) (Concludes s I w₀) h w (f ())) :
    Ensures (S := effects) (World.exec I) (Concludes s I w₀) h w
      ((publish eventType roomID actorUserID targetUserID correlationID payload).bind f) :=
  ensures_publish hI (fun _ t h => hf h _ (hpost _ t true))
    fun _ t _ _ hx => ⟨hpost _ t false, fun _ => .inl (.inl ⟨_, _, hx⟩)⟩

/-- A listener session is saved and then shown in the presence store. -/
theorem ensures_shown (hI : I.KeepsStore) (hw : Reaches s I w₀.ledger w.ledger)
    {session : ListenerSession} {c : PresenceCall}
    (hc : ∀ p, (Presence.step c p).2 = p.showing session) (hplaces : w.ledger.Places session)
    {f : Unit → Action α}
    (hf : ∀ h w', w'.ledger = w.ledger.shown s session →
      Ensures (S := effects) (World.exec I) (Concludes s I w₀) h w' (f ())) :
    Ensures (S := effects) (World.exec I) (Concludes s I w₀) h w
      ((store (.saveListenerSession session)).bind fun _ => (s.presenceDo c).bind f) := by
  refine ensures_save hI id fun _ h => ?_
  refine ensures_presenceDo (fun h => hf h _ ?_) fun _ hfail h e _ => ?_
  · simp only [World.ledger, presented, hc]
    rfl
  · have hpresence : ¬ I.KeepsPresence := fun hp => by simp [hp c] at hfail
    exact ⟨hw.tail (.unshown session hplaces hpresence), fun hp => absurd hp hpresence⟩

theorem ensures_seated (hI : I.KeepsStore) (hw : Reaches s I w₀.ledger w.ledger)
    {session : ParticipantSession} {c : PresenceCall}
    (hc : ∀ p, (Presence.step c p).2 = p.seating session) {f : Unit → Action α}
    (hf : ∀ h w', w'.ledger = w.ledger.seated s session →
      Ensures (S := effects) (World.exec I) (Concludes s I w₀) h w' (f ())) :
    Ensures (S := effects) (World.exec I) (Concludes s I w₀) h w
      ((store (.saveParticipantSession session)).bind fun _ => (s.presenceDo c).bind f) := by
  refine ensures_save hI id fun _ h => ?_
  refine ensures_presenceDo (fun h => hf h _ ?_) fun _ hfail h e _ => ?_
  · simp only [World.ledger, presented, hc]
    rfl
  · have hpresence : ¬ I.KeepsPresence := fun hp => by simp [hp c] at hfail
    exact ⟨hw.tail (.unseated session hpresence), fun hp => absurd hp hpresence⟩

/-- A token is issued, or the command fails for want of it. -/
theorem ensures_token (hw : Reaches s I w₀.ledger w.ledger) {input : SpeakerTokenInput}
    {f : SpeakerMediaDescriptor → α} :
    Ensures (S := effects) (World.exec I) (Concludes s I w₀) h w
      ((ask (.issueSpeakerToken input)).bind fun a => (ofExcept a).bind fun d => .ret (f d)) := by
  refine ensures_external ?_ fun a => ?_
  · intro env a w' hx
    rcases World.exec_cases hx with ⟨-, -, -, rfl⟩ | ⟨-, hp⟩
    · rfl
    · cases hp
      rfl
  · cases a with
    | ok d => exact hw
    | error e => exact ⟨hw, fun _ => .inl (.inr ⟨input, e, List.mem_cons_self⟩)⟩

/-- Nothing that is enqueued is in the ledger. -/
theorem ensures_enqueued {Q : List VoiceExchange → Except AppError α → World → Prop}
    {jobType idempotencyKey : String} {payload : RoomJobPayload} {f : Unit → Action α}
    (hf : ∀ h w', w'.ledger = w.ledger → Ensures (S := effects) (World.exec I) Q h w' (f ())) :
    Ensures (S := effects) (World.exec I) Q h w
      ((s.enqueueBestEffort jobType idempotencyKey payload).bind f) := by
  rw [enqueueBestEffort]
  split
  · simp only [bind_eq, pure_eq, bind_assoc, ret_bind]
    intro env a w' hx
    refine hf _ _ ?_
    rcases World.exec_cases hx with ⟨-, -, -, rfl⟩ | ⟨-, hp⟩
    · rfl
    · cases hp
      rfl
  · exact hf h w rfl

/-- A loop whose rounds make postings. -/
theorem ensures_rounds {xs : List β} {f : β → Action Unit} {g : Unit → Action α}
    (hw : Reaches s I w₀.ledger w.ledger)
    (round : ∀ x ∈ xs, ∀ h w, Reaches s I w₀.ledger w.ledger →
      Ensures (S := effects) (World.exec I) (Concludes s I w₀) h w (f x))
    (hg : ∀ h w, Reaches s I w₀.ledger w.ledger →
      Ensures (S := effects) (World.exec I) (Concludes s I w₀) h w (g ())) :
    Ensures (S := effects) (World.exec I) (Concludes s I w₀) h w ((forEach xs f).bind g) := by
  rw [ensures_bind]
  refine ensures_forEach (fun _ _ w => Reaches s I w₀.ledger w.ledger) [] h w hw ?_ hg
  rintro done x rest rfl h w hw
  refine (round x (by simp) h w hw).mono fun h r w hr => ?_
  cases r with
  | ok _ => exact hr
  | error e => exact hr

end Rules

/-! ## A deployment -/

/-- Stores that do not fail, behind a bus and a token issuer that may. -/
def flakyEdge : Infra :=
  sampleInfra fun e => match e with
    | .publish _ => true
    | .issueSpeakerToken _ => true
    | _ => false

theorem flakyEdge_keepsStore : flakyEdge.KeepsStore := fun _ => rfl

theorem flakyEdge_keepsPresence : flakyEdge.KeepsPresence := fun _ => rfl

end WaveCast
