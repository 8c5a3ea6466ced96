import WaveCast.Runs

/-!
# Candid programs

A command ends with an internal error exactly when one of its calls failed:
none makes a call after one that failed or hides it, and none makes an internal
error of its own (`program_candid`). Only `Enqueue` is best effort. The
in-process backends fail when they are chosen to (`World.exec_internal`).
-/

namespace WaveCast

open Interaction WaveCast.Action Program Service

/-! ## Programs hide no failure -/

/-- A component failed. -/
def Internal {α : Type} (r : Except AppError α) : Prop := ∃ text, r = .error (.external text)

/-- How a call ended for the command that made it. What becomes of a job is only logged. -/
def outcome : VoiceExchange → Except AppError Unit
  | ⟨.store _, a⟩ => Except.map (fun _ => ()) a
  | ⟨.presence _, a⟩ => Except.map (fun _ => ()) a
  | ⟨.publish _, a⟩ => a
  | ⟨.issueSpeakerToken _, a⟩ => Except.map (fun _ => ()) a
  | ⟨.connectionToken _, a⟩ => Except.map (fun _ => ()) a
  | ⟨.subscriptionToken _ _, a⟩ => Except.map (fun _ => ()) a
  | ⟨.playbackURL _ _, a⟩ => Except.map (fun _ => ()) a
  | ⟨.now, _⟩ | ⟨.newID _, _⟩ | ⟨.enqueue _, _⟩ => .ok ()

/-- No call of the history has failed. -/
def Clean (h : List VoiceExchange) : Prop := ∀ x ∈ h, ¬ Internal (outcome x)

/-- The outcome tells whether a call has failed. -/
def Tells {α : Type} (h : List VoiceExchange) (r : Except AppError α) : Prop :=
  Internal r ↔ ¬ Clean h

/-- Whatever it is answered, the program makes no call after one that failed, and
its outcome tells whether one did. -/
structure Candid {α : Type} (p : Action α) : Prop where
  follows : ∀ h, Clean h → Follows (S := effects) (fun h _ => Clean h) Tells h p

section Candid

variable {α β : Type}

@[simp] theorem not_internal_ok (a : α) : ¬ Internal (.ok a : Except AppError α) := by
  simp [Internal]

@[simp] theorem internal_error {e : AppError} :
    Internal (.error e : Except AppError α) ↔ ∃ text, e = .external text := by
  simp [Internal]

@[simp] theorem internal_map {r : Except AppError α} {f : α → β} :
    Internal (r.map f) ↔ Internal r := by
  cases r with
  | ok a => exact iff_of_false (not_internal_ok _) (not_internal_ok a)
  | error e => exact internal_error.trans internal_error.symm

theorem clean_nil : Clean [] := by simp [Clean]

theorem clean_cons {x : VoiceExchange} {h : List VoiceExchange} :
    Clean (x :: h) ↔ ¬ Internal (outcome x) ∧ Clean h := List.forall_mem_cons

theorem candid_ret (a : α) : Candid (.ret a) where
  follows _ hclean := iff_of_false (not_internal_ok a) (not_not.mpr hclean)

theorem candid_fail {e : AppError} (he : ∀ text, e ≠ .external text) :
    Candid (.fail e : Action α) where
  follows _ hclean :=
    iff_of_false (mt internal_error.mp fun ⟨text, h⟩ => he text h) (not_not.mpr hclean)

theorem candid_require {b : Bool} {e : AppError} (he : ∀ text, e ≠ .external text) :
    Candid (require b e : Action Unit) := by
  cases b with
  | true => exact candid_ret ()
  | false => exact candid_fail he

theorem Candid.bind {p : Action α} (hp : Candid p) {f : α → Action β} (hf : ∀ a, Candid (f a)) :
    Candid (p.bind f) := by
  refine ⟨fun h hclean => ?_⟩
  rw [follows_bind]
  refine (hp.follows h hclean).mono (fun _ _ hc => hc) ?_
  intro h' r hr
  cases r with
  | ok a => exact (hf a).follows h' (by simpa [Tells] using hr)
  | error e => exact internal_error.trans (internal_error.symm.trans hr)

theorem candid_forEach {xs : List α} {f : α → Action Unit} (hf : ∀ x, Candid (f x)) :
    Candid (forEach xs f) := by
  induction xs with
  | nil => exact candid_ret ()
  | cons x xs ih => exact (hf x).bind fun _ => ih

/-! ### Calls -/

/-- A call that failed ends the program, and any other lets it go on. -/
theorem candid_ask {e : Effect} {next : e.Answer → Action α}
    (hfailed : ∀ a text, outcome ⟨e, a⟩ = .error (.external text) →
      next a = .fail (.external text))
    (hnext : ∀ a, ¬ Internal (outcome ⟨e, a⟩) → Candid (next a)) :
    Candid ((ask e).bind next) := by
  refine ⟨fun h hclean => ⟨hclean, fun a => ?_⟩⟩
  change Follows _ _ _ (next a)
  by_cases hf : Internal (outcome ⟨e, a⟩)
  · obtain ⟨text, htext⟩ := hf
    rw [hfailed a text htext]
    refine iff_of_true ⟨text, rfl⟩ fun hclean' => ?_
    exact (clean_cons.mp hclean').1 ⟨text, htext⟩
  · exact (hnext a hf).follows _ (clean_cons.mpr ⟨hf, hclean⟩)

/-- An error that is the answer ends the program. -/
theorem candid_answer {e : Effect} (r : e.Answer → Except AppError α)
    (hr : ∀ a, outcome ⟨e, a⟩ = (r a).map fun _ => ()) :
    Candid ((ask e).bind fun a => ofExcept (r a)) := by
  refine candid_ask (fun a text htext => ?_) (fun a hno => ?_)
  · rw [hr] at htext
    cases ha : r a with
    | ok x => rw [ha] at htext; cases htext
    | error err => rw [ha] at htext; cases htext; rfl
  · rw [hr, internal_map] at hno
    cases ha : r a with
    | ok x => exact candid_ret x
    | error err =>
      rw [ha, internal_error] at hno
      exact candid_fail fun text he => hno ⟨text, he⟩

/-- The answer is used unless it is an error. -/
theorem candid_used {e : Effect} (r : e.Answer → Except AppError α)
    (hr : ∀ a, outcome ⟨e, a⟩ = (r a).map fun _ => ()) {f : α → Action β} (hf : ∀ x, Candid (f x)) :
    Candid ((ask e).bind fun a => (ofExcept (r a)).bind f) := by
  rw [← bind_assoc]
  exact (candid_answer r hr).bind hf

theorem candid_now : Candid now := by
  rw [now, ← bind_ret (ask Effect.now)]
  exact candid_ask (by simp [outcome]) fun t _ => candid_ret t

theorem candid_fresh (pfx : String) : Candid (fresh pfx) := by
  rw [fresh, ← bind_ret (ask (Effect.newID pfx))]
  exact candid_ask (by simp [outcome]) fun id _ => candid_ret id

theorem candid_store (c : StoreCall) : Candid (store c) :=
  candid_answer (e := .store c) id fun _ => rfl

theorem candid_present (c : PresenceCall) : Candid (present c) :=
  candid_answer (e := .presence c) id fun _ => rfl

theorem candid_publish {eventType roomID actorUserID targetUserID correlationID : String}
    {payload : Payload} :
    Candid (publish eventType roomID actorUserID targetUserID correlationID payload) := by
  rw [publish]
  refine (candid_fresh _).bind fun eventID => candid_now.bind fun t => ?_
  refine (candid_store _).bind fun _ => candid_answer (e := .publish _) id fun a => ?_
  cases a <;> rfl

end Candid

/-! ### Commands -/

section Commands

variable {s : Service}

theorem candid_presenceDo (c : PresenceCall) : Candid (s.presenceDo c) := by
  rw [presenceDo]
  split
  · exact (candid_present c).bind fun _ => candid_ret ()
  · exact candid_ret ()

/-- A job that is not taken does no harm. -/
theorem candid_enqueueBestEffort {jobType idempotencyKey : String} {payload : RoomJobPayload} :
    Candid (s.enqueueBestEffort jobType idempotencyKey payload) := by
  rw [enqueueBestEffort]
  split
  · exact candid_ask (by simp [outcome]) fun a _ => candid_ret ()
  · exact candid_ret ()

/-- A record is looked for: it is found, or missing, or the store has failed. -/
theorem candid_lookup {α : Type} {c : StoreCall} {f : Except AppError c.Result → Action α}
    (herror : ∀ text, f (.error (.external text)) = .fail (.external text))
    (hf : ∀ a, ¬ Internal a → Candid (f a)) : Candid ((ask (.store c)).bind f) := by
  refine candid_ask (e := .store c) (fun a text htext => ?_) fun a hno => ?_
  · cases a with
    | ok x => cases htext
    | error e => cases htext; exact herror text
  · exact hf a (mt internal_map.mpr hno)

theorem candid_resolveRole (room : Room) (userID : String) :
    Candid (Service.resolveRole room userID) := by
  rw [Service.resolveRole]
  split
  · exact candid_ret _
  · refine candid_lookup (fun _ => rfl) fun a hno => ?_
    split
    · exact candid_ret _
    · exact candid_ret _
    · exact candid_fail fun text he => hno ⟨text, congrArg _ he⟩

theorem candid_createRoom (c : CreateRoomCommand) : Candid (s.createRoom c) := by
  rw [createRoom]
  refine (candid_require (by simp)).bind fun _ => candid_now.bind fun t => ?_
  refine (candid_fresh _).bind fun roomID => (candid_fresh _).bind fun streamID => ?_
  exact (candid_store _).bind fun _ => candid_publish.bind fun _ => candid_ret _

theorem candid_startRoom (c : StartRoomCommand) : Candid (startRoom c) := by
  rw [startRoom]
  refine (candid_store _).bind fun room => (candid_require (by simp)).bind fun _ => ?_
  refine (candid_require (by simp)).bind fun _ => candid_now.bind fun t => ?_
  exact (candid_store _).bind fun _ => candid_publish.bind fun _ => candid_ret _

theorem candid_finishRoom (c : FinishRoomCommand) : Candid (s.finishRoom c) := by
  rw [finishRoom]
  refine (candid_store _).bind fun room => (candid_require (by simp)).bind fun _ => ?_
  refine (candid_require (by simp)).bind fun _ => candid_now.bind fun t => ?_
  refine (candid_store _).bind fun _ => candid_publish.bind fun _ => ?_
  exact candid_enqueueBestEffort.bind fun _ =>
    candid_enqueueBestEffort.bind fun _ => candid_ret _

theorem candid_activeCounts (roomID : String) : Candid (s.activeCounts roomID) := by
  rw [activeCounts]
  split
  · exact (candid_present _).bind fun _ => (candid_present _).bind fun _ => candid_ret _
  · exact (candid_store _).bind fun _ => (candid_store _).bind fun _ => candid_ret _

/-- A speaker joins over LiveKit. -/
theorem candid_speaker {α : Type} {userID : String} {session : ParticipantSession}
    {input : SpeakerTokenInput} {ttl : Duration} {f : SpeakerMediaDescriptor → α}
    (roomID : String) :
    Candid (do
      store (.saveParticipantSession session)
      s.presenceDo (.markParticipantActive roomID session.id userID ttl)
      let speaker ← ofExcept (← ask (.issueSpeakerToken input))
      pure (f speaker)) := by
  refine (candid_store _).bind fun _ => (candid_presenceDo _).bind fun _ => ?_
  exact candid_used (e := .issueSpeakerToken input) id (fun _ => rfl) fun _ => candid_ret _

theorem candid_joinRoom (c : JoinRoomCommand) : Candid (s.joinRoom c) := by
  rw [joinRoom]
  refine (candid_store _).bind fun room => (candid_require (by simp)).bind fun _ => ?_
  refine (candid_resolveRole _ _).bind fun role => ?_
  split
  · exact (candid_fresh _).bind fun id => candid_now.bind fun t => candid_speaker room.id
  · refine candid_now.bind fun t => (candid_fresh _).bind fun id => ?_
    refine (candid_store _).bind fun _ => (candid_presenceDo _).bind fun _ => ?_
    exact candid_publish.bind fun _ => candid_ret _

theorem candid_listenerHeartbeat (c : ListenerHeartbeatCommand) :
    Candid (s.listenerHeartbeat c) := by
  rw [listenerHeartbeat]
  refine (candid_store _).bind fun session => (candid_require (by simp)).bind fun _ => ?_
  refine (candid_require (by simp)).bind fun _ => candid_now.bind fun t => ?_
  exact (candid_store _).bind fun _ => (candid_presenceDo _).bind fun _ =>
    candid_publish.bind fun _ => candid_ret _

theorem candid_leaveListener (c : LeaveListenerCommand) : Candid (s.leaveListener c) := by
  rw [leaveListener]
  refine (candid_store _).bind fun session => (candid_require (by simp)).bind fun _ => ?_
  refine candid_now.bind fun t => (candid_store _).bind fun _ => ?_
  exact (candid_presenceDo _).bind fun _ => candid_publish.bind fun _ => candid_ret _

theorem candid_requestToSpeak (c : RequestToSpeakCommand) : Candid (requestToSpeak c) := by
  rw [requestToSpeak]
  refine (candid_store _).bind fun room => (candid_require (by simp)).bind fun _ => ?_
  refine candid_lookup (fun _ => rfl) fun a hno => ?_
  split
  · exact candid_fail (by simp)
  · refine candid_lookup (fun _ => rfl) fun a hno => ?_
    split
    · exact candid_fail (by simp)
    · refine (candid_fresh _).bind fun id => candid_now.bind fun t => ?_
      exact (candid_store _).bind fun _ => candid_publish.bind fun _ => candid_ret _
    · exact candid_fail fun text he => hno ⟨text, congrArg _ he⟩
  · exact candid_fail fun text he => hno ⟨text, congrArg _ he⟩

theorem candid_decideSpeakerRequest (c : DecideSpeakerRequestCommand)
    (status : SpeakerRequestStatus) (eventType : String) :
    Candid (decideSpeakerRequest c status eventType) := by
  rw [decideSpeakerRequest]
  refine (candid_store _).bind fun room => (candid_require (by simp)).bind fun _ => ?_
  refine (candid_store _).bind fun request => (candid_require (by simp)).bind fun _ => ?_
  refine candid_now.bind fun t => (candid_store _).bind fun _ => ?_
  exact candid_publish.bind fun _ => candid_ret _

theorem candid_createSpeakerSession (c : CreateSpeakerSessionCommand) :
    Candid (s.createSpeakerSession c) := by
  rw [createSpeakerSession]
  refine (candid_store _).bind fun room => (candid_require (by simp)).bind fun _ => ?_
  refine (candid_resolveRole _ _).bind fun role => (candid_require (by simp)).bind fun _ => ?_
  exact (candid_fresh _).bind fun id => candid_now.bind fun t => candid_speaker room.id

theorem candid_blockSpeaking (c : SpeakingBlockCommand) : Candid (blockSpeaking c) := by
  rw [blockSpeaking]
  refine (candid_store _).bind fun room => (candid_require (by simp)).bind fun _ => ?_
  refine candid_lookup (fun _ => rfl) fun a hno => ?_
  split
  · exact candid_ret _
  · refine (candid_fresh _).bind fun id => candid_now.bind fun t => ?_
    exact (candid_store _).bind fun _ => candid_publish.bind fun _ => candid_ret _
  · exact candid_fail fun text he => hno ⟨text, congrArg _ he⟩

theorem candid_unblockSpeaking (c : SpeakingBlockCommand) : Candid (unblockSpeaking c) := by
  rw [unblockSpeaking]
  refine (candid_store _).bind fun room => (candid_require (by simp)).bind fun _ => ?_
  refine (candid_store _).bind fun block => candid_now.bind fun t => ?_
  exact (candid_store _).bind fun _ => candid_publish.bind fun _ => candid_ret _

theorem candid_removeParticipant (c : RemoveParticipantCommand) :
    Candid (s.removeParticipant c) := by
  rw [removeParticipant]
  refine (candid_store _).bind fun room => (candid_require (by simp)).bind fun _ => ?_
  refine (candid_store _).bind fun sessions => candid_now.bind fun t => ?_
  refine (candid_forEach fun session => ?_).bind fun _ => candid_publish
  exact (candid_store _).bind fun _ => candid_presenceDo _

theorem candid_startRecording (c : StartRecordingCommand) : Candid (s.startRecording c) := by
  rw [startRecording]
  refine (candid_require (by simp)).bind fun _ => (candid_store _).bind fun room => ?_
  refine (candid_require (by simp)).bind fun _ => (candid_require (by simp)).bind fun _ => ?_
  refine candid_now.bind fun t => (candid_fresh _).bind fun id => (candid_store _).bind fun _ => ?_
  exact (candid_store _).bind fun _ => candid_publish.bind fun _ => candid_ret _

theorem candid_stopRecording (c : StopRecordingCommand) : Candid (s.stopRecording c) := by
  rw [stopRecording]
  refine (candid_store _).bind fun room => (candid_require (by simp)).bind fun _ => ?_
  refine (candid_store _).bind fun recording => (candid_require (by simp)).bind fun _ => ?_
  refine candid_now.bind fun t => (candid_store _).bind fun _ => (candid_store _).bind fun _ => ?_
  exact candid_publish.bind fun _ => candid_ret _

theorem candid_recordingPlaybackURL (roomID recordingID actorUserID : String) :
    Candid (s.recordingPlaybackURL roomID recordingID actorUserID) := by
  rw [recordingPlaybackURL]
  refine (candid_store _).bind fun room => (candid_require (by simp)).bind fun _ => ?_
  refine (candid_store _).bind fun recording => (candid_require (by simp)).bind fun _ => ?_
  dsimp only
  split
  · exact candid_used (e := .playbackURL _ _) id (fun _ => rfl) fun _ => candid_ret _
  · exact candid_ret _

theorem candid_generateReport (c : GenerateReportCommand) : Candid (generateReport c) := by
  rw [generateReport]
  refine (candid_store _).bind fun room => (candid_require (by simp)).bind fun _ => ?_
  refine (candid_store _).bind fun stats => (candid_fresh _).bind fun id => ?_
  refine candid_now.bind fun t => ?_
  exact (candid_store _).bind fun _ => candid_publish.bind fun _ => candid_ret _

theorem candid_expireStaleListenerSessions (cutoff : Time) (limit : Int) (correlationID : String) :
    Candid (s.expireStaleListenerSessions cutoff limit correlationID) := by
  rw [expireStaleListenerSessions]
  refine (candid_store _).bind fun sessions => candid_now.bind fun t => ?_
  refine (candid_forEach fun session => ?_).bind fun _ => candid_ret _
  exact (candid_store _).bind fun _ => (candid_presenceDo _).bind fun _ => candid_publish

theorem candid_closeRoomSessions (roomID : String) (endedAt : Time) (correlationID : String) :
    Candid (s.closeRoomSessions roomID endedAt correlationID) := by
  rw [closeRoomSessions]
  refine (candid_store _).bind fun sessions => candid_forEach fun session => ?_
  exact (candid_store _).bind fun _ => candid_presenceDo _

theorem candid_authorizeChannel (userID channel : String) :
    Candid (authorizeChannel userID channel) := by
  rw [authorizeChannel]
  split
  · exact candid_require (by simp)
  split
  · dsimp only
    split
    · exact candid_fail (by simp)
    · exact (candid_store _).bind fun room => (candid_resolveRole _ _).bind fun role =>
        candid_require (by simp)
  split
  · exact candid_ret ()
  · exact candid_fail (by simp)

theorem candid_realtimeConnectionToken (userID : String) :
    Candid (s.realtimeConnectionToken userID) := by
  rw [realtimeConnectionToken]
  refine (candid_require (by simp)).bind fun _ => ?_
  exact candid_used (e := .connectionToken userID) id (fun _ => rfl) fun _ => candid_ret _

theorem candid_realtimeSubscriptionToken (userID channel : String) :
    Candid (realtimeSubscriptionToken userID channel) := by
  rw [realtimeSubscriptionToken]
  refine (candid_require (by simp)).bind fun _ => (candid_authorizeChannel _ _).bind fun _ => ?_
  exact candid_used (e := .subscriptionToken userID channel) id (fun _ => rfl) fun _ =>
    candid_ret _

/-- **Every command** tells of a failed call, and of nothing else, as an internal error. -/
theorem program_candid (s : Service) (cmd : Command) : Candid (s.program cmd) := by
  have mapped : ∀ {α : Type} {p : Action α} (f : α → Reply), Candid p → Candid (f <$> p) :=
    fun f hp => hp.bind fun a => candid_ret (f a)
  cases cmd with
  | createRoom c => exact mapped _ (candid_createRoom c)
  | startRoom c => exact mapped _ (candid_startRoom c)
  | finishRoom c => exact mapped _ (candid_finishRoom c)
  | activeCounts roomID => exact mapped _ (candid_activeCounts roomID)
  | joinRoom c => exact mapped _ (candid_joinRoom c)
  | listenerHeartbeat c => exact mapped _ (candid_listenerHeartbeat c)
  | leaveListener c => exact mapped _ (candid_leaveListener c)
  | listenerStream roomID => exact mapped _ ((candid_store _).bind fun _ => candid_ret _)
  | requestToSpeak c => exact mapped _ (candid_requestToSpeak c)
  | approveSpeakerRequest c => exact mapped _ (candid_decideSpeakerRequest c _ _)
  | declineSpeakerRequest c => exact mapped _ (candid_decideSpeakerRequest c _ _)
  | createSpeakerSession c => exact mapped _ (candid_createSpeakerSession c)
  | revokeSpeaker c =>
    exact mapped _ ((candid_store _).bind fun _ => (candid_require (by simp)).bind fun _ =>
      candid_publish)
  | blockSpeaking c => exact mapped _ (candid_blockSpeaking c)
  | unblockSpeaking c => exact mapped _ (candid_unblockSpeaking c)
  | removeParticipant c => exact mapped _ (candid_removeParticipant c)
  | startRecording c => exact mapped _ (candid_startRecording c)
  | stopRecording c => exact mapped _ (candid_stopRecording c)
  | recordingPlaybackURL roomID recordingID actorUserID =>
    exact mapped _ (candid_recordingPlaybackURL roomID recordingID actorUserID)
  | generateReport c => exact mapped _ (candid_generateReport c)
  | expireStaleListenerSessions cutoff limit correlationID =>
    exact mapped _ (candid_expireStaleListenerSessions cutoff limit correlationID)
  | closeRoomSessions roomID endedAt correlationID =>
    exact mapped _ (candid_closeRoomSessions roomID endedAt correlationID)
  | realtimeConnectionToken userID => exact mapped _ (candid_realtimeConnectionToken userID)
  | realtimeSubscriptionToken userID channel =>
    exact mapped _ (candid_realtimeSubscriptionToken userID channel)
  | getRoom | listRecordings | getRecording | getReport => exact mapped _ (candid_store _)

end Commands

/-! ## Failures on the in-process backends -/

theorem not_internal_found {V : Type} {v : Option V} {e : AppError}
    (he : ∀ text, e ≠ .external text) : ¬ Internal (Store.found v e) := by
  cases v with
  | none => simpa [Store.found] using he
  | some x => simp [Store.found]

/-- The memory store never fails by itself. -/
theorem Store.step_not_internal {st st' : Store} {now : Time} {order order' : List String}
    {c : StoreCall} {a : Except AppError c.Result}
    (h : st.step now order order' c = some (a, st')) :
    ¬ Internal a := by
  cases c <;> simp only [Store.step, Option.map_eq_some_iff, Option.bind_eq_some_iff,
    Option.some.injEq, Prod.mk.injEq] at h
  case getRoom | getListenerSession | getSpeakerRequest | getRecording | getReport =>
    obtain ⟨rfl, -⟩ := h
    exact not_internal_found (by simp)
  case findPendingSpeakerRequest | findApprovedSpeakerRequest | getActiveSpeakingBlock =>
    obtain ⟨_, -, rfl, -⟩ := h
    exact not_internal_found (by simp)
  case reportStats =>
    obtain ⟨_, -, _, -, rfl, -⟩ := h
    exact not_internal_ok _
  all_goals first
    | (obtain ⟨rfl, -⟩ := h; exact not_internal_ok _)
    | (obtain ⟨_, -, rfl, -⟩ := h; exact not_internal_ok _)

theorem World.exec_internal {I : Infra} {env : Env} {w w' : World} {e : Effect} {a : e.Answer}
    (h : World.exec I env e w = some (a, w')) :
    Internal (outcome ⟨e, a⟩) ↔ env.fails = true ∧ ∀ job, e ≠ .enqueue job := by
  rcases World.exec_cases h with ⟨hfails, -, hf, -⟩ | ⟨hfails, hp⟩
  · cases e with
    | now => cases hf
    | newID pfx => cases hf
    | enqueue job =>
      refine iff_of_false (not_internal_ok ()) ?_
      simp
    | _ =>
      cases hf
      exact iff_of_true ⟨_, rfl⟩ ⟨hfails, by simp⟩
  · refine iff_of_false ?_ (by simp [hfails])
    cases e with
    | store c =>
      obtain ⟨⟨a', st⟩, hs, he⟩ := Option.map_eq_some_iff.mp hp
      cases he
      exact mt internal_map.mp (Store.step_not_internal hs)
    | newID pfx => exact not_internal_ok ()
    | enqueue job => exact not_internal_ok ()
    | _ =>
      cases hp
      exact not_internal_ok ()

end WaveCast
