import WaveCast.Postings

/-!
# Commands that fail

The service saves first and publishes last. So an error of any other call
leaves no trace, and an error of the bus or of the token issuer leaves
everything saved, as after a success (`failed_commands`); the first error of
the bus shows that a failed command may well change something
(`failed_unchanged_fails`).
-/

namespace WaveCast

open Interaction WaveCast.Action Program Service

/-! ## The last call -/

/-- The program enqueues jobs and ends without an error. -/
def OnlyEnqueues {α : Type} : Action α → Prop
  | .ret _ => True
  | .fail _ => False
  | .call (.enqueue _) next => ∀ a, OnlyEnqueues (next a)
  | .call _ _ => False

/-- The bus or the token issuer is called last: when that call fails so does
the program, and else nothing but jobs is left to enqueue. -/
def EndsAtEdge {α : Type} : Action α → Prop
  | .ret _ => True
  | .fail _ => True
  | .call (.publish _) next =>
      (∀ e, ∃ e', next (.error e) = .fail e') ∧ OnlyEnqueues (next (.ok ()))
  | .call (.issueSpeakerToken _) next =>
      (∀ e, ∃ e', next (.error e) = .fail e') ∧ ∀ d, OnlyEnqueues (next (.ok d))
  | .call _ next => ∀ a, EndsAtEdge (next a)

section Shape

variable {α : Type} {s : Service}

theorem endsAtEdge_now (f : Time → Action α) :
    EndsAtEdge (Action.now.bind f) ↔ ∀ t, EndsAtEdge (f t) := Iff.rfl

theorem endsAtEdge_fresh (pfx : String) (f : String → Action α) :
    EndsAtEdge ((fresh pfx).bind f) ↔ ∀ id, EndsAtEdge (f id) := Iff.rfl

theorem endsAtEdge_askStore (c : StoreCall) (f : Except AppError c.Result → Action α) :
    EndsAtEdge (Program.bind (α := no_index (Effect.store c).Answer) (ask (.store c)) f) ↔
      ∀ a, EndsAtEdge (f a) := Iff.rfl

theorem endsAtEdge_store (c : StoreCall) (f : c.Result → Action α) :
    EndsAtEdge (Program.bind (α := no_index c.Result) (store c) f) ↔ ∀ x, EndsAtEdge (f x) := by
  rw [store, bind_assoc]
  refine (endsAtEdge_askStore c _).trans (forall_except.trans ?_)
  exact and_iff_left fun _ => trivial

theorem endsAtEdge_require (b : Bool) (e : AppError) (f : Unit → Action α) :
    EndsAtEdge ((require b e).bind f) ↔ (b = true → EndsAtEdge (f ())) := by
  cases b with
  | true => simp [require]
  | false => simp [require, EndsAtEdge]

theorem endsAtEdge_presenceDo {c : PresenceCall} {f : Unit → Action α} (hf : EndsAtEdge (f ())) :
    EndsAtEdge ((s.presenceDo c).bind f) := by
  rw [presenceDo]
  split
  · simp only [present, bind_eq, pure_eq, bind_assoc, ret_bind]
    intro a
    cases a with
    | ok x => exact hf
    | error e => trivial
  · exact hf

theorem endsAtEdge_resolveRole {room : Room} {userID : String} {f : RoomRole → Action α}
    (hf : ∀ role, EndsAtEdge (f role)) : EndsAtEdge ((resolveRole room userID).bind f) := by
  rw [resolveRole]
  split
  · exact hf _
  · simp only [bind_eq, bind_assoc]
    rw [endsAtEdge_askStore]
    intro a
    split
    · exact hf _
    · exact hf _
    · trivial

theorem endsAtEdge_publish
    {eventType roomID actorUserID targetUserID correlationID : String} {payload : Payload}
    {f : Unit → Action α} (hf : OnlyEnqueues (f ())) :
    EndsAtEdge
      ((publish eventType roomID actorUserID targetUserID correlationID payload).bind f) := by
  simp only [publish, bind_eq, bind_assoc, endsAtEdge_fresh, endsAtEdge_now, endsAtEdge_store]
  exact fun id t _ => ⟨fun e => ⟨e, rfl⟩, hf⟩

theorem onlyEnqueues_enqueue {jobType idempotencyKey : String} {payload : RoomJobPayload}
    {f : Unit → Action α} (hf : OnlyEnqueues (f ())) :
    OnlyEnqueues ((s.enqueueBestEffort jobType idempotencyKey payload).bind f) := by
  rw [enqueueBestEffort]
  split
  · exact fun _ => hf
  · exact hf

/-- The steps `JoinRoom` and `CreateSpeakerSession` share. -/
theorem endsAtEdge_speakerSession {room : Room} {userID : String} {role : RoomRole}
    {f : String → SpeakerMediaDescriptor → Reply} :
    EndsAtEdge
      ((fresh prefixParticipant).bind fun id => Action.now.bind fun t =>
        (store (.saveParticipantSession (newParticipantSession room userID role id t))).bind
          fun _ => (s.presenceDo (.markParticipantActive room.id
              (newParticipantSession room userID role id t).id userID
              s.cfg.listenerSessionTimeout)).bind
            fun _ => (ask (.issueSpeakerToken ⟨room.liveKitRoomName, userID, role⟩)).bind
              fun a => (ofExcept a).bind fun d => ret (f id d)) := by
  simp only [endsAtEdge_fresh, endsAtEdge_now, endsAtEdge_store]
  exact fun id t _ => endsAtEdge_presenceDo ⟨fun e => ⟨e, rfl⟩, fun d => trivial⟩

end Shape

/-- A command by which a client changes something. -/
def Command.Mutates : Command → Prop
  | .createRoom _ => True
  | .startRoom _ => True
  | .finishRoom _ => True
  | .joinRoom _ => True
  | .createSpeakerSession _ => True
  | .listenerHeartbeat _ => True
  | .leaveListener _ => True
  | .requestToSpeak _ => True
  | .approveSpeakerRequest _ => True
  | .declineSpeakerRequest _ => True
  | .blockSpeaking _ => True
  | .unblockSpeaking _ => True
  | .startRecording _ => True
  | .stopRecording _ => True
  | .generateReport _ => True
  | _ => False

theorem decideSpeakerRequest_endsAtEdge (c : DecideSpeakerRequestCommand)
    (status : SpeakerRequestStatus) (eventType : String) :
    EndsAtEdge (Reply.speakerRequest <$> decideSpeakerRequest c status eventType) := by
  simp only [decideSpeakerRequest, map_eq, bind_eq, bind_assoc, endsAtEdge_store,
    endsAtEdge_require, endsAtEdge_now]
  intros
  exact endsAtEdge_publish trivial

/-- **The service calls the bus or the token issuer last.** -/
theorem program_endsAtEdge (s : Service) {cmd : Command} (hcmd : cmd.Mutates) :
    EndsAtEdge (s.program cmd) := by
  cases cmd with
  | finishRoom c =>
    simp only [Service.program, finishRoom, map_eq, bind_eq, bind_assoc, endsAtEdge_store,
      endsAtEdge_require, endsAtEdge_now]
    intros
    exact endsAtEdge_publish (onlyEnqueues_enqueue (onlyEnqueues_enqueue trivial))
  | joinRoom c =>
    simp only [Service.program, joinRoom, map_eq, bind_eq, pure_eq, bind_assoc, endsAtEdge_store,
      endsAtEdge_require]
    refine fun room _ => endsAtEdge_resolveRole fun role => ?_
    split
    · simp only [bind_assoc, ret_bind]
      exact endsAtEdge_speakerSession
    · simp only [bind_assoc, ret_bind, endsAtEdge_now, endsAtEdge_fresh, endsAtEdge_store]
      exact fun _ _ _ => endsAtEdge_presenceDo (endsAtEdge_publish trivial)
  | createSpeakerSession c =>
    simp only [Service.program, createSpeakerSession, map_eq, bind_eq, pure_eq, bind_assoc,
      ret_bind, endsAtEdge_store, endsAtEdge_require]
    refine fun room _ => endsAtEdge_resolveRole fun role => ?_
    rw [endsAtEdge_require]
    exact fun _ => endsAtEdge_speakerSession
  | listenerHeartbeat c | leaveListener c =>
    simp only [Service.program, listenerHeartbeat, leaveListener, map_eq, bind_eq, bind_assoc,
      endsAtEdge_store, endsAtEdge_require, endsAtEdge_now]
    intros
    exact endsAtEdge_presenceDo (endsAtEdge_publish trivial)
  | requestToSpeak c =>
    simp only [Service.program, requestToSpeak, map_eq, bind_eq, bind_assoc, endsAtEdge_store,
      endsAtEdge_require, endsAtEdge_askStore]
    intro room _ a
    split
    · trivial
    · rw [bind_assoc, endsAtEdge_askStore]
      intro a
      split
      · trivial
      · simp only [bind_assoc, endsAtEdge_fresh, endsAtEdge_now, endsAtEdge_store]
        exact fun _ _ _ => endsAtEdge_publish trivial
      · trivial
    · trivial
  | blockSpeaking c =>
    simp only [Service.program, blockSpeaking, map_eq, bind_eq, bind_assoc, endsAtEdge_store,
      endsAtEdge_require, endsAtEdge_askStore]
    intro room _ a
    split
    · trivial
    · simp only [bind_assoc, endsAtEdge_fresh, endsAtEdge_now, endsAtEdge_store]
      exact fun _ _ _ => endsAtEdge_publish trivial
    · trivial
  | approveSpeakerRequest c => exact decideSpeakerRequest_endsAtEdge c _ _
  | declineSpeakerRequest c => exact decideSpeakerRequest_endsAtEdge c _ _
  | createRoom c | startRoom c | unblockSpeaking c | startRecording c | stopRecording c
  | generateReport c =>
    simp only [Service.program, createRoom, startRoom, unblockSpeaking, startRecording,
      stopRecording, generateReport, map_eq, bind_eq, bind_assoc, endsAtEdge_store,
      endsAtEdge_require, endsAtEdge_now, endsAtEdge_fresh]
    intros
    exact endsAtEdge_publish trivial
  | _ => cases hcmd

/-! ## The same command again -/

/-- Both worlds have the same records and the same presence. -/
structure World.SameRecords (w w' : World) : Prop where
  rooms : w'.store.rooms = w.store.rooms
  listenerSessions : w'.store.listenerSessions = w.store.listenerSessions
  participantSessions : w'.store.participantSessions = w.store.participantSessions
  speakerRequests : w'.store.speakerRequests = w.store.speakerRequests
  speakingBlocks : w'.store.speakingBlocks = w.store.speakingBlocks
  recordings : w'.store.recordings = w.store.recordings
  reports : w'.store.reportsByRoom = w.store.reportsByRoom
  presence : w'.presence = w.presence

/-- Both worlds have the same stores. -/
def World.SameStores (w w' : World) : Prop := w'.store = w.store ∧ w'.presence = w.presence

theorem World.SameStores.sameRecords {w w' : World} (h : w.SameStores w') : w.SameRecords w' := by
  obtain ⟨hs, hp⟩ := h
  constructor <;> simp [hs, hp]

section Rerun

variable {I : Infra} {α : Type} {w w₁ : World} {h : List VoiceExchange}

theorem World.exec_enqueue {env : Env} {job : JobRequest} {a : Except AppError Unit}
    (hx : World.exec I env (.enqueue job) w = some (a, w₁)) : w.SameStores w₁ := by
  rcases World.exec_cases hx with ⟨-, -, -, rfl⟩ | ⟨-, hx⟩
  · exact ⟨rfl, rfl⟩
  · cases hx
    exact ⟨rfl, rfl⟩

theorem onlyEnqueues_ensures {p : Action α} (hp : OnlyEnqueues p) :
    Ensures (S := effects) (World.exec I)
      (fun _ r w' => (∃ a, r = .ok a) ∧ w.SameStores w') h w p := by
  suffices hsuff : ∀ w₁, w.SameStores w₁ → Ensures (S := effects) (World.exec I)
      (fun _ r w' => (∃ a, r = .ok a) ∧ w.SameStores w') h w₁ p from hsuff w ⟨rfl, rfl⟩
  induction p generalizing h with
  | ret a => exact fun w₁ hw => ⟨⟨a, rfl⟩, hw⟩
  | fail e => exact hp.elim
  | call c next ih =>
    cases c with
    | enqueue job =>
      intro w₁ hw env a w₂ hx
      obtain ⟨hs, hpr⟩ := World.exec_enqueue hx
      exact ih a (hp a) w₂ ⟨hs.trans hw.1, hpr.trans hw.2⟩
    | _ => exact hp.elim

theorem onlyEnqueues_ends {p : Action α} (hp : OnlyEnqueues p) (w : World) :
    ∃ envs a w', Program.eval (S := effects) (World.exec I) envs p w = some (.ok a, w') ∧
      w.SameStores w' := by
  induction p generalizing w with
  | ret a => exact ⟨[], a, w, rfl, rfl, rfl⟩
  | fail e => exact hp.elim
  | call c next ih =>
    cases c with
    | enqueue job =>
      obtain ⟨envs, a, w', he, hw⟩ := ih (.ok ()) (hp _) { w with queue := w.queue ++ [job] }
      exact ⟨sampleEnv 0 [] :: envs, a, w', he, hw⟩
    | _ => exact hp.elim

/-- A program that fails at its edge leaves the records that it leaves when the
edge answers. -/
theorem endsAtEdge_ensures {p : Action α} (hp : EndsAtEdge p) (hh : ¬ Halted h) :
    Ensures (S := effects) (World.exec I) (fun h' r w' => ∀ e, r = .error e → Halted h' →
      ∃ envs a w'', Program.eval (S := effects) (World.exec I) envs p w = some (.ok a, w'') ∧
        w'.SameStores w'') h w p := by
  induction p generalizing h w with
  | ret a => exact fun _ hr => nomatch hr
  | fail e => exact fun _ _ hhalted => absurd hhalted hh
  | call c next ih =>
    intro env a w₁ hx
    have onward (hp : EndsAtEdge (next a)) (hh : ¬ Halted (⟨c, a⟩ :: h)) :
        Ensures (S := effects) (World.exec I) (fun h' r w' => ∀ e, r = .error e → Halted h' →
          ∃ envs a w'', Program.eval (S := effects) (World.exec I) envs (.call c next) w =
            some (.ok a, w'') ∧ w'.SameStores w'') (⟨c, a⟩ :: h) w₁ (next a) := by
      refine (ih a hp hh).mono fun h' r w' hrerun e hr hhalted => ?_
      obtain ⟨envs, b, w'', he, hw⟩ := hrerun e hr hhalted
      exact ⟨env :: envs, b, w'', Option.bind_eq_some_iff.mpr ⟨(a, w₁), hx, he⟩, hw⟩
    cases c with
    | publish event =>
      rcases World.exec_cases hx with ⟨-, -, ha, rfl⟩ | ⟨-, hx'⟩
      · cases ha
        obtain ⟨e', he'⟩ := hp.1 unavailable
        rw [he']
        intro _ _ _
        obtain ⟨envs, b, w', hev, hw⟩ :=
          onlyEnqueues_ends (I := I) hp.2 { w₁ with bus := w₁.bus ++ [event] }
        exact ⟨sampleEnv 0 [] :: envs, b, w', hev, hw⟩
      · cases hx'
        refine (onlyEnqueues_ensures hp.2).mono ?_
        rintro h' r w' ⟨⟨b, rfl⟩, -⟩ e hr
        cases hr
    | issueSpeakerToken input =>
      rcases World.exec_cases hx with ⟨-, -, ha, rfl⟩ | ⟨-, hx'⟩
      · cases ha
        obtain ⟨e', he'⟩ := hp.1 unavailable
        rw [he']
        intro _ _ _
        obtain ⟨envs, b, w', hev, hw⟩ :=
          onlyEnqueues_ends (I := I) (hp.2 (I.speakerToken input)) w₁
        exact ⟨sampleEnv 0 [] :: envs, b, w', hev, hw⟩
      · cases hx'
        refine (onlyEnqueues_ensures (hp.2 _)).mono ?_
        rintro h' r w' ⟨⟨b, rfl⟩, -⟩ e hr
        cases hr
    | _ => exact onward (hp a) (by simpa [Halted] using hh)

end Rerun

/-- **A command fails at its end or changes nothing.** In every reachable state,
over stores that do not fail: when one of the fifteen commands ends with an
error, then all records are as before if no call of the bus or of the token
issuer failed, and else as the same command leaves them when it succeeds. -/
theorem failed_commands (s : Service) (I : Infra) (hI : I.KeepsStore) (hp : I.KeepsPresence)
    (ms : List VoiceMove) (p : VoicePool) (h : (s.system I).run ms = some p) (cmd : Command)
    (hcmd : cmd.Mutates) (envs : List Env) (q : VoicePool)
    (hq : (s.system I).perform (cmd, envs) p = some q) (e : AppError)
    (he : q.threads = p.threads ++ [⟨cmd, .fail e⟩]) :
    (¬ Halted (threadHistory p.threads.length q.trace) → p.state.SameRecords q.state) ∧
    (Halted (threadHistory p.threads.length q.trace) →
      ∃ envs' q' reply, (s.system I).perform (cmd, envs') p = some q' ∧
        q'.threads = p.threads ++ [⟨cmd, .ret reply⟩] ∧ q.state.SameRecords q'.state) := by
  obtain ⟨o, -⟩ := System.perform_outcome hq (program_asks s cmd)
  have hr : o.result = .error e := by
    have hth := o.threads_eq.symm.trans he
    cases hr : o.result with
    | ok reply => simp [hr] at hth
    | error e' => simpa [hr] using hth
  rw [o.history_eq h]
  constructor
  · intro hh
    have hc := perform_concludes hI (run_keyed h) hq o
    rw [hr] at hc
    have hw := (hc.unchanged hp).resolve_left hh
    exact World.SameStores.sameRecords ⟨congrArg Ledger.store hw, congrArg Ledger.presence hw⟩
  · intro hh
    have hens := endsAtEdge_ensures (I := I) (h := []) (w := p.state)
      (program_endsAtEdge s hcmd) (by simp [Halted])
    obtain ⟨envs', reply, w', hev, hw⟩ := System.perform_ensures hq o hens e hr hh
    obtain ⟨n, q', hq', rfl, hth⟩ := System.exists_perform_of_eval (M := s.system I) hev
    exact ⟨envs'.take n, q', reply, hq', hth, hw.sameRecords⟩

/-- Starting the room fails because the bus does not accept the event. -/
def startUnheard : VoiceJob :=
  (.startRoom ⟨sampleRoom, "owner", ""⟩, plain 3 ++ drawing 3 ++ plain 2 ++ [failingEnv])

/-- Nobody but the moderators may start it. -/
def startRefused : VoiceJob := (.startRoom ⟨sampleRoom, "guest", ""⟩, plain 1)

/-- The exchange is a call of the bus or of the token issuer that has failed. -/
def halts : VoiceExchange → Bool
  | ⟨.publish _, .error _⟩ => true
  | ⟨.issueSpeakerToken _, .error _⟩ => true
  | _ => false

theorem halted_iff {h : List VoiceExchange} : Halted h ↔ h.any halts = true := by
  rw [List.any_eq_true]
  constructor
  · rintro (⟨event, e, hx⟩ | ⟨input, e, hx⟩)
    · exact ⟨_, hx, rfl⟩
    · exact ⟨_, hx, rfl⟩
  · rintro ⟨x, hx, hhalts⟩
    unfold halts at hhalts
    split at hhalts
    · exact .inl ⟨_, _, hx⟩
    · exact .inr ⟨_, _, hx⟩
    · cases hhalts

theorem exists_startUnheard :
    ∃ p q e, (sampleService.system flakyEdge).serial (openRoom.take 1) = some p ∧
      (sampleService.system flakyEdge).perform startUnheard p = some q ∧
      q.threads = p.threads ++ [⟨startUnheard.1, .fail e⟩] ∧
      (p.state.store.rooms.lookup sampleRoom).any (·.status = .draft) = true ∧
      (q.state.store.rooms.lookup sampleRoom).any (·.status = .live) = true ∧
      Halted (threadHistory p.threads.length q.trace) := by
  have hrun : ((sampleService.system flakyEdge).serial (openRoom.take 1)).any (fun p =>
      (p.state.store.rooms.lookup sampleRoom).any (·.status = .draft) &&
      ((sampleService.system flakyEdge).perform startUnheard p).any fun q =>
        (q.state.store.rooms.lookup sampleRoom).any (·.status = .live) &&
        lastFailed q &&
        (threadHistory p.threads.length q.trace).any halts) = true := by
    decide +kernel
  obtain ⟨p, hp, hfacts⟩ := (Option.any_eq_true _ _).mp hrun
  obtain ⟨hdraft, hq⟩ := Bool.and_eq_true_iff.mp hfacts
  obtain ⟨q, hq, hfacts⟩ := (Option.any_eq_true _ _).mp hq
  obtain ⟨⟨hlive, hfail⟩, hlost⟩ := (Bool.and_eq_true_iff.mp hfacts).imp_left
    Bool.and_eq_true_iff.mp
  obtain ⟨e, hth⟩ := threads_of_lastFailed hq hfail
  exact ⟨p, q, e, hp, hq, hth, hdraft, hlive, halted_iff.mpr hlost⟩

/-- The room is live although the owner was told that starting it failed. -/
theorem failed_unchanged_fails :
    ¬ ∀ (s : Service) (I : Infra), I.KeepsStore → I.KeepsPresence → ∀ (ms : List VoiceMove)
      (p : VoicePool), (s.system I).run ms = some p → ∀ (cmd : Command), cmd.Mutates →
      ∀ (envs : List Env) (q : VoicePool), (s.system I).perform (cmd, envs) p = some q →
      ∀ e, q.threads = p.threads ++ [⟨cmd, .fail e⟩] → p.state.SameRecords q.state := by
  intro hclaim
  obtain ⟨p, q, e, hp, hq, hth, hdraft, hlive, -⟩ := exists_startUnheard
  obtain ⟨ms, hms⟩ := System.serial_isRun hp
  have hsame := hclaim _ _ flakyEdge_keepsStore flakyEdge_keepsPresence ms p hms startUnheard.1
    trivial _ q hq e hth
  rw [hsame.rooms] at hlive
  obtain ⟨room, hroom, hstatus⟩ := (Option.any_eq_true _ _).mp hdraft
  simp [hroom, of_decide_eq_true hstatus] at hlive

/-- A refused start changes nothing. After one that is lost on the bus the room
is as live as if the owner had been told so. -/
theorem failed_commands_unheard :
    ∃ p q q', (sampleService.system flakyEdge).serial (openRoom.take 1) = some p ∧
      (sampleService.system flakyEdge).perform startRefused p = some q' ∧
      p.state.SameRecords q'.state ∧
      (sampleService.system flakyEdge).perform startUnheard p = some q ∧
      ∃ envs' q' reply, (sampleService.system flakyEdge).perform (startUnheard.1, envs') p =
          some q' ∧
        q'.threads = p.threads ++ [⟨startUnheard.1, .ret reply⟩] ∧
        q.state.SameRecords q'.state := by
  obtain ⟨p, q, e, hp, hq, hth, -, -, hhalted⟩ := exists_startUnheard
  obtain ⟨ms, hms⟩ := System.serial_isRun hp
  have hrefused : ((sampleService.system flakyEdge).serial (openRoom.take 1)).any (fun p =>
      ((sampleService.system flakyEdge).perform startRefused p).any fun q' =>
        lastFailed q' && !(threadHistory p.threads.length q'.trace).any halts) = true := by
    decide +kernel
  rw [hp, Option.any_some] at hrefused
  obtain ⟨q', hq', hfacts⟩ := (Option.any_eq_true _ _).mp hrefused
  obtain ⟨hfail, hcalm⟩ := Bool.and_eq_true_iff.mp hfacts
  obtain ⟨e', hth'⟩ := threads_of_lastFailed hq' hfail
  have hsame := (failed_commands _ _ flakyEdge_keepsStore flakyEdge_keepsPresence ms p hms
    startRefused.1 trivial _ q' hq' e' hth').1 (mt halted_iff.mp (by simpa using hcalm))
  exact ⟨p, q, q', hp, hq', hsame, hq, (failed_commands _ _ flakyEdge_keepsStore
    flakyEdge_keepsPresence ms p hms startUnheard.1 trivial _ q hq e hth).2 hhalted⟩

end WaveCast
