import WaveCast.Interaction.Twins
import WaveCast.Rounds

/-!
# The two ways onto the stage

`JoinRoom` and `CreateSpeakerSession` both look for the room, resolve the role
of the user and, if the role uses LiveKit, take the same steps onto the stage.
Run side by side from one state they agree (`ways_agree`): they are refused with
the same error, return the same result and change the stores in the same way,
up to the id and the time of the new session. They part only for a listener.
-/

namespace WaveCast

open Interaction WaveCast.Action Program Service

/-- The role that `resolveRole` finds in a store that answers. -/
noncomputable def World.resolvedRole (w : World) (room : Room) (userID : String) : RoomRole :=
  open Classical in
  if room.resolveRole userID ≠ .listener then room.resolveRole userID
  else if HoldsApproval w room.id userID then .speaker else .listener

/-- The calls of the two runs fail alike. -/
def FailAlike (env env' : Env) : Prop := env.fails = env'.fails

/-! ## What the programs share -/

namespace Service

variable (s : Service)

/-- The steps of both commands up to the role of the user. -/
def enter (roomID userID : String) (next : Room → RoomRole → Action JoinRoomResult) :
    Action JoinRoomResult := do
  let room ← store (.getRoom roomID)
  require (room.status = .live) .roomNotLive
  let role ← resolveRole room userID
  next room role

/-- The steps of both commands for a user whose role uses LiveKit. -/
def takeStage (room : Room) (userID : String) (role : RoomRole) : Action JoinRoomResult := do
  let sessionID ← fresh prefixParticipant
  let joinedAt ← now
  let session := newParticipantSession room userID role sessionID joinedAt
  store (.saveParticipantSession session)
  s.presenceDo (.markParticipantActive room.id session.id userID s.cfg.listenerSessionTimeout)
  let speaker ← ofExcept (← ask (.issueSpeakerToken ⟨room.liveKitRoomName, userID, role⟩))
  pure { roomID := room.id, role, mediaPath := .liveKit, permissions := permissionsFor role,
         listener := none, speaker := some speaker,
         events := s.realtimeDescriptor room.id userID role }

/-- The steps of `JoinRoom` for a listener. -/
def takeSeat (room : Room) (cmd : JoinRoomCommand) (role : RoomRole) : Action JoinRoomResult := do
  let t ← now
  let sessionID ← fresh prefixListenerSession
  let session := newListenerSession room cmd.userID sessionID t
  store (.saveListenerSession session)
  s.presenceDo (.markListenerActive room.id session.id cmd.userID s.cfg.listenerSessionTimeout)
  publish eventListenerSessionStarted room.id cmd.userID "" cmd.correlationID
    (.listenerSession session)
  pure { roomID := room.id, role, mediaPath := .llhls, permissions := permissionsFor role,
         listener := some (s.media.listenerDescriptor room session.id s.cfg.heartbeatInterval),
         speaker := none, events := s.realtimeDescriptor room.id cmd.userID role }

theorem joinRoom_eq (c : JoinRoomCommand) :
    s.joinRoom c = enter c.roomID c.userID fun room role =>
      if roleUsesLiveKit role then s.takeStage room c.userID role
      else s.takeSeat room c role := rfl

theorem createSpeakerSession_eq (c : CreateSpeakerSessionCommand) :
    s.createSpeakerSession c = enter c.roomID c.userID fun room role =>
      (require (roleUsesLiveKit role) .permissionDenied).bind fun _ =>
        s.takeStage room c.userID role := rfl

/-- The result of a user who is on the stage. -/
def stageResult (I : Infra) (room : Room) (userID : String) (role : RoomRole) : JoinRoomResult :=
  { roomID := room.id, role, mediaPath := .liveKit, permissions := permissionsFor role,
    listener := none, speaker := some (I.speakerToken ⟨room.liveKitRoomName, userID, role⟩),
    events := s.realtimeDescriptor room.id userID role }

/-- The world after the first steps onto the stage: the id of the session was
drawn as `u`, the session, joined at `t`, is stored if `saved` and marked if
`marked`. -/
def staged (w : World) (room : Room) (userID : String) (role : RoomRole) (saved marked : Bool)
    (u : Ulid) (t : Time) : World :=
  let session := newParticipantSession room userID role (newID prefixParticipant u) t
  { w with
    issued := u :: w.issued
    store := if saved then (StoreCall.saveParticipantSession session).apply w.store else w.store
    presence := if marked then
      s.presented (.markParticipantActive room.id session.id userID s.cfg.listenerSessionTimeout)
        w.presence else w.presence }

end Service

/-! ## Side by side -/

/-- Why a command that enters a room is refused before the role is known. -/
def World.Refuses (I : Infra) (w : World) (roomID : String) (e : AppError) : Prop :=
  (w.store.rooms.lookup roomID = none ∧ e = .roomNotFound) ∨
  (∃ room, w.store.rooms.lookup roomID = some room ∧ room.status ≠ .live ∧ e = .roomNotLive) ∨
  (I.Fails ∧ e = unavailable)

section Twins

variable {s : Service} {I : Infra} {w w' : World} {roomID userID : String} {room : Room}
  {role : RoomRole} {α β : Type}
  {Q : Except AppError α → World → Except AppError β → World → Prop}

theorem twins_ask {e e' : Effect} {f : e.Answer → Action α} {f' : e'.Answer → Action β}
    (h : ∀ env env' a a' t t', FailAlike env env' → World.exec I env e w = some (a, t) →
      World.exec I env' e' w' = some (a', t') →
      Program.Twins (S := effects) (World.exec I) FailAlike Q (f a) t (f' a') t') :
    Program.Twins (S := effects) (World.exec I) FailAlike Q
      (Program.bind (α := no_index e.Answer) (ask e) f) w
      (Program.bind (α := no_index e'.Answer) (ask e') f') w' := twins_call h

/-- Two calls that fail alike: both failed, or both were performed. -/
theorem World.exec_alike {e e' : Effect} {env env' : Env} {a : e.Answer} {a' : e'.Answer}
    {t t' : World} (halike : FailAlike env env') (hx : World.exec I env e w = some (a, t))
    (hx' : World.exec I env' e' w' = some (a', t')) :
    (I.Fails ∧ failure e = some a ∧ failure e' = some a' ∧ t = w ∧ t' = w') ∨
      (perform I env e w = some (a, t) ∧ perform I env' e' w' = some (a', t')) := by
  rcases exec_cases hx with ⟨hf, hmay, ha, rfl⟩ | ⟨hf, hp⟩ <;>
    rcases exec_cases hx' with ⟨hf', -, ha', rfl⟩ | ⟨hf', hp'⟩
  · exact .inl ⟨⟨e, hmay⟩, ha, ha', rfl, rfl⟩
  · exact absurd (hf.symm.trans (halike.trans hf')) (by decide)
  · exact absurd (hf'.symm.trans (halike.symm.trans hf)) (by decide)
  · exact .inr ⟨hp, hp'⟩

theorem World.perform_findApproved {env : Env} {t : World}
    {a : Except AppError SpeakerRequest}
    (h : perform I env (.store (.findApprovedSpeakerRequest roomID userID)) w = some (a, t)) :
    t = w ∧ ((∃ request, a = .ok request) ∧ HoldsApproval w roomID userID ∨
      a = .error .speakerRequestNotFound ∧ ¬ HoldsApproval w roomID userID) := by
  obtain ⟨⟨a', st⟩, hs, he⟩ := Option.map_eq_some_iff.mp h
  obtain ⟨requests, hr, hf⟩ := Option.map_eq_some_iff.mp hs
  cases he
  obtain ⟨hfind, rfl⟩ := Prod.mk.inj hf
  refine ⟨rfl, ?_⟩
  cases a' with
  | ok request =>
    obtain ⟨hmem, hroom, huser, hstatus⟩ := World.findSpeakerRequest_ok hfind
    obtain ⟨k, hk⟩ := (Table.mem_range hr request).mp hmem
    exact .inl ⟨⟨request, rfl⟩, k, request, hk, hroom, huser, hstatus⟩
  | error e =>
    simp only [Store.findSpeakerRequest, Store.found] at hfind
    split at hfind
    · cases hfind
    · rename_i hnone
      cases hfind
      refine .inr ⟨rfl, ?_⟩
      rintro ⟨k, request, hk, hroom, huser, hstatus⟩
      have hmem := (Table.mem_range hr request).mpr ⟨k, hk⟩
      simpa [hroom, huser, hstatus] using List.find?_eq_none.mp hnone request hmem

theorem twins_resolveRole {f : RoomRole → Action α} {f' : RoomRole → Action β}
    (hok : Program.Twins (S := effects) (World.exec I) FailAlike Q
      (f (w.resolvedRole room userID)) w (f' (w.resolvedRole room userID)) w)
    (herr : I.Fails → Q (.error unavailable) w (.error unavailable) w) :
    Program.Twins (S := effects) (World.exec I) FailAlike Q ((resolveRole room userID).bind f) w
      ((resolveRole room userID).bind f') w := by
  rw [resolveRole]
  split
  · rename_i hr
    rwa [World.resolvedRole, if_pos hr] at hok
  · rename_i hr
    rw [World.resolvedRole, if_neg hr] at hok
    rw [bind_eq, bind_assoc, bind_assoc]
    refine twins_ask fun env env' a a' t t' halike hx hx' => ?_
    rcases World.exec_alike halike hx hx' with ⟨hI, ha, ha', rfl, rfl⟩ | ⟨hp, hp'⟩
    · cases ha
      cases ha'
      exact twins_fail (herr hI)
    · obtain ⟨rfl, ⟨⟨_, rfl⟩, h⟩ | ⟨rfl, h⟩⟩ := World.perform_findApproved hp <;>
        obtain ⟨rfl, ⟨⟨_, rfl⟩, h'⟩ | ⟨rfl, h'⟩⟩ := World.perform_findApproved hp'
      · rwa [if_pos h] at hok
      · exact absurd h h'
      · exact absurd h' h
      · rwa [if_neg h] at hok

theorem twins_enter {next : Room → RoomRole → Action JoinRoomResult}
    {next' : Room → RoomRole → Action JoinRoomResult}
    {Q : Except AppError JoinRoomResult → World → Except AppError JoinRoomResult → World → Prop}
    (refused : ∀ e, w.Refuses I roomID e → Q (.error e) w (.error e) w)
    (entered : ∀ room, w.store.rooms.lookup roomID = some room → room.status = .live →
      Program.Twins (S := effects) (World.exec I) FailAlike Q
        (next room (w.resolvedRole room userID)) w (next' room (w.resolvedRole room userID)) w) :
    Program.Twins (S := effects) (World.exec I) FailAlike Q (enter roomID userID next) w
      (enter roomID userID next') w := by
  simp only [enter, store, bind_eq, bind_assoc]
  refine twins_ask fun env env' a a' t t' halike hx hx' => ?_
  rcases World.exec_alike halike hx hx' with ⟨hI, ha, ha', rfl, rfl⟩ | ⟨hp, hp'⟩
  · cases ha
    cases ha'
    exact twins_fail (refused _ (.inr (.inr ⟨hI, rfl⟩)))
  · cases hp
    cases hp'
    cases hl : w.store.rooms.lookup roomID with
    | none => exact twins_fail (refused _ (.inl ⟨hl, rfl⟩))
    | some room =>
      refine twins_require (fun hlive => ?_) fun hlive => ?_
      · exact twins_resolveRole (entered room hl (of_decide_eq_true hlive)) fun hI =>
          refused _ (.inr (.inr ⟨hI, rfl⟩))
      · exact refused _ (.inr (.inl ⟨room, hl, of_decide_eq_false hlive, rfl⟩))

/-- What two runs onto the stage end in. -/
inductive SameStage (s : Service) (I : Infra) (w : World) (room : Room) (userID : String)
    (role : RoomRole) : Except AppError JoinRoomResult → World →
      Except AppError JoinRoomResult → World → Prop
  /-- Both users are on the stage. -/
  | reached (u u' : Ulid) (x x' : Time) (hu : u ∉ w.issued) (hu' : u' ∉ w.issued) :
      SameStage s I w room userID role
        (.ok (s.stageResult I room userID role)) (s.staged w room userID role true true u x)
        (.ok (s.stageResult I room userID role)) (s.staged w room userID role true true u' x')
  /-- The store did not say what the role is. -/
  | unknown (hI : I.Fails) :
      SameStage s I w room userID role (.error unavailable) w (.error unavailable) w
  /-- Both runs stopped after the same steps because the same component failed. -/
  | stopped (hI : I.Fails) (saved marked : Bool) (u u' : Ulid) (x x' : Time) :
      SameStage s I w room userID role
        (.error unavailable) (s.staged w room userID role saved marked u x)
        (.error unavailable) (s.staged w room userID role saved marked u' x')

theorem twins_now {f : Time → Action α} {f' : Time → Action β}
    (h : ∀ x x', Program.Twins (S := effects) (World.exec I) FailAlike Q (f x) w (f' x') w') :
    Program.Twins (S := effects) (World.exec I) FailAlike Q (Action.now.bind f) w
      (Action.now.bind f') w' := by
  refine twins_ask fun env env' x x' t t' halike hx hx' => ?_
  rcases World.exec_alike halike hx hx' with ⟨-, hn, -⟩ | ⟨hp, hp'⟩
  · cases hn
  · cases hp
    cases hp'
    exact h _ _

theorem twins_presenceDo {c c' : PresenceCall} {f : Unit → Action α} {f' : Unit → Action β}
    (hok : Program.Twins (S := effects) (World.exec I) FailAlike Q
      (f ()) { w with presence := s.presented c w.presence }
      (f' ()) { w' with presence := s.presented c' w'.presence })
    (herr : I.Fails → Q (.error unavailable) w (.error unavailable) w') :
    Program.Twins (S := effects) (World.exec I) FailAlike Q ((s.presenceDo c).bind f) w
      ((s.presenceDo c').bind f') w' := by
  simp only [presenceDo]
  split
  · rename_i hs
    simp only [present, bind_eq, pure_eq, bind_assoc, ret_bind]
    refine twins_ask fun env env' a a' t t' halike hx hx' => ?_
    rcases World.exec_alike halike hx hx' with ⟨hI, ha, ha', rfl, rfl⟩ | ⟨hp, hp'⟩
    · cases ha
      cases ha'
      exact twins_fail (herr hI)
    · cases hp
      cases hp'
      simpa [presented, hs] using hok
  · rename_i hs
    simpa [presented, hs] using hok

theorem twins_takeStage :
    Program.Twins (S := effects) (World.exec I) FailAlike (SameStage s I w room userID role)
      (s.takeStage room userID role) w (s.takeStage room userID role) w := by
  simp only [takeStage, store, bind_eq, pure_eq, bind_assoc]
  refine twins_ask fun env env' id id' t t' _ hx hx' => ?_
  obtain ⟨hu, rfl, rfl⟩ := World.exec_newID hx
  obtain ⟨hu', rfl, rfl⟩ := World.exec_newID hx'
  generalize env.ulid = u at hu
  generalize env'.ulid = u' at hu'
  refine twins_now fun x x' => twins_ask fun env env' a a' t t' halike hx hx' => ?_
  rcases World.exec_alike halike hx hx' with ⟨hI, ha, ha', rfl, rfl⟩ | ⟨hp, hp'⟩
  · cases ha
    cases ha'
    exact twins_fail (.stopped hI false false u u' x x')
  cases hp
  cases hp'
  refine twins_presenceDo ?_ fun hI => .stopped hI true false u u' x x'
  refine twins_ask fun env env' a a' t t' halike hx hx' => ?_
  rcases World.exec_alike halike hx hx' with ⟨hI, ha, ha', rfl, rfl⟩ | ⟨hp, hp'⟩
  · cases ha
    cases ha'
    exact twins_fail (.stopped hI true true u u' x x')
  · cases hp
    cases hp'
    exact twins_ret (.reached u u' x x' hu hu')

end Twins

/-- What `JoinRoom` returns to a listener. -/
def Seated (I : Infra) (r : Except AppError JoinRoomResult) : Prop :=
  (∃ j d, r = .ok j ∧ j.role = .listener ∧ j.permissions = permissionsFor .listener ∧
    j.listener = some d ∧ j.speaker = none) ∨ (I.Fails ∧ ∃ e, r = .error e)

theorem takeSeat_seated {s : Service} {I : Infra} {w : World} {room : Room} {c : JoinRoomCommand}
    {h : List VoiceExchange} :
    Ensures (S := effects) (World.exec I) (fun _ r _ => Seated I r) h w
      (s.takeSeat room c .listener) := by
  have failed : I.Fails → ∀ e, Seated I (.error e) := fun hI e => .inr ⟨hI, e, rfl⟩
  simp only [takeSeat, bind_eq, pure_eq]
  refine ensures_now fun t h => ensures_fresh fun u h _ => ?_
  refine ensures_write id (fun _ h => ?_) fun hf _ e => failed ⟨_, hf⟩ e
  refine ensures_presenceDo (fun h => ?_) fun _ hf _ e _ => failed ⟨_, hf⟩ e
  rw [ensures_bind]
  refine publish_yields.mono ?_
  rintro h (e | _) w' hr
  · exact failed hr e
  · exact .inl ⟨_, _, rfl, rfl, rfl, rfl, rfl⟩

/-- The result fits the role: whoever can speak gets the descriptor of a
speaker, and only who cannot gets that of a listener. -/
def JoinRoomResult.Fits (j : JoinRoomResult) : Prop :=
  (j.permissions.canSpeak = true ↔ j.speaker.isSome) ∧ (j.speaker.isSome ↔ j.listener = none)

/-- Both commands are refused with the error, or with that of the store if it
did not answer, and leave the world as it was. -/
def BothRefused (I : Infra) (w : World) (e : AppError) (r : Except AppError JoinRoomResult)
    (t : World) (r' : Except AppError JoinRoomResult) (t' : World) : Prop :=
  ∃ e', (e' = e ∨ I.Fails ∧ e' = unavailable) ∧ r = .error e' ∧ r' = .error e' ∧ t = w ∧ t' = w

/-- The results `r` of `JoinRoom` and `r'` of `CreateSpeakerSession`, for a user
and a room in the state `w`, and the states `t` and `t'` they leave. -/
structure WaysAgree (s : Service) (I : Infra) (w : World) (roomID userID : String)
    (r : Except AppError JoinRoomResult) (t : World)
    (r' : Except AppError JoinRoomResult) (t' : World) : Prop where
  missing : w.store.rooms.lookup roomID = none → BothRefused I w .roomNotFound r t r' t'
  notLive : ∀ room, w.store.rooms.lookup roomID = some room → room.status ≠ .live →
    BothRefused I w .roomNotLive r t r' t'
  speaks : ∀ room, w.store.rooms.lookup roomID = some room → room.status = .live →
    roleUsesLiveKit (w.resolvedRole room userID) = true →
    SameStage s I w room userID (w.resolvedRole room userID) r t r' t' ∧
      (t.store.events = w.store.events ∧ t.bus = w.bus) ∧
      (t'.store.events = w.store.events ∧ t'.bus = w.bus)
  listens : ∀ room, w.store.rooms.lookup roomID = some room → room.status = .live →
    w.resolvedRole room userID = .listener →
    (I.Fails ∧ BothRefused I w unavailable r t r' t') ∨
      (Seated I r ∧ r' = .error .permissionDenied ∧ t' = w)
  fits : ∀ j, r = .ok j ∨ r' = .ok j → j.Fits

section Agreement

variable {s : Service} {I : Infra} {w t t' : World} {room : Room} {roomID userID : String}
  {role : RoomRole} {r r' : Except AppError JoinRoomResult}

theorem Service.staged_silent (saved marked : Bool) (u : Ulid) (x : Time) :
    (s.staged w room userID role saved marked u x).store.events = w.store.events ∧
      (s.staged w room userID role saved marked u x).bus = w.bus := by
  cases saved <;> exact ⟨rfl, rfl⟩

theorem SameStage.silent (h : SameStage s I w room userID role r t r' t') :
    (t.store.events = w.store.events ∧ t.bus = w.bus) ∧
      (t'.store.events = w.store.events ∧ t'.bus = w.bus) := by
  cases h with
  | reached => exact ⟨staged_silent _ _ _ _, staged_silent _ _ _ _⟩
  | unknown => exact ⟨⟨rfl, rfl⟩, rfl, rfl⟩
  | stopped => exact ⟨staged_silent _ _ _ _, staged_silent _ _ _ _⟩

theorem SameStage.fits (h : SameStage s I w room userID role r t r' t')
    (hrole : roleUsesLiveKit role = true) {j : JoinRoomResult} (hj : r = .ok j ∨ r' = .ok j) :
    j.Fits := by
  cases h with
  | reached =>
    rcases hj with hj | hj <;> cases hj <;>
      simp [JoinRoomResult.Fits, stageResult, permissionsFor, hrole]
  | unknown => rcases hj with hj | hj <;> cases hj
  | stopped => rcases hj with hj | hj <;> cases hj

theorem Seated.fits (h : Seated I r) {j : JoinRoomResult} (hj : r = .ok j) : j.Fits := by
  rcases h with ⟨j', d, hr, -, hperm, hlistener, hspeaker⟩ | ⟨-, e, hr⟩
  · cases hr.symm.trans hj
    simp [JoinRoomResult.Fits, hperm, hlistener, hspeaker, permissionsFor, roleUsesLiveKit]
  · cases hr.symm.trans hj

theorem WaysAgree.of_unavailable (hI : I.Fails) :
    WaysAgree s I w roomID userID (.error unavailable) w (.error unavailable) w where
  missing _ := ⟨_, .inr ⟨hI, rfl⟩, rfl, rfl, rfl, rfl⟩
  notLive _ _ _ := ⟨_, .inr ⟨hI, rfl⟩, rfl, rfl, rfl, rfl⟩
  speaks _ _ _ _ := ⟨.unknown hI, ⟨rfl, rfl⟩, rfl, rfl⟩
  listens _ _ _ _ := .inl ⟨hI, _, .inl rfl, rfl, rfl, rfl, rfl⟩
  fits j hj := by rcases hj with hj | hj <;> cases hj

theorem WaysAgree.of_refused {e : AppError} (h : w.Refuses I roomID e) :
    WaysAgree s I w roomID userID (.error e) w (.error e) w := by
  rcases h with ⟨hnone, rfl⟩ | ⟨room, hl, hne, rfl⟩ | ⟨hI, rfl⟩
  · have hno : ∀ room, w.store.rooms.lookup roomID ≠ some room := by simp [hnone]
    exact {
      missing _ := ⟨_, .inl rfl, rfl, rfl, rfl, rfl⟩
      notLive room hl _ := absurd hl (hno room)
      speaks room hl _ _ := absurd hl (hno room)
      listens room hl _ _ := absurd hl (hno room)
      fits j hj := by rcases hj with hj | hj <;> cases hj }
  · have hne' : ∀ room', w.store.rooms.lookup roomID = some room' → room'.status ≠ .live := by
      intro room' hl'
      rwa [← Option.some.inj (hl.symm.trans hl')]
    exact {
      missing hnone := by cases hl.symm.trans hnone
      notLive _ _ _ := ⟨_, .inl rfl, rfl, rfl, rfl, rfl⟩
      speaks room' hl' hlive _ := absurd hlive (hne' room' hl')
      listens room' hl' hlive _ := absurd hlive (hne' room' hl')
      fits j hj := by rcases hj with hj | hj <;> cases hj }
  · exact .of_unavailable hI

theorem WaysAgree.of_sameStage (hl : w.store.rooms.lookup roomID = some room)
    (hlive : room.status = .live) (hrole : roleUsesLiveKit (w.resolvedRole room userID) = true)
    (h : SameStage s I w room userID (w.resolvedRole room userID) r t r' t') :
    WaysAgree s I w roomID userID r t r' t' where
  missing hnone := by cases hl.symm.trans hnone
  notLive room' hl' hne := by
    cases hl.symm.trans hl'
    exact absurd hlive hne
  speaks room' hl' _ _ := by
    cases hl.symm.trans hl'
    exact ⟨h, h.silent⟩
  listens room' hl' _ hlistener := by
    cases hl.symm.trans hl'
    rw [hlistener] at hrole
    cases hrole
  fits j hj := h.fits hrole hj

theorem WaysAgree.of_seated (hl : w.store.rooms.lookup roomID = some room)
    (hlive : room.status = .live) (hrole : w.resolvedRole room userID = .listener)
    (h : Seated I r) : WaysAgree s I w roomID userID r t (.error .permissionDenied) w where
  missing hnone := by cases hl.symm.trans hnone
  notLive room' hl' hne := by
    cases hl.symm.trans hl'
    exact absurd hlive hne
  speaks room' hl' _ huses := by
    cases hl.symm.trans hl'
    rw [hrole] at huses
    cases huses
  listens _ _ _ _ := .inr ⟨h, rfl, rfl⟩
  fits j hj := by
    rcases hj with hj | hj
    · exact h.fits hj
    · cases hj

theorem twins_ways (c : JoinRoomCommand) (c' : CreateSpeakerSessionCommand)
    (hroom : c'.roomID = c.roomID) (huser : c'.userID = c.userID) :
    Program.Twins (S := effects) (World.exec I) FailAlike (WaysAgree s I w c.roomID c.userID)
      (s.joinRoom c) w (s.createSpeakerSession c') w := by
  rw [joinRoom_eq, createSpeakerSession_eq, hroom, huser]
  refine twins_enter (fun e he => .of_refused he) fun room hl hlive => ?_
  cases hrole : w.resolvedRole room c.userID with
  | listener =>
    refine twins_stopped [] (takeSeat_seated.mono fun _ r t hr => ?_)
    exact .of_seated hl hlive hrole hr
  | _ =>
    refine twins_takeStage.mono fun r t r' t' h => ?_
    rw [← hrole] at h
    exact .of_sameStage hl hlive (by rw [hrole]; rfl) h

end Agreement

/-- **The two ways onto the stage agree.** -/
theorem ways_agree (s : Service) (I : Infra) (roomID userID correlationID correlationID' : String)
    (envs envs' : List Env) (halike : Interaction.Alike FailAlike envs envs') (p q q' : VoicePool)
    (hq : (s.system I).perform (.joinRoom ⟨roomID, userID, correlationID⟩, envs) p = some q)
    (hq' : (s.system I).perform
      (.createSpeakerSession ⟨roomID, userID, correlationID'⟩, envs') p = some q')
    (o : System.Outcome (s.system I) p (.joinRoom ⟨roomID, userID, correlationID⟩, envs) q)
    (o' : System.Outcome (s.system I) p
      (.createSpeakerSession ⟨roomID, userID, correlationID'⟩, envs') q') :
    ∃ r r', o.result = r.map .joined ∧ o'.result = r'.map .joined ∧
      WaysAgree s I p.state roomID userID r q.state r' q'.state := by
  refine System.perform_twins (Q := fun x t x' t' => ∃ r r', x = r.map .joined ∧
    x' = r'.map .joined ∧ WaysAgree s I p.state roomID userID r t r' t') hq hq' o o' halike ?_
  refine Program.Twins.map ((twins_ways _ _ rfl rfl).mono fun r t r' t' h => ?_)
  exact ⟨r, r', rfl, rfl, h⟩

/-- The owner of an open room, on both ways. -/
theorem ways_agree_owner :
    ∃ (p q q' : VoicePool) (r r' : Except AppError JoinRoomResult),
      (p.state.store.rooms.lookup sampleRoom).any (·.status = .live) = true ∧
      WaysAgree sampleService (sampleInfra fun _ => false) p.state sampleRoom "owner" r q.state
        r' q'.state := by
  have hrun : ((sampleService.system (sampleInfra fun _ => false)).serial openRoom).any (fun p =>
      (p.state.store.rooms.lookup sampleRoom).any (·.status = .live) &&
      ((sampleService.system (sampleInfra fun _ => false)).perform
        (.joinRoom ⟨sampleRoom, "owner", ""⟩, plain 1 ++ drawing 4 ++ plain 4) p).isSome &&
      ((sampleService.system (sampleInfra fun _ => false)).perform
        (.createSpeakerSession ⟨sampleRoom, "owner", ""⟩, plain 1 ++ drawing 5 ++ plain 4)
        p).isSome) = true := by decide +kernel
  obtain ⟨p, -, hp⟩ := (Option.any_eq_true _ _).mp hrun
  simp only [Bool.and_eq_true] at hp
  obtain ⟨⟨hroom, hjoin⟩, hcreate⟩ := hp
  obtain ⟨q, hq⟩ := Option.isSome_iff_exists.mp hjoin
  obtain ⟨q', hq'⟩ := Option.isSome_iff_exists.mp hcreate
  obtain ⟨o, -⟩ := System.perform_outcome hq
    (program_asks sampleService (.joinRoom ⟨sampleRoom, "owner", ""⟩))
  obtain ⟨o', -⟩ := System.perform_outcome hq'
    (program_asks sampleService (.createSpeakerSession ⟨sampleRoom, "owner", ""⟩))
  have halike : Interaction.Alike FailAlike (plain 1 ++ drawing 4 ++ plain 4)
      (plain 1 ++ drawing 5 ++ plain 4) := by
    simp only [Interaction.Alike, FailAlike]
    decide
  obtain ⟨r, r', -, -, h⟩ := ways_agree _ _ _ _ _ _ _ _ halike p q q' hq hq' o o'
  exact ⟨p, q, q', r, r', hroom, h⟩

end WaveCast
