import WaveCast.Interaction.Ensures
import WaveCast.Moderation

/-!
# Commands that run alone

What the steps of a command do to the world when nothing comes in between: a
rule of `Program.Ensures` for each way a command calls its surroundings, some
also with what was exchanged so far (`ensures_readAt`). Reading leaves the
world as it is, saving puts the record into its table, and a call that fails
leaves everything as it is.
-/

namespace WaveCast

open Interaction WaveCast.Action Program Service

/-- The store never fails. -/
def Infra.KeepsStore (I : Infra) : Prop := ∀ c, I.mayFail (.store c) = false

/-- The presence store never fails. -/
def Infra.KeepsPresence (I : Infra) : Prop := ∀ c, I.mayFail (.presence c) = false

/-- Nothing fails. -/
def Infra.reliable (I : Infra) : Infra := { I with mayFail := fun _ => false }

/-- A method of the store that only reads. -/
def StoreCall.IsRead : StoreCall → Prop
  | saveRoom _ => False
  | saveListenerSession _ => False
  | saveParticipantSession _ => False
  | saveSpeakerRequest _ => False
  | saveSpeakingBlock _ => False
  | saveRecording _ => False
  | saveReport _ => False
  | appendEvent _ => False
  | _ => True

/-- What a method that saves makes of the store. -/
def StoreCall.apply : StoreCall → Store → Store
  | .saveRoom room, s => { s with rooms := s.rooms.insert room.id room }
  | .saveListenerSession session, s =>
      { s with listenerSessions := s.listenerSessions.insert session.id session }
  | .saveParticipantSession session, s =>
      { s with participantSessions := s.participantSessions.insert session.id session }
  | .saveSpeakerRequest request, s =>
      { s with speakerRequests := s.speakerRequests.insert request.id request }
  | .saveSpeakingBlock block, s =>
      { s with speakingBlocks := s.speakingBlocks.insert block.id block }
  | .saveRecording recording, s =>
      { s with recordings := s.recordings.insert recording.id recording }
  | .saveReport report, s =>
      { s with reportsByRoom := s.reportsByRoom.insert report.roomID report }
  | .appendEvent event, s => { s with events := s.events ++ [event] }
  | _, s => s

namespace World

variable {I : Infra} {env : Env} {w w' : World} {c : StoreCall} {a : Except AppError c.Result}

theorem exec_read (hc : c.IsRead) (h : exec I env (.store c) w = some (a, w')) : w' = w := by
  rcases exec_store h with ⟨-, rfl⟩ | ⟨st, hs, rfl⟩
  · rfl
  · suffices hst : st = w.store by rw [hst]
    cases c <;> simp only [Store.step, Option.map_eq_some_iff, Option.bind_eq_some_iff,
      Option.some.injEq, Prod.mk.injEq] at hs
    case reportStats => obtain ⟨_, -, _, -, -, rfl⟩ := hs; rfl
    all_goals first
      | exact hc.elim
      | (obtain ⟨-, rfl⟩ := hs; rfl)
      | (obtain ⟨_, -, -, rfl⟩ := hs; rfl)

theorem exec_write (hc : ¬ c.IsRead) (h : exec I env (.store c) w = some (a, w')) :
    (I.mayFail (.store c) = true ∧ (∃ e, a = .error e) ∧ w' = w) ∨
      ((∃ x, a = .ok x) ∧ w' = { w with store := c.apply w.store }) := by
  rcases exec_cases h with ⟨-, hf, ha, rfl⟩ | ⟨-, hp⟩
  · exact .inl ⟨hf, ⟨_, (Option.some.inj ha).symm⟩, rfl⟩
  · right
    cases c
    all_goals first
      | exact absurd trivial hc
      | (cases hp; exact ⟨⟨_, rfl⟩, rfl⟩)

end World

/-! ## Reading -/

/-- A call that changes nothing. -/
def Effect.Peeks : Effect → Prop
  | .store c => c.IsRead
  | .presence (.activeListenerCount _) => True
  | .presence (.activeParticipantCount _) => True
  | .connectionToken _ => True
  | .subscriptionToken _ _ => True
  | .playbackURL _ _ => True
  | _ => False

theorem World.exec_peeks {I : Infra} {env : Env} {w w' : World} {e : Effect} {a : e.Answer}
    (he : e.Peeks) (h : exec I env e w = some (a, w')) : w' = w := by
  cases e with
  | store c => exact exec_read he h
  | presence c =>
    rcases exec_cases h with ⟨-, -, -, rfl⟩ | ⟨-, h⟩
    · rfl
    · cases c <;> first | exact he.elim | (cases h; rfl)
  | connectionToken | subscriptionToken | playbackURL =>
    rcases exec_cases h with ⟨-, -, -, rfl⟩ | ⟨-, h⟩
    · rfl
    · cases h
      rfl
  | _ => exact he.elim

/-- The memory store can answer every call. -/
theorem Store.exists_step (c : StoreCall) (st : Store) (now : Time) :
    ∃ order order' r, st.step now order order' c = some r := by
  have visit : ∀ {V : Type} (t : Table V), ∃ vs, t.range t.keys.toList = some vs := by
    intro V t
    exact ⟨_, if_pos ⟨Finset.nodup_toList _, Finset.toList_toFinset _⟩⟩
  have scan : ∀ {V β : Type} (t : Table V) (f : List V → β),
      ∃ r, (t.range t.keys.toList).map f = some r := by
    intro V β t f
    obtain ⟨vs, hvs⟩ := visit t
    exact ⟨f vs, by rw [hvs]; rfl⟩
  cases c with
  | listActiveListenerSessions | listActiveListenerSessionsByUser | listStaleListenerSessions
  | countActiveListeners => exact ⟨st.listenerSessions.keys.toList, [], scan _ _⟩
  | countActiveParticipantSessions => exact ⟨st.participantSessions.keys.toList, [], scan _ _⟩
  | findPendingSpeakerRequest | findApprovedSpeakerRequest =>
    exact ⟨st.speakerRequests.keys.toList, [], scan _ _⟩
  | getActiveSpeakingBlock => exact ⟨st.speakingBlocks.keys.toList, [], scan _ _⟩
  | listRecordings => exact ⟨st.recordings.keys.toList, [], scan _ _⟩
  | reportStats roomID =>
    obtain ⟨ls, hls⟩ := visit st.listenerSessions
    refine ⟨st.listenerSessions.keys.toList, st.participantSessions.keys.toList, ?_⟩
    rw [Store.step, hls, Option.bind_some]
    exact scan _ _
  | _ => exact ⟨[], [], _, rfl⟩

/-- Every call can be executed, as long as no id is drawn. -/
theorem World.exists_exec (I : Infra) (e : Effect) (w : World) (he : ∀ pfx, e ≠ .newID pfx) :
    ∃ env a w', World.exec I env e w = some (a, w') := by
  cases e with
  | newID pfx => exact absurd rfl (he pfx)
  | store c =>
    obtain ⟨order, order', r, hr⟩ := Store.exists_step c w.store 0
    exact ⟨⟨0, sampleUlid 0, order, order', false⟩, r.1, { w with store := r.2 }, by
      simp [World.exec, World.perform, hr]⟩
  | _ => exact ⟨sampleEnv 0 [], _, _, rfl⟩

/-- A program that only reads runs to an end. -/
theorem exists_eval_of_peeks {α : Type} (I : Infra) (w : World) {h : List VoiceExchange}
    {p : Action α} (hp : Follows (S := effects) (fun _ e => e.Peeks) anyResult h p) :
    ∃ envs r w', Program.eval (S := effects) (World.exec I) envs p w = some (r, w') := by
  refine hp.exists_eval (fun e w he => World.exists_exec I e w ?_) w
  rintro pfx rfl
  exact he

theorem authorizeChannel_peeks {α : Type} {userID channel : String} {f : Unit → Action α}
    {h : List VoiceExchange}
    (hf : ∀ h, Follows (S := effects) (fun _ e => e.Peeks) anyResult h (f ())) :
    Follows (S := effects) (fun _ e => e.Peeks) anyResult h
      ((authorizeChannel userID channel).bind f) := by
  rw [authorizeChannel]
  split
  · simp [follows_require, hf]
  split
  · dsimp only
    split
    · trivial
    · simp only [bind_eq, bind_assoc, follows_store]
      refine ⟨trivial, fun room => ?_, fun _ => trivial⟩
      refine follows_resolveRole trivial (fun _ _ => trivial) fun h role _ => ?_
      simp [follows_require, hf]
  split
  · exact hf h
  · trivial

/-- A command that changes nothing. -/
def Command.Reads : Command → Prop
  | .getRoom _ => True
  | .activeCounts _ => True
  | .listenerStream _ => True
  | .listRecordings _ => True
  | .getRecording _ => True
  | .recordingPlaybackURL _ _ _ => True
  | .getReport _ => True
  | .realtimeConnectionToken _ => True
  | .realtimeSubscriptionToken _ _ => True
  | _ => False

theorem program_peeks (s : Service) {cmd : Command} (hcmd : cmd.Reads) :
    Follows (S := effects) (fun _ e => e.Peeks) anyResult [] (s.program cmd) := by
  cases cmd with
  | activeCounts roomID =>
    simp only [Service.program, activeCounts, map_eq, bind_eq, pure_eq]
    cases s.hasPresence <;>
      simp [present, bind_assoc, follows_ask, follows_ofExcept, follows_store, Effect.Peeks,
        StoreCall.IsRead]
  | recordingPlaybackURL roomID recordingID actorUserID =>
    simp only [Service.program, recordingPlaybackURL, map_eq, bind_eq, pure_eq, bind_assoc,
      follows_store, follows_require]
    cases s.hasSigner <;>
      simp [bind_assoc, follows_ask, follows_ofExcept, Effect.Peeks, StoreCall.IsRead]
  | realtimeConnectionToken userID =>
    simp [Service.program, realtimeConnectionToken, bind_assoc, follows_require, follows_ask,
      follows_ofExcept, Effect.Peeks]
  | realtimeSubscriptionToken userID channel =>
    simp only [Service.program, realtimeSubscriptionToken, map_eq, bind_eq, pure_eq, bind_assoc,
      ret_bind, follows_require, implies_true, and_true]
    refine fun _ => authorizeChannel_peeks fun h => ?_
    simp [follows_ask, follows_ofExcept, Effect.Peeks]
  | getRoom | listenerStream | listRecordings | getRecording | getReport =>
    simp [Service.program, Service.getRoom, listenerStream, Service.listRecordings,
      Service.getRecording, Service.getReport, follows_store, bind_assoc, Effect.Peeks,
      StoreCall.IsRead]
  | _ => cases hcmd

/-! ## Rules -/

section Rules

variable {I : Infra} {α : Type} {w : World} {h : List VoiceExchange}
  {Q : List VoiceExchange → Except AppError α → World → Prop}

theorem ensures_nowAt {f : Time → Action α}
    (hf : ∀ t, Ensures (S := effects) (World.exec I) Q (⟨.now, t⟩ :: h) w (f t)) :
    Ensures (S := effects) (World.exec I) Q h w (Action.now.bind f) := by
  intro env t w' hx
  rcases World.exec_cases hx with ⟨-, -, hn, -⟩ | ⟨-, hx⟩
  · cases hn
  · cases hx
    exact hf _

theorem ensures_now {f : Time → Action α}
    (hf : ∀ t h, Ensures (S := effects) (World.exec I) Q h w (f t)) :
    Ensures (S := effects) (World.exec I) Q h w (Action.now.bind f) :=
  ensures_nowAt fun t => hf t _

theorem ensures_freshAt {pfx : String} {f : String → Action α}
    (hf : ∀ u, u ∉ w.issued → Ensures (S := effects) (World.exec I) Q
      (⟨.newID pfx, newID pfx u⟩ :: h) { w with issued := u :: w.issued } (f (newID pfx u))) :
    Ensures (S := effects) (World.exec I) Q h w ((fresh pfx).bind f) := by
  intro env id w' hx
  obtain ⟨hnew, rfl, rfl⟩ := World.exec_newID hx
  exact hf env.ulid hnew

theorem ensures_fresh {pfx : String} {f : String → Action α}
    (hf : ∀ u h, u ∉ w.issued → Ensures (S := effects) (World.exec I) Q h
      { w with issued := u :: w.issued } (f (newID pfx u))) :
    Ensures (S := effects) (World.exec I) Q h w ((fresh pfx).bind f) :=
  ensures_freshAt fun u => hf u _

/-- A raw answer of a method that reads. -/
theorem ensures_askRead {c : StoreCall} (hc : c.IsRead)
    {f : (Effect.store c).Answer → Action α}
    (hf : ∀ env a h, World.exec I env (.store c) w = some (a, w) →
      Ensures (S := effects) (World.exec I) Q h w (f a)) :
    Ensures (S := effects) (World.exec I) Q h w
      (Program.bind (α := no_index (Effect.store c).Answer) (ask (.store c)) f) := by
  intro env a w' hx
  obtain rfl := World.exec_read hc hx
  exact hf env a _ hx

theorem ensures_readAt {c : StoreCall} (hc : c.IsRead) {f : c.Result → Action α}
    (hok : ∀ env x, World.exec I env (.store c) w = some (.ok x, w) →
      Ensures (S := effects) (World.exec I) Q (⟨.store c, .ok x⟩ :: h) w (f x))
    (herr : ∀ e, Q (⟨.store c, .error e⟩ :: h) (.error e) w) :
    Ensures (S := effects) (World.exec I) Q h w
      (Program.bind (α := no_index c.Result) (store c) f) := by
  rw [store, bind_assoc]
  intro env a w' hx
  obtain rfl := World.exec_read hc hx
  cases a with
  | ok x => exact hok env x hx
  | error e => exact herr e

theorem ensures_read {c : StoreCall} (hc : c.IsRead) {f : c.Result → Action α}
    (hok : ∀ env x h, World.exec I env (.store c) w = some (.ok x, w) →
      Ensures (S := effects) (World.exec I) Q h w (f x))
    (herr : ∀ h e, Q h (.error e) w) :
    Ensures (S := effects) (World.exec I) Q h w
      (Program.bind (α := no_index c.Result) (store c) f) :=
  ensures_readAt hc (fun env x => hok env x _) fun e => herr _ e

theorem ensures_writeAt {c : StoreCall} (hc : ¬ c.IsRead) {f : c.Result → Action α}
    (hok : ∀ x, Ensures (S := effects) (World.exec I) Q (⟨.store c, .ok x⟩ :: h)
      { w with store := c.apply w.store } (f x))
    (herr : I.mayFail (.store c) = true → ∀ e, Q (⟨.store c, .error e⟩ :: h) (.error e) w) :
    Ensures (S := effects) (World.exec I) Q h w
      (Program.bind (α := no_index c.Result) (store c) f) := by
  rw [store, bind_assoc]
  intro env a w' hx
  rcases World.exec_write hc hx with ⟨hf, ⟨e, rfl⟩, rfl⟩ | ⟨⟨x, rfl⟩, rfl⟩
  · exact herr hf e
  · exact hok x

theorem ensures_write {c : StoreCall} (hc : ¬ c.IsRead) {f : c.Result → Action α}
    (hok : ∀ x h, Ensures (S := effects) (World.exec I) Q h
      { w with store := c.apply w.store } (f x))
    (herr : I.mayFail (.store c) = true → ∀ h e, Q h (.error e) w) :
    Ensures (S := effects) (World.exec I) Q h w
      (Program.bind (α := no_index c.Result) (store c) f) :=
  ensures_writeAt hc (fun x => hok x _) fun hf e => herr hf _ e

/-- Saving succeeds in a store that never fails. -/
theorem ensures_save (hI : I.KeepsStore) {c : StoreCall} (hc : ¬ c.IsRead)
    {f : c.Result → Action α}
    (hok : ∀ x h, Ensures (S := effects) (World.exec I) Q h
      { w with store := c.apply w.store } (f x)) :
    Ensures (S := effects) (World.exec I) Q h w
      (Program.bind (α := no_index c.Result) (store c) f) :=
  ensures_write hc hok fun hf => absurd (hf.symm.trans (hI c)) (by decide)

/-- A call of a component that is no store: it answers, and changes nothing. -/
theorem ensures_external {e : Effect} {f : e.Answer → Action α}
    (he : ∀ env a w', World.exec I env e w = some (a, w') → w' = w)
    (hf : ∀ a, Ensures (S := effects) (World.exec I) Q (⟨e, a⟩ :: h) w (f a)) :
    Ensures (S := effects) (World.exec I) Q h w
      (Program.bind (α := no_index e.Answer) (ask e) f) := by
  intro env a w' hx
  obtain rfl := he env a w' hx
  exact hf a

/-- The presence store after a call, if there is one. -/
def Service.presented (s : Service) (c : PresenceCall) (p : Presence) : Presence :=
  if s.hasPresence then (p.step c).2 else p

theorem ensures_presenceDo {s : Service} {c : PresenceCall} {f : Unit → Action α}
    (hok : ∀ h, Ensures (S := effects) (World.exec I) Q h
      { w with presence := s.presented c w.presence } (f ()))
    (herr : s.hasPresence = true → I.mayFail (.presence c) = true →
      ∀ h e, ⟨.presence c, .error e⟩ ∈ h → Q h (.error e) w) :
    Ensures (S := effects) (World.exec I) Q h w ((s.presenceDo c).bind f) := by
  rw [presenceDo]
  split
  · rename_i hs
    simp only [present, bind_eq, pure_eq, bind_assoc, ret_bind]
    intro env a w' hx
    rcases World.exec_cases hx with ⟨-, hf, ha, rfl⟩ | ⟨-, hp⟩
    · cases ha
      exact herr hs hf _ _ (by simp)
    · cases hp
      have hok := hok (⟨.presence c, .ok (Presence.step c w.presence).1⟩ :: h)
      simpa [presented, hs] using hok
  · rename_i hs
    have hok := hok h
    simpa [presented, hs] using hok

/-- The event that `publish` appends and publishes. -/
def envelope (eventType roomID actorUserID targetUserID correlationID : String)
    (payload : Payload) (eventID : String) (t : Time) : VoiceEvent :=
  { eventID, eventType, eventVersion := 1, roomID, actorUserID, targetUserID, correlationID,
    causationID := "", occurredAt := t, payload }

/-- An event is in the log, and on the bus if it was accepted there. -/
def World.logged (w : World) (event : VoiceEvent) (accepted : Bool) : World :=
  { w with
    store := { w.store with events := w.store.events ++ [event] }
    bus := if accepted then w.bus ++ [event] else w.bus }

theorem ensures_publish (hI : I.KeepsStore)
    {eventType roomID actorUserID targetUserID correlationID : String} {payload : Payload}
    {f : Unit → Action α}
    (hok : ∀ u t h, Ensures (S := effects) (World.exec I) Q h
      ({ w with issued := u :: w.issued }.logged (envelope eventType roomID actorUserID
        targetUserID correlationID payload (newID prefixEvent u) t) true) (f ()))
    (herr : ∀ u t h e, ⟨.publish (envelope eventType roomID actorUserID targetUserID correlationID
        payload (newID prefixEvent u) t), .error e⟩ ∈ h →
      Q h (.error e) ({ w with issued := u :: w.issued }.logged (envelope eventType roomID
        actorUserID targetUserID correlationID payload (newID prefixEvent u) t) false)) :
    Ensures (S := effects) (World.exec I) Q h w
      ((publish eventType roomID actorUserID targetUserID correlationID payload).bind f) := by
  simp only [publish, bind_eq, bind_assoc]
  refine ensures_fresh fun u _ _ => ensures_now fun t _ => ?_
  refine ensures_save hI id fun _ h => ?_
  intro env a w' hx
  rcases World.exec_cases hx with ⟨-, -, ha, rfl⟩ | ⟨-, hp⟩
  · cases ha
    exact herr u t _ _ List.mem_cons_self
  · cases hp
    exact hok u t _

/-- What `resolveRole` finds out about a user of a room. -/
def HasRole (w : World) (room : Room) (userID : String) (role : RoomRole) : Prop :=
  (room.Moderates userID ∧ role = room.resolveRole userID) ∨
    (¬ room.Moderates userID ∧ (role = .speaker ∧ HoldsApproval w room.id userID ∨
      role = .listener))

theorem HasRole.canModerate_iff {room : Room} {userID : String} {role : RoomRole}
    (h : HasRole w room userID role) : roleCanModerate role = true ↔ room.Moderates userID := by
  rcases h with ⟨hm, rfl⟩ | ⟨hm, ⟨rfl, -⟩ | rfl⟩
  · exact room.canModerate_iff userID
  · simp [hm, roleCanModerate]
  · simp [hm, roleCanModerate]

/-- The memory store knows no other error than that of a missing request. -/
theorem World.exec_findApproved_error (hI : I.KeepsStore) {env : Env} {w' : World}
    {roomID userID : String} {e : AppError}
    (h : World.exec I env (.store (.findApprovedSpeakerRequest roomID userID)) w =
      some (.error e, w')) : e = .speakerRequestNotFound := by
  rcases World.exec_cases h with ⟨-, hf, -, -⟩ | ⟨-, hp⟩
  · rw [hI] at hf
    cases hf
  · obtain ⟨⟨a, st⟩, hs, he⟩ := Option.map_eq_some_iff.mp hp
    obtain ⟨requests, -, hr⟩ := Option.map_eq_some_iff.mp hs
    cases he
    obtain ⟨hr, -⟩ := Prod.mk.inj hr
    unfold Store.findSpeakerRequest Store.found at hr
    split at hr <;> cases hr
    rfl

theorem ensures_resolveRole {room : Room} {userID : String} {f : RoomRole → Action α}
    (hok : ∀ role h, HasRole w room userID role →
      Ensures (S := effects) (World.exec I) Q h w (f role))
    (herr : ¬ I.KeepsStore → ∀ h e, Q h (.error e) w) :
    Ensures (S := effects) (World.exec I) Q h w ((resolveRole room userID).bind f) := by
  rw [resolveRole]
  split
  · rename_i hr
    have hm := not_not.mp (mt (room.resolveRole_eq_listener_iff userID).mpr hr)
    exact hok _ h (.inl ⟨hm, rfl⟩)
  · rename_i hr
    have hm := (room.resolveRole_eq_listener_iff userID).mp (not_not.mp hr)
    rw [bind_eq, bind_assoc]
    refine ensures_askRead (c := .findApprovedSpeakerRequest room.id userID) trivial
      fun env a h hx => ?_
    cases a with
    | ok request =>
      obtain ⟨⟨k, hk⟩, happroval⟩ := World.exec_findApproved hx
      exact hok .speaker h (.inr ⟨hm, .inl ⟨rfl, k, request, hk, happroval⟩⟩)
    | error e =>
      split
      · cases ‹Except.error e = _›
      · exact hok .listener h (.inr ⟨hm, .inr rfl⟩)
      · rename_i hne he
        cases he
        exact herr (fun hI => hne (World.exec_findApproved_error hI hx)) h _

end Rules

end WaveCast
