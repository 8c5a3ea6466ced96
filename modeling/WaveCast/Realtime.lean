import WaveCast.Alone
import WaveCast.Dispatcher
import WaveCast.WellFormed

/-!
# Realtime channels

Three pieces of code make, parse and route the names of channels:
`realtimeDescriptor`, `authorizeChannel` and the dispatcher's `resolve`. They
fit together because the id of a room has no colon (`issued_no_colon`): an
event reaches a user only over a channel that the user may subscribe to for a
reason that entitles the user to the event, and the channels a client is told
about are granted (`realtime_entitled`).
-/

namespace WaveCast

open Interaction WaveCast.Action Program Service

/-! ## Names of channels -/

theorem Ulid.no_colon (u : Ulid) : ':' ∉ u.text.toList := by
  intro h
  have hc := List.all_eq_true.mp u.valid.2 ':' h
  revert hc
  decide

theorem newID_no_colon (u : Ulid) : ':' ∉ (newID prefixRoom u).toList := by
  simp [newID, prefixRoom, u.no_colon]

theorem hasPrefix_append (pfx t : String) : hasPrefix (pfx ++ t) pfx = true := by
  simp [hasPrefix]

theorem room_not_user (t : String) : hasPrefix ("room:" ++ t) "user:" = false := by
  simp [hasPrefix, List.isPrefixOf]

theorem splitColon_room {roomID : String} (h : ':' ∉ roomID.toList) :
    splitColon ("room:" ++ roomID) = ["room", roomID] := by
  have hl : ("room:" ++ roomID).toList = ['r', 'o', 'o', 'm'] ++ ':' :: roomID.toList := by
    simp
  rw [splitColon, hl, List.splitOn_append_cons_self_of_not_mem (by decide),
    List.splitOn_eq_singleton h]
  simp only [List.map_cons, List.map_nil, String.ofList_toList]

theorem splitColon_parts {roomID : String} (h : ':' ∉ roomID.toList) (rest : String) :
    splitColon ("room:" ++ roomID ++ ":" ++ rest) = "room" :: roomID :: splitColon rest := by
  have hl : ("room:" ++ roomID ++ ":" ++ rest).toList = ['r', 'o', 'o', 'm'] ++
      ':' :: (roomID.toList ++ ':' :: rest.toList) := by
    simp
  rw [splitColon, hl, List.splitOn_append_cons_self_of_not_mem (by decide),
    List.splitOn_append_cons_self_of_not_mem h]
  simp only [List.map_cons, String.ofList_toList, splitColon]

theorem splitColon_admins {roomID : String} (h : ':' ∉ roomID.toList) :
    splitColon ("room:" ++ roomID ++ ":admins") = ["room", roomID, "admins"] := by
  have hparts := splitColon_parts h "admins"
  rwa [String.append_assoc, show ":" ++ "admins" = ":admins" by decide,
    show splitColon "admins" = ["admins"] by decide] at hparts

/-! ## Who may subscribe -/

/-- Why a user may subscribe to a channel. -/
def MaySubscribe (w : World) (userID channel : String) : Prop :=
  (hasPrefix channel "user:" = true → channel = "user:" ++ userID) ∧
  (hasPrefix channel "user:" = false → hasPrefix channel "room:" = true →
    ∃ room, w.store.rooms.lookup ((splitColon channel).getD 1 "") = some room ∧
      ((splitColon channel).length = 3 → (splitColon channel).getD 2 "" = "admins" →
        room.Moderates userID))

/-- Why a subscription is granted. -/
def Admitted (w : World) (userID channel : String) : Prop :=
  channel = "user:" ++ userID ∨
  (hasPrefix channel "user:" = false ∧ hasPrefix channel "room:" = true ∧
    2 ≤ (splitColon channel).length ∧
    ∃ room, w.store.rooms.lookup ((splitColon channel).getD 1 "") = some room ∧
      ((splitColon channel).length = 3 → (splitColon channel).getD 2 "" = "admins" →
        room.Moderates userID))

/-- What `authorizeChannel` lets through. -/
def Permitted (w : World) (userID channel : String) : Prop :=
  Admitted w userID channel ∨
  (hasPrefix channel "user:" = false ∧ hasPrefix channel "room:" = false ∧
    hasPrefix channel "listener_session:" = true)

theorem Permitted.maySubscribe {w : World} {userID channel : String}
    (h : Permitted w userID channel) : MaySubscribe w userID channel := by
  rcases h with (rfl | ⟨huser, -, -, room, hl, hm⟩) | ⟨huser, hroom, -⟩
  · exact ⟨fun _ => rfl, fun hn => by simp [hasPrefix_append] at hn⟩
  · exact ⟨fun hu => by simp [huser] at hu, fun _ _ => ⟨room, hl, hm⟩⟩
  · exact ⟨fun hu => by simp [huser] at hu, fun _ hr => by simp [hroom] at hr⟩

theorem authorizeChannel_ensures {I : Infra} {w : World} {h : List VoiceExchange}
    {userID channel : String} {α : Type} {f : Unit → Action α}
    {Q : List VoiceExchange → Except AppError α → World → Prop}
    (hok : ∀ h, Permitted w userID channel →
      Ensures (S := effects) (World.exec I) Q h w (f ()))
    (herr : ∀ h e, Q h (.error e) w) :
    Ensures (S := effects) (World.exec I) Q h w ((authorizeChannel userID channel).bind f) := by
  rw [authorizeChannel]
  split
  · rw [ensures_require]
    exact ⟨fun hc => hok h (.inl (.inl (of_decide_eq_true hc))), fun _ => herr h _⟩
  · rename_i huser
    rw [Bool.not_eq_true] at huser
    split
    · rename_i hroom
      dsimp only
      split
      · exact herr h _
      · rename_i hlen
        simp only [bind_eq, bind_assoc]
        refine ensures_read (c := .getRoom _) trivial (fun env room h hx => ?_) herr
        refine ensures_resolveRole (fun role h hrole => ?_) fun _ => herr
        rw [ensures_require]
        refine ⟨fun hadmin => hok h (.inl (.inr ⟨huser, hroom, not_lt.mp hlen, ?_⟩)),
          fun _ => herr h _⟩
        refine ⟨room, World.exec_getRoom hx, fun hlen hlast => ?_⟩
        rw [← hrole.canModerate_iff]
        simpa only [hlen, hlast, decide_true, Bool.true_and, Bool.not_not] using hadmin
    · rename_i hroom
      rw [Bool.not_eq_true] at hroom
      split
      · exact hok h (.inr ⟨huser, hroom, ‹_›⟩)
      · exact herr h _

/-- A user who gets a token may subscribe. -/
theorem subscription_ensures {I : Infra} {w : World} {h : List VoiceExchange}
    {userID channel : String} :
    Ensures (S := effects) (World.exec I)
      (fun _ r _ => ∀ token, r = .ok token → MaySubscribe w userID channel) h w
      (realtimeSubscriptionToken userID channel) := by
  simp only [realtimeSubscriptionToken, bind_eq, pure_eq, ensures_require]
  refine ⟨fun _ => authorizeChannel_ensures (fun h hpermitted => ?_) (by simp), by simp⟩
  intro env a w' _
  cases a with
  | ok token => exact fun _ _ => hpermitted.maySubscribe
  | error e => simp

/-! ## Who hears an event -/

/-- The events for the moderators of a room. -/
def adminEvents : List String :=
  [eventSpeakerRequested, eventRecordingCompleted, eventReportCompleted]

/-- The user is entitled to hear of the event. -/
def MayHear (w : World) (userID : String) (event : VoiceEvent) : Prop :=
  if event.eventType ∈ adminEvents then
    ∃ room, w.store.rooms.lookup event.roomID = some room ∧ room.Moderates userID
  else if event.eventType ∈ Dispatcher.targetEvents then userID = event.targetUserID
  else w.store.rooms.lookup event.roomID ≠ none

theorem MaySubscribe.admins {w : World} {userID roomID : String} (h : ':' ∉ roomID.toList)
    (hmay : MaySubscribe w userID ("room:" ++ roomID ++ ":admins")) :
    ∃ room, w.store.rooms.lookup roomID = some room ∧ room.Moderates userID := by
  rw [String.append_assoc] at hmay
  obtain ⟨room, hl, hm⟩ := hmay.2 (room_not_user _) (hasPrefix_append _ _)
  rw [← String.append_assoc, splitColon_admins h] at hl hm
  exact ⟨room, hl, hm rfl rfl⟩

theorem MaySubscribe.room {w : World} {userID roomID : String} (h : ':' ∉ roomID.toList)
    (hmay : MaySubscribe w userID ("room:" ++ roomID)) : w.store.rooms.lookup roomID ≠ none := by
  obtain ⟨room, hl, -⟩ := hmay.2 (room_not_user _) (hasPrefix_append _ _)
  rw [splitColon_room h] at hl
  exact Option.ne_none_iff_exists'.mpr ⟨room, hl⟩

theorem MaySubscribe.user {w : World} {userID userID' : String}
    (hmay : MaySubscribe w userID ("user:" ++ userID')) : userID = userID' := by
  have heq := hmay.1 (hasPrefix_append _ _)
  exact (String.append_right_inj "user:").mp heq.symm

/-- An event that is routed to a channel is heard by those who may. -/
theorem resolve_mayHear {d : Dispatcher.RealtimeDispatcher Payload} {event : VoiceEvent} {w : World}
    {userID channel : String} (hcolon : ':' ∉ event.roomID.toList)
    (hmay : MaySubscribe w userID channel)
    (hroute : ∃ r ∈ d.resolve event, r.channel = channel) : MayHear w userID event := by
  obtain ⟨r, hr, rfl⟩ := hroute
  unfold Dispatcher.RealtimeDispatcher.resolve at hr
  unfold MayHear
  split at hr
  · cases hr
  split at hr
  · rename_i htype
    rw [List.mem_singleton] at hr
    subst hr
    rw [if_pos (by simp [adminEvents, htype])]
    exact hmay.admins hcolon
  rename_i hrequested
  split at hr
  · rename_i htarget
    split at hr
    · cases hr
    · rw [List.mem_singleton] at hr
      subst hr
      rw [if_neg, if_pos htarget]
      · exact hmay.user
      · intro hadmin
        revert htarget
        simp only [adminEvents, List.mem_cons, List.not_mem_nil, or_false] at hadmin
        rcases hadmin with h | h | h <;> rw [h] <;> decide
  rename_i htarget
  split at hr
  · rename_i htype
    rw [List.mem_singleton] at hr
    subst hr
    rw [if_pos (by rcases htype with h | h <;> simp [adminEvents, h])]
    exact hmay.admins hcolon
  rename_i hcompleted
  split at hr
  · cases hr
  · rw [List.mem_singleton] at hr
    subst hr
    rw [if_neg, if_neg htarget]
    · exact hmay.room hcolon
    · intro hadmin
      simp only [adminEvents, List.mem_cons, List.not_mem_nil, or_false] at hadmin
      rcases hadmin with h | h | h
      · exact hrequested h
      · exact hcompleted (.inl h)
      · exact hcompleted (.inr h)

/-! ## Published events -/

section Published

variable {s : Service} {I : Infra} {ms : List VoiceMove} {p : VoicePool} {roomID : String}

theorem IssuedRoom.no_colon (h : (s.system I).run ms = some p) (hi : IssuedRoom p.trace roomID) :
    ':' ∉ roomID.toList := by
  obtain ⟨⟨i, cmd, env, x⟩, he, hd⟩ := hi
  obtain ⟨w₀, w₁, hx⟩ := (System.run_replays h).executed he
  cases idDraws_eq_some.mp hd
  obtain ⟨-, hid, -⟩ := World.exec_newID hx
  rw [show roomID = newID prefixRoom env.ulid from hid]
  exact newID_no_colon env.ulid

/-- The room of a stored session was issued. -/
theorem session_room_issued (h : (s.system I).run ms = some p) {k : String}
    {session : ListenerSession} (hs : WasStored sessionSaves p.trace k session) :
    IssuedRoom p.trace session.roomID := by
  refine (sessions_evolve h).invariant
    (I := fun t (session : ListenerSession) => IssuedRoom t session.roomID)
    (fun e older session hi => IssuedRoom.cons e hi) ?_ ?_ hs
  · rintro older e session ⟨c, t, room, -, hid, hi, hsession⟩
    have hroom : session.roomID = c.roomID := by rw [hsession]; exact hid
    rw [hroom]
    exact hi.cons e
  · intro older e session₀ session hi hst
    have hroom : session.roomID = session₀.roomID := congrArg (·.2.1) hst.identity_eq
    rw [hroom]
    exact hi.cons e

/-- The room a command speaks of was issued. -/
theorem InRoom.issued (h : (s.system I).run ms = some p) {i : ℕ} {cmd : Command}
    (hr : InRoom (threadHistory i p.trace) roomID cmd) : IssuedRoom p.trace roomID := by
  have hrep := System.run_replays h
  cases cmd with
  | createRoom c =>
    obtain ⟨e, he, -, hx⟩ := mem_threadHistory.mp hr
    exact ⟨e, he, idDraws_eq_some.mpr hx⟩
  | listenerHeartbeat c | leaveListener c =>
    obtain ⟨rfl, session, hread, hroom⟩ := hr
    exact hroom ▸ session_room_issued h (session_was_stored hrep hread).1
  | expireStaleListenerSessions cutoff limit correlationID =>
    obtain ⟨sessions, session, hl, hs, rfl⟩ := hr
    exact session_room_issued h (session_was_listed hrep hl hs).1
  | closeRoomSessions roomID' endedAt correlationID =>
    obtain ⟨rfl, sessions, session, hl, hs⟩ := hr
    obtain ⟨hstored, hroom, -⟩ := session_was_listed hrep hl hs
    exact hroom ▸ session_room_issued h hstored
  | _ =>
    obtain ⟨roomID', -, room, hread, rfl⟩ := hr
    rw [room_read_id hrep hread]
    exact room_read_issued h hread

/-- The room of a published event has no colon in its id. -/
theorem published_no_colon (h : (s.system I).run ms = some p) {e : VoiceEntry} {event : VoiceEvent}
    (he : e ∈ p.trace) (hx : e.exchange.call = .publish event) : ':' ∉ event.roomID.toList := by
  have hall := run_calls (P := fun _ e => ∀ event, e.exchange.call = .publish event →
    ':' ∉ event.roomID.toList) h fun ms' q e hq _ hacc event hx => by
      rw [hx] at hacc
      exact (InRoom.issued hq hacc.2).no_colon hq
  rw [always_iff] at hall
  obtain ⟨newer, older, ht⟩ := List.append_of_mem he
  exact hall newer e older ht event hx

end Published

/-! ## Channels a client is told about -/

/-- `RealtimeSubscriptionToken` can end, and always ends with a token, when
nothing fails. -/
def Granted (I : Infra) (w : World) (userID channel : String) : Prop :=
  (∃ envs r w', Program.eval (S := effects) (World.exec I.reliable) envs
    (realtimeSubscriptionToken userID channel) w = some (r, w')) ∧
  ∀ envs r w', Program.eval (S := effects) (World.exec I.reliable) envs
    (realtimeSubscriptionToken userID channel) w = some (r, w') → ∃ token, r = .ok token

section Granted

variable {I : Infra} {w : World} {userID channel : String}

theorem subscription_ends (I : Infra) (w : World) (userID channel : String) :
    ∃ envs r w', Program.eval (S := effects) (World.exec I) envs
      (realtimeSubscriptionToken userID channel) w = some (r, w') := by
  refine exists_eval_of_peeks I w (h := []) ?_
  simp only [realtimeSubscriptionToken, bind_eq, pure_eq, follows_require]
  refine ⟨fun _ => authorizeChannel_peeks fun h => ?_, fun _ => trivial⟩
  simp [follows_ask, follows_ofExcept, Effect.Peeks]

theorem Infra.reliable_keepsStore (I : Infra) : I.reliable.KeepsStore := fun _ => rfl

/-- What nothing fails in answers as it performs. -/
theorem World.exec_reliable {env : Env} {e : Effect} {a : e.Answer} {w' : World}
    (h : World.exec I.reliable env e w = some (a, w')) :
    World.perform I.reliable env e w = some (a, w') := by
  rcases World.exec_cases h with ⟨-, hf, -, -⟩ | ⟨-, h⟩
  · cases hf
  · exact h

/-- A name that starts with a letter is not blank. -/
theorem trimSpace_ne_empty {c : Char} {t : String} (h : t.toList.head? = some c)
    (hc : isSpace c = false) : trimSpace t ≠ "" := by
  obtain ⟨rest, hl⟩ := List.head?_eq_some_iff.mp h
  intro hblank
  have hnil : trimChars isSpace t.toList = [] := by
    rw [trimSpace] at hblank
    simpa using congrArg String.toList hblank
  rw [hl, trimChars, List.dropWhile_cons_of_neg (by simp [hc]), List.reverse_eq_nil_iff,
    List.dropWhile_eq_nil_iff] at hnil
  exact absurd (hnil c (by simp)) (by simp [hc])

theorem authorizeChannel_admits {h : List VoiceExchange} {α : Type} {f : Unit → Action α}
    {Q : List VoiceExchange → Except AppError α → World → Prop}
    (hadmitted : Admitted w userID channel)
    (hok : ∀ h, Ensures (S := effects) (World.exec I.reliable) Q h w (f ())) :
    Ensures (S := effects) (World.exec I.reliable) Q h w
      ((authorizeChannel userID channel).bind f) := by
  rw [authorizeChannel]
  rcases hadmitted with rfl | ⟨huser, hroom, hlen, room, hl, hm⟩
  · rw [if_pos (hasPrefix_append _ _), ensures_require]
    exact ⟨fun _ => hok h, fun hne => by simp at hne⟩
  · rw [if_neg (by simp [huser]), if_pos hroom, if_neg (by omega)]
    simp only [bind_eq, bind_assoc, store]
    refine ensures_askRead (c := .getRoom _) trivial fun env a h hx => ?_
    have ha := World.exec_reliable hx
    simp only [World.perform, Store.step, hl, Store.found, Option.map_some, Option.some.injEq,
      Prod.mk.injEq] at ha
    obtain ⟨rfl, -⟩ := ha
    refine ensures_resolveRole (fun role h hrole => ?_)
      fun hI => absurd I.reliable_keepsStore hI
    rw [ensures_require]
    refine ⟨fun _ => hok h, fun hdenied => ?_⟩
    have hdenied := Bool.not_eq_eq_eq_not.mp hdenied
    simp only [Bool.not_false, Bool.and_eq_true, decide_eq_true_eq, Bool.not_eq_true',
      ← Bool.not_eq_true, hrole.canModerate_iff] at hdenied
    exact absurd (hm hdenied.1.1 hdenied.1.2) hdenied.2

theorem granted_of_admitted (hu : trimSpace userID ≠ "") (hc : trimSpace channel ≠ "")
    (hadmitted : Admitted w userID channel) : Granted I w userID channel := by
  refine ⟨subscription_ends _ w userID channel, fun envs r w' he => ?_⟩
  have hens : Ensures (S := effects) (World.exec I.reliable)
      (fun _ r _ => ∃ token, r = .ok token) [] w (realtimeSubscriptionToken userID channel) := by
    simp only [realtimeSubscriptionToken, bind_eq, pure_eq, ensures_require]
    refine ⟨fun _ => authorizeChannel_admits hadmitted fun h => ?_, fun hblank => ?_⟩
    · intro env a w' hx
      cases World.exec_reliable hx
      exact ⟨_, rfl⟩
    · simp [hu, hc] at hblank
  obtain ⟨-, hr⟩ := hens.eval he
  exact hr

end Granted

/-! ## Joining -/

section Joining

variable {s : Service}

/-- The user whom a command lets join, and the room. -/
def joiner : Command → Option (String × String)
  | .joinRoom c => some (c.roomID, c.userID)
  | .createSpeakerSession c => some (c.roomID, c.userID)
  | _ => none

/-- The channels in the result of a command are those of a room it has read. -/
def JoinReturns (s : Service) (cmd : Command) (h : List VoiceExchange)
    (r : Except AppError Reply) : Prop :=
  ∀ roomID userID j, joiner cmd = some (roomID, userID) → r = .ok (.joined j) →
    ∃ room role, ⟨.store (.getRoom roomID), .ok room⟩ ∈ h ∧
      (roleCanModerate role = true → room.Moderates userID) ∧
      j.events = s.realtimeDescriptor room.id userID role

theorem RoleGrounds.moderates {room : Room} {userID : String} {h h' : List VoiceExchange}
    {role : RoomRole} (hg : RoleGrounds room userID h h' role)
    (hm : roleCanModerate role = true) : room.Moderates userID := by
  cases role with
  | speaker | listener => cases hm
  | _ => exact hg.1

/-- A result with the channels of the room, or an error. -/
def Service.ListsChannels (s : Service) (roomID userID : String) (role : RoomRole)
    (r : Except AppError Reply) : Prop :=
  (∃ e, r = .error e) ∨
    ∃ j, r = .ok (.joined j) ∧ j.events = s.realtimeDescriptor roomID userID role

/-- The room was read and the role resolved; the rest ends with its channels. -/
theorem joinReturns_of_lists {cmd : Command} {roomID userID : String} {room : Room}
    {role : RoomRole} {h h' : List VoiceExchange} {p : Action Reply}
    (hj : joiner cmd = some (roomID, userID))
    (hread : ⟨.store (.getRoom roomID), .ok room⟩ ∈ h) (hrole : RoleGrounds room userID h h' role)
    (hp : Follows (S := effects) (fun _ _ => True)
      (fun _ r => s.ListsChannels room.id userID role r) h' p) :
    Follows (S := effects) (fun _ _ => True) (JoinReturns s cmd) h' p := by
  refine (hp.extends hrole.subset).mono (fun _ _ hc => hc) ?_
  rintro h r ⟨hh, hr⟩ roomID' userID' j hj' rfl
  cases hj.symm.trans hj'
  rcases hr with ⟨e, he⟩ | ⟨j', he, hevents⟩
  · cases he
  · cases he
    exact ⟨room, role, hh hread, hrole.moderates, hevents⟩

theorem joinReturns_of_other {cmd : Command} (hcmd : joiner cmd = none) (h : List VoiceExchange)
    (r : Except AppError Reply) : JoinReturns s cmd h r := by
  intro roomID userID j hj
  cases hcmd.symm.trans hj

theorem program_joinReturns (s : Service) (cmd : Command) :
    Follows (S := effects) (fun _ _ => True) (JoinReturns s cmd) [] (s.program cmd) := by
  have herr : ∀ h e, JoinReturns s cmd h (.error e) := by
    intro h e roomID userID j _ he
    cases he
  have hany : ∀ {room userID role} e, s.ListsChannels room userID role (.error e) :=
    fun e => .inl ⟨e, rfl⟩
  cases cmd with
  | joinRoom c =>
    simp only [Service.program, joinRoom, map_eq, bind_eq, pure_eq, bind_assoc, follows_store,
      follows_require, true_and, herr, implies_true, and_true]
    intro room _
    refine follows_resolveRole trivial herr fun h role hrole => ?_
    refine joinReturns_of_lists rfl (by simp) hrole ?_
    split
    · simp only [bind_assoc, ret_bind]
      refine follows_bind_any _ _ _ hany fun _ id => follows_bind_any _ _ _ hany fun _ t => ?_
      refine follows_bind_any _ _ _ hany fun _ _ => follows_bind_any _ _ _ hany fun _ _ => ?_
      refine follows_bind_any _ _ _ hany fun _ a => follows_bind_any _ _ _ hany fun _ d => ?_
      exact .inr ⟨_, rfl, rfl⟩
    · simp only [bind_assoc, ret_bind]
      refine follows_bind_any _ _ _ hany fun _ id => follows_bind_any _ _ _ hany fun _ t => ?_
      refine follows_bind_any _ _ _ hany fun _ _ => follows_bind_any _ _ _ hany fun _ _ => ?_
      refine follows_bind_any _ _ _ hany fun _ _ => ?_
      exact .inr ⟨_, rfl, rfl⟩
  | createSpeakerSession c =>
    simp only [Service.program, createSpeakerSession, map_eq, bind_eq, pure_eq, bind_assoc,
      ret_bind, follows_store, follows_require, true_and, herr, implies_true, and_true]
    intro room _
    refine follows_resolveRole trivial herr fun h role hrole => ?_
    refine joinReturns_of_lists rfl (by simp) hrole ?_
    refine follows_bind_any _ _ _ hany fun _ _ => ?_
    refine follows_bind_any _ _ _ hany fun _ id => follows_bind_any _ _ _ hany fun _ t => ?_
    refine follows_bind_any _ _ _ hany fun _ _ => follows_bind_any _ _ _ hany fun _ _ => ?_
    refine follows_bind_any _ _ _ hany fun _ a => follows_bind_any _ _ _ hany fun _ d => ?_
    exact .inr ⟨_, rfl, rfl⟩
  | _ => exact follows_of_forall (fun _ _ => trivial) (joinReturns_of_other rfl) _ _

/-- A room that was read is still stored, with the same moderators. -/
theorem room_still_stored {I : Infra} {ms : List VoiceMove} {p : VoicePool}
    (h : (s.system I).run ms = some p) {i : ℕ} {roomID : String} {room : Room}
    (hread : ⟨.store (.getRoom roomID), .ok room⟩ ∈ threadHistory i p.trace) :
    ∃ room', p.state.store.rooms.lookup roomID = some room' ∧
      ∀ userID, room.Moderates userID → room'.Moderates userID := by
  have hstored := room_was_stored (rooms_coherent (System.run_replays h)) hread
  obtain ⟨room', hl, hident⟩ := stored_room_kept (fun _ _ _ => RoomChange.identity_eq) h hstored
  refine ⟨room', hl, fun userID hm => ?_⟩
  simp only [Room.identity, Prod.mk.injEq] at hident
  obtain ⟨-, howner, hadmins, hmods, -⟩ := hident
  rw [Room.Moderates, howner, hadmins, hmods]
  exact hm

/-- The channels of a room that is stored are granted. -/
theorem descriptor_granted {I : Infra} {w : World} {roomID userID : String} {room : Room}
    {role : RoomRole} (hcolon : ':' ∉ roomID.toList) (hl : w.store.rooms.lookup roomID = some room)
    (hrole : roleCanModerate role = true → room.Moderates userID) (hu : trimSpace userID ≠ "")
    {channel : String} (hc : channel ∈ (s.realtimeDescriptor roomID userID role).channels) :
    Granted I w userID channel := by
  have hrooms : channel = "room:" ++ roomID ∨ channel = "user:" ++ userID ∨
      (roleCanModerate role = true ∧ channel = "room:" ++ roomID ++ ":admins") := by
    simp only [realtimeDescriptor, List.mem_append, List.mem_cons, List.not_mem_nil, or_false] at hc
    rcases hc with (hc | hc) | hc
    · exact .inl hc
    · exact .inr (.inl hc)
    · split at hc
      · exact .inr (.inr ⟨‹_›, List.mem_singleton.mp hc⟩)
      · cases hc
  rcases hrooms with rfl | rfl | ⟨hm, rfl⟩
  · refine granted_of_admitted hu (trimSpace_ne_empty (c := 'r') (by simp) (by decide)) (.inr ?_)
    rw [splitColon_room hcolon]
    exact ⟨room_not_user _, hasPrefix_append _ _, by simp, room, hl, by simp⟩
  · exact granted_of_admitted hu (trimSpace_ne_empty (c := 'u') (by simp) (by decide)) (.inl rfl)
  · refine granted_of_admitted hu (trimSpace_ne_empty (c := 'r') (by simp) (by decide)) (.inr ?_)
    rw [splitColon_admins hcolon, String.append_assoc]
    exact ⟨room_not_user _, hasPrefix_append _ _, by simp, room, hl, fun _ _ => hrole hm⟩

end Joining

/-- **Realtime events reach only entitled users, and advertised channels are
usable.** In any state `p` of the service, a user who gets a token for a channel
is entitled to every event that is published in a run and routed to the
channel; and the channels that `JoinRoom` and `CreateSpeakerSession` have
listed for a user are granted. -/
theorem realtime_entitled (s : Service) (I : Infra) (d : Dispatcher.RealtimeDispatcher Payload)
    (ms : List VoiceMove) (p : VoicePool) (h : (s.system I).run ms = some p) :
    (∀ ms' p' e event, (s.system I).run ms' = some p' → e ∈ p'.trace →
      e.exchange.call = .publish event → ∀ userID channel envs token w',
      Program.eval (S := effects) (World.exec I) envs (realtimeSubscriptionToken userID channel)
        p.state = some (.ok token, w') →
      (∃ r ∈ d.resolve event, r.channel = channel) → MayHear p.state userID event) ∧
    ∀ (i : ℕ) cmd roomID userID (j : JoinRoomResult), joiner cmd = some (roomID, userID) →
      p.threads[i]? = some ⟨cmd, .ret (.joined j)⟩ → trimSpace userID ≠ "" →
      ∀ channel ∈ j.events.channels, Granted I p.state userID channel := by
  constructor
  · intro ms' p' e event h' he hx userID channel envs token w' heval hroute
    obtain ⟨-, hmay⟩ := subscription_ensures.eval (h := []) heval
    exact resolve_mayHear (published_no_colon h' he hx) (hmay token rfl) hroute
  · intro i cmd roomID userID j hj hi hu channel hc
    have hreturns := (System.run_obeys (program_joinReturns s) h).1 i cmd _ hi
    obtain ⟨room, role, hread, hrole, hevents⟩ := hreturns roomID userID j hj rfl
    obtain ⟨room', hl, hm⟩ := room_still_stored h hread
    rw [hevents, room_read_id (System.run_replays h) hread] at hc
    exact descriptor_granted ((room_read_issued h hread).no_colon h) hl
      (fun hmod => hm userID (hrole hmod)) hu hc

/-- The command has ended and let its user into the room. -/
def hasJoined (p : Action Reply) : Bool :=
  match p with
  | .ret (.joined _) => true
  | _ => false

/-- The call publishes that the user has asked to speak in the sample room. -/
def announcesRequest : Effect → Bool
  | .publish event => event.eventType = eventSpeakerRequested && event.roomID = sampleRoom
  | _ => false

theorem exists_announced {t : List VoiceEntry}
    (h : t.any (announcesRequest ·.exchange.call) = true) :
    ∃ e ∈ t, ∃ event, e.exchange.call = .publish event ∧
      event.eventType = eventSpeakerRequested ∧ event.roomID = sampleRoom := by
  obtain ⟨e, he, hcall⟩ := List.any_eq_true.mp h
  unfold announcesRequest at hcall
  split at hcall
  · rename_i event hevent
    obtain ⟨htype, hroom⟩ := Bool.and_eq_true_iff.mp hcall
    exact ⟨e, he, event, hevent, of_decide_eq_true htype, of_decide_eq_true hroom⟩
  · cases hcall

/-- The channel of the moderators of the sample room. -/
def sampleAdmins : String := "room:" ++ sampleRoom ++ ":admins"

theorem resolve_requested {d : Dispatcher.RealtimeDispatcher Payload} {event : VoiceEvent}
    (htype : event.eventType = eventSpeakerRequested) (hroom : event.roomID = sampleRoom) :
    ∃ r ∈ d.resolve event, r.channel = sampleAdmins := by
  have hname : Dispatcher.clientEventName eventSpeakerRequested ≠ "" := by decide
  simp [Dispatcher.RealtimeDispatcher.resolve, htype, hroom, hname, sampleAdmins]

/-- A moderator with a token hears that the guest asks to speak, and the guest is
granted the channels that `CreateSpeakerSession` listed. -/
theorem realtime_entitled_speaker :
    ∃ p j token w', (sampleService.system (sampleInfra fun _ => false)).run
        (movesFrom 0 (openRoom ++ promotion)) = some p ∧
      Program.eval (S := effects) (World.exec (sampleInfra fun _ => false)) (plain 2)
        (realtimeSubscriptionToken "moderator" sampleAdmins) p.state = some (.ok token, w') ∧
      (∃ e ∈ p.trace, ∃ event, e.exchange.call = .publish event ∧
        event.eventType = eventSpeakerRequested ∧ MayHear p.state "moderator" event) ∧
      p.threads[4]? =
        some ⟨.createSpeakerSession ⟨sampleRoom, "guest", ""⟩, .ret (.joined j)⟩ ∧
      ∀ channel ∈ j.events.channels,
        Granted (sampleInfra fun _ => false) p.state "guest" channel := by
  have hrun : ((sampleService.system (sampleInfra fun _ => false)).run
      (movesFrom 0 (openRoom ++ promotion))).any (fun p => ((p.threads[4]?).any fun t =>
        t.cmd = .createSpeakerSession ⟨sampleRoom, "guest", ""⟩ && hasJoined t.rest) &&
        p.trace.any (announcesRequest ·.exchange.call) &&
        (Program.eval (S := effects) (World.exec (sampleInfra fun _ => false)) (plain 2)
          (realtimeSubscriptionToken "moderator" sampleAdmins) p.state).any (·.1.isOk)) = true := by
    decide +kernel
  obtain ⟨p, hp, hfacts⟩ := (Option.any_eq_true _ _).mp hrun
  obtain ⟨hfacts, htoken⟩ := Bool.and_eq_true_iff.mp hfacts
  obtain ⟨ht, hannounced⟩ := Bool.and_eq_true_iff.mp hfacts
  obtain ⟨e, he, event, hcall, htype, hroom⟩ := exists_announced hannounced
  obtain ⟨⟨answer, w'⟩, heval, hok⟩ := (Option.any_eq_true _ _).mp htoken
  obtain ⟨⟨cmd, rest⟩, hi, ht⟩ := (Option.any_eq_true _ _).mp ht
  obtain ⟨hcmd, hrest⟩ := Bool.and_eq_true_iff.mp ht
  obtain rfl := of_decide_eq_true hcmd
  cases answer with
  | error err => cases hok
  | ok token =>
    unfold hasJoined at hrest
    split at hrest
    · rename_i j hj
      obtain rfl : rest = _ := hj
      obtain ⟨hhears, hgranted⟩ :=
        realtime_entitled _ (sampleInfra fun _ => false) ⟨fun _ => none, fun _ => ""⟩ _ p hp
      have hmay := hhears _ p e event hp he hcall "moderator" sampleAdmins (plain 2) token w' heval
        (resolve_requested htype hroom)
      exact ⟨p, j, token, w', hp, heval, ⟨e, he, event, hcall, htype, hmay⟩, hi,
        hgranted 4 _ _ _ j rfl hi (by decide)⟩
    · cases hrest

end WaveCast
