import WaveCast.Alone
import WaveCast.Confinement

/-!
# Playback descriptors

`internal/infra/mediaorigin` builds the descriptor of a listener from the room
and the session. The handler of `refresh-playback-url` has it built for the
empty session id and fills in the id afterwards, when the two addresses of the
session are already written: they never are those that joining returned.
-/

namespace WaveCast

open Interaction WaveCast.Action Program Service

/-! ## The media origin -/

namespace MediaOrigin

structure MediaConfig where
  passiveEnabled : Bool
  passiveMode : String
  originBaseURL : String
  cdnBaseURL : String
  protocol : String
  segmentMS : Int
  partMS : Int
  targetLatencyMS : Int

structure Builder where
  cfg : MediaConfig

def playbackURL (baseURL roomID : String) : String :=
  if baseURL = "" then "" else baseURL ++ "/live/" ++ roomID ++ "/index.m3u8"

def Builder.passiveMedia (b : Builder) (roomID : String) : PassiveMedia :=
  { enabled := b.cfg.passiveEnabled
    mode := b.cfg.passiveMode
    protocol := b.cfg.protocol
    originPlaybackURL := playbackURL b.cfg.originBaseURL roomID
    cdnPlaybackURL := if b.cfg.cdnBaseURL ≠ "" then playbackURL b.cfg.cdnBaseURL roomID else ""
    targetLatencyMS := b.cfg.targetLatencyMS
    segmentDurationMS := b.cfg.segmentMS
    partDurationMS := b.cfg.partMS }

def refreshURL (roomID sessionID : String) : String :=
  "/v1/rooms/" ++ roomID ++ "/listener-sessions/" ++ sessionID ++ "/refresh-playback-url"

def heartbeatURL (roomID sessionID : String) : String :=
  "/v1/rooms/" ++ roomID ++ "/listener-sessions/" ++ sessionID ++ "/heartbeat"

def listenerDescriptor (room : Room) (sessionID : String) (heartbeatInterval : Duration) :
    ListenerMediaDescriptor :=
  { protocol := room.passive.protocol
    playbackURL := if room.passive.mode = "cdn" && room.passive.cdnPlaybackURL ≠ "" then
      room.passive.cdnPlaybackURL else room.passive.originPlaybackURL
    sessionID
    heartbeatIntervalSeconds := heartbeatInterval.seconds
    refreshURL := refreshURL room.id sessionID
    heartbeatURL := heartbeatURL room.id sessionID
    targetLatencyMS := room.passive.targetLatencyMS }

def Builder.gateway (b : Builder) : MediaGateway where
  passiveMedia := b.passiveMedia
  listenerDescriptor := listenerDescriptor

/-- The addresses of two sessions of a room differ. -/
theorem refreshURL_injective (roomID : String) : Function.Injective (refreshURL roomID) := by
  intro sessionID sessionID' h
  simpa [refreshURL, ← String.toList_inj] using h

theorem heartbeatURL_injective (roomID : String) : Function.Injective (heartbeatURL roomID) := by
  intro sessionID sessionID' h
  simpa [heartbeatURL, ← String.toList_inj] using h

/-- A description of the room for no session, given the id of one afterwards. -/
theorem listenerDescriptor_patched {room room' : Room} (hid : room'.id = room.id)
    (hpassive : room'.passive = room.passive) (sessionID : String) (heartbeatInterval : Duration) :
    { listenerDescriptor room' "" heartbeatInterval with sessionID } =
      { listenerDescriptor room sessionID heartbeatInterval with
        refreshURL := refreshURL room.id ""
        heartbeatURL := heartbeatURL room.id "" } := by
  simp only [listenerDescriptor, hid, hpassive]

end MediaOrigin

/-- The handler `refreshPlaybackURL`. -/
def Service.refreshPlaybackURL (s : Service) (roomID sessionID : String) :
    Action ListenerMediaDescriptor := do
  let stream ← s.listenerStream roomID
  pure { stream with sessionID }

/-! ## What joining returned -/

/-- A result with the descriptor of the session as its listener's, if it has one, or an error. -/
def Service.Describes (s : Service) (room : Room) (sessionID : String)
    (r : Except AppError Reply) : Prop :=
  ∀ j d, r = .ok (.joined j) → j.listener = some d →
    d = s.media.listenerDescriptor room sessionID s.cfg.heartbeatInterval

/-- The descriptor that joining returns is of the room that was read and of a
session that was drawn. -/
def JoinDescribes (s : Service) (h : List VoiceExchange) (r : Except AppError Reply) :
    Command → Prop
  | .joinRoom c => ∀ j d, r = .ok (.joined j) → j.listener = some d → ∃ room sessionID,
      ⟨.store (.getRoom c.roomID), .ok room⟩ ∈ h ∧
      ⟨.newID prefixListenerSession, sessionID⟩ ∈ h ∧
      d = s.media.listenerDescriptor room sessionID s.cfg.heartbeatInterval
  | _ => True

theorem joinDescribes_error {s : Service} {cmd : Command} (h : List VoiceExchange)
    (e : AppError) : JoinDescribes s h (.error e) cmd := by
  cases cmd with
  | joinRoom c =>
    intro j d hr
    cases hr
  | _ => trivial

/-- The room was read and the session drawn; the rest ends with the descriptor of both. -/
theorem joinDescribes_of_describes {s : Service} {c : JoinRoomCommand} {h : List VoiceExchange}
    {p : Action Reply} (room : Room) (sessionID : String)
    (hread : ⟨.store (.getRoom c.roomID), .ok room⟩ ∈ h)
    (hdrawn : ⟨.newID prefixListenerSession, sessionID⟩ ∈ h)
    (hp : Follows (S := effects) (fun _ _ => True)
      (fun _ r => s.Describes room sessionID r) h p) :
    Follows (S := effects) (fun _ _ => True)
      (fun h r => JoinDescribes s h r (.joinRoom c)) h p := by
  refine (hp.extends (List.Subset.refl h)).mono (fun _ _ hc => hc) ?_
  rintro h' r ⟨hh, hr⟩ j d hj hd
  exact ⟨room, sessionID, hh hread, hh hdrawn, hr j d hj hd⟩

theorem program_joinDescribes (s : Service) (cmd : Command) :
    Follows (S := effects) (fun _ _ => True) (fun h r => JoinDescribes s h r cmd) []
      (s.program cmd) := by
  have hany : ∀ p : Action Reply, Follows (S := effects) (fun _ _ => True) (fun _ _ => True) [] p :=
    follows_of_forall (fun _ _ => trivial) (fun _ _ => trivial) _
  cases cmd with
  | joinRoom c =>
    simp only [Service.program, joinRoom, map_eq, bind_eq, pure_eq, bind_assoc, follows_store,
      follows_require, true_and, joinDescribes_error, implies_true, and_true]
    intro room _
    refine follows_resolveRole trivial (fun _ _ => joinDescribes_error _ _) fun h role hrole => ?_
    split
    · -- over LiveKit there is no descriptor of a listener
      refine Follows.mono (Q := fun _ r => ∀ j, r = .ok (.joined j) → j.listener = none) ?_
        (fun _ _ hc => hc) fun h r hnone j d hj hd => ?_
      · have herr : ∀ e : AppError, ∀ j, (.error e : Except AppError Reply) = .ok (.joined j) →
            j.listener = none := by simp
        simp only [bind_assoc, ret_bind]
        refine follows_bind_any _ _ _ herr fun _ id => follows_bind_any _ _ _ herr fun _ t => ?_
        refine follows_bind_any _ _ _ herr fun _ _ => follows_bind_any _ _ _ herr fun _ _ => ?_
        refine follows_bind_any _ _ _ herr fun _ a => follows_bind_any _ _ _ herr fun _ d => ?_
        rintro j ⟨⟩
        rfl
      · rw [hnone j hj] at hd
        cases hd
    · simp only [bind_assoc, ret_bind, follows_now, follows_fresh, true_and]
      intro t sessionID
      have herr : ∀ e : AppError, s.Describes room sessionID (.error e) := by
        simp [Service.Describes]
      refine joinDescribes_of_describes room sessionID ?_ (by simp) ?_
      · exact List.mem_cons_of_mem _ (List.mem_cons_of_mem _ (hrole.subset (by simp)))
      · refine follows_bind_any _ _ _ herr fun _ _ => follows_bind_any _ _ _ herr fun _ _ => ?_
        refine follows_bind_any _ _ _ herr fun _ _ => ?_
        rintro j d ⟨⟩ ⟨⟩
        rfl
  | _ => simp only [JoinDescribes, hany]

/-! ## Refreshing -/

section Refresh

variable {s : Service} {I : Infra} {w : World} {roomID sessionID : String}

/-- The room is read and described, whatever session is asked for. -/
theorem refreshPlaybackURL_ensures (h : List VoiceExchange) :
    Ensures (S := effects) (World.exec I) (fun _ r _ => ∀ body, r = .ok body →
      ∃ room, w.store.rooms.lookup roomID = some room ∧
        body = { s.media.listenerDescriptor room "" s.cfg.heartbeatInterval with sessionID }) h w
      (s.refreshPlaybackURL roomID sessionID) := by
  simp only [Service.refreshPlaybackURL, listenerStream, bind_eq, pure_eq, bind_assoc, ret_bind]
  refine ensures_read (c := .getRoom _) trivial (fun env room h hx => ?_) (by simp)
  rintro body ⟨⟩
  exact ⟨room, World.exec_getRoom hx, rfl⟩

/-- While nothing fails, a stored room can be described. -/
theorem refreshPlaybackURL_ends {room : Room} (hl : w.store.rooms.lookup roomID = some room) :
    ∃ envs body w', Program.eval (S := effects) (World.exec I.reliable) envs
      (s.refreshPlaybackURL roomID sessionID) w = some (.ok body, w') := by
  have hread : World.exec I.reliable (sampleEnv 0 []) (.store (.getRoom roomID)) w =
      some (.ok room, w) := by
    simp [World.exec, World.perform, Store.step, Store.found, sampleEnv, hl]
  exact ⟨[sampleEnv 0 []],
    { s.media.listenerDescriptor room "" s.cfg.heartbeatInterval with sessionID }, w, by
    simp [Service.refreshPlaybackURL, listenerStream, store, Action.ask, Program.perform,
      Program.eval, hread]⟩

theorem RoomChange.passive_eq {room₀ room : Room} {cmd : Command}
    (h : RoomChange room₀ room cmd) : (room.id, room.passive) = (room₀.id, room₀.passive) := by
  rw [h.frame]

/-- **Refreshing never returns the descriptor of the session.** In every state
since a listener joined, the body for its session can be had, and has the
addresses of no session in place of the two of the session; all else agrees. -/
theorem refresh_differs (s : Service) (b : MediaOrigin.Builder) (hb : s.media = b.gateway)
    (I : Infra) (ms : List VoiceMove) (p : VoicePool) (h : (s.system I).run ms = some p) (i : ℕ)
    (c : JoinRoomCommand) (j : JoinRoomResult) (d : ListenerMediaDescriptor)
    (hi : p.threads[i]? = some ⟨.joinRoom c, .ret (.joined j)⟩) (hd : j.listener = some d) :
    (∃ envs body w', Program.eval (S := effects) (World.exec I.reliable) envs
      (s.refreshPlaybackURL c.roomID d.sessionID) p.state = some (.ok body, w')) ∧
    ∀ envs body w', Program.eval (S := effects) (World.exec I) envs
      (s.refreshPlaybackURL c.roomID d.sessionID) p.state = some (.ok body, w') →
        body = { d with
          refreshURL := MediaOrigin.refreshURL c.roomID ""
          heartbeatURL := MediaOrigin.heartbeatURL c.roomID "" } ∧
        body.refreshURL ≠ d.refreshURL ∧ body.heartbeatURL ≠ d.heartbeatURL := by
  obtain ⟨room, sessionID, hread, hdrawn, rfl⟩ :=
    (System.run_obeys (program_joinDescribes s) h).1 i _ _ hi j d rfl hd
  have hrep := System.run_replays h
  have hstored := room_was_stored (rooms_coherent hrep) hread
  obtain ⟨room', hl, hkept⟩ := stored_room_kept (fun _ _ _ => RoomChange.passive_eq) h hstored
  obtain ⟨hid, hpassive⟩ := Prod.mk.inj hkept
  have hroom : room.id = c.roomID := room_read_id hrep hread
  have hne : sessionID ≠ "" := by
    obtain ⟨⟨k, cmd, env, x⟩, he, -, rfl⟩ := mem_threadHistory.mp hdrawn
    obtain ⟨w₀, w₁, hx⟩ := hrep.executed he
    obtain ⟨-, hid, -⟩ := World.exec_newID hx
    exact ne_of_eq_of_ne hid (newID_ne_empty _ _)
  refine ⟨refreshPlaybackURL_ends hl, fun envs body w' he => ?_⟩
  obtain ⟨-, hbody⟩ := (refreshPlaybackURL_ensures (s := s) (I := I) []).eval he
  obtain ⟨room₁, hl₁, rfl⟩ := hbody body rfl
  obtain rfl := Option.some.inj (hl.symm.trans hl₁)
  have hmedia : s.media.listenerDescriptor = MediaOrigin.listenerDescriptor := by rw [hb]; rfl
  rw [hmedia, ← hroom]
  have hpatched :=
    MediaOrigin.listenerDescriptor_patched hid hpassive sessionID s.cfg.heartbeatInterval
  refine ⟨hpatched, ?_, ?_⟩
  · intro heq
    have hrefresh := congrArg ListenerMediaDescriptor.refreshURL hpatched
    exact hne (MediaOrigin.refreshURL_injective room.id (hrefresh.symm.trans heq)).symm
  · intro heq
    have hheartbeat := congrArg ListenerMediaDescriptor.heartbeatURL hpatched
    exact hne (MediaOrigin.heartbeatURL_injective room.id (hheartbeat.symm.trans heq)).symm

end Refresh

def sampleOrigin : MediaOrigin.Builder :=
  ⟨⟨true, "cdn", "http://origin", "http://cdn", "llhls", 2000, 500, 3000⟩⟩

/-- The sample service behind the media origin. -/
def streamingService : Service := { sampleService with media := sampleOrigin.gateway }

/-- The descriptor that joining has returned. -/
def joinedListener : Action Reply → Option ListenerMediaDescriptor
  | .ret (.joined j) => j.listener
  | _ => none

theorem joinedListener_eq_some {rest : Action Reply} {d : ListenerMediaDescriptor} :
    joinedListener rest = some d ↔ ∃ j, rest = .ret (.joined j) ∧ j.listener = some d := by
  unfold joinedListener
  split
  · simp
  · rename_i hother
    refine iff_of_false (by simp) ?_
    rintro ⟨j, rfl, -⟩
    exact hother j rfl

/-- What thread 2 has joined with. -/
def guestListener (p : VoicePool) : Option ListenerMediaDescriptor :=
  (p.threads[2]?).bind fun t =>
    if t.cmd = .joinRoom ⟨sampleRoom, "guest", ""⟩ then joinedListener t.rest else none

theorem guestListener_eq_some {p : VoicePool} {d : ListenerMediaDescriptor}
    (h : guestListener p = some d) : ∃ j, p.threads[2]? =
      some ⟨.joinRoom ⟨sampleRoom, "guest", ""⟩, .ret (.joined j)⟩ ∧ j.listener = some d := by
  obtain ⟨⟨cmd, rest⟩, hi, ht⟩ := Option.bind_eq_some_iff.mp h
  split at ht
  · rename_i hcmd
    obtain rfl : cmd = _ := hcmd
    obtain ⟨j, rfl, hj⟩ := joinedListener_eq_some.mp ht
    exact ⟨j, hi, hj⟩
  · cases ht

theorem refresh_differs_guest :
    ∃ p d body, (streamingService.system (sampleInfra fun _ => false)).run
        (movesFrom 0 (openRoom ++ [guestJoins])) = some p ∧
      guestListener p = some d ∧
      (∃ envs w', Program.eval (S := effects) (World.exec (sampleInfra fun _ => false)) envs
        (streamingService.refreshPlaybackURL sampleRoom d.sessionID) p.state =
          some (.ok body, w')) ∧
      body.heartbeatURL ≠ d.heartbeatURL := by
  have hrun : ((streamingService.system (sampleInfra fun _ => false)).run
      (movesFrom 0 (openRoom ++ [guestJoins]))).any (fun p => (guestListener p).isSome) = true := by
    decide +kernel
  obtain ⟨p, hp, hd⟩ := (Option.any_eq_true _ _).mp hrun
  obtain ⟨d, hd⟩ := Option.isSome_iff_exists.mp hd
  obtain ⟨j, hi, hj⟩ := guestListener_eq_some hd
  obtain ⟨⟨envs, body, w', he⟩, hall⟩ :=
    refresh_differs streamingService sampleOrigin rfl (sampleInfra fun _ => false) _ p hp 2 _ j d
      hi hj
  exact ⟨p, d, body, hp, hd, ⟨envs, w', he⟩, (hall envs body w' he).2.2⟩

/-- A body of the handler that is not the descriptor of the session. -/
def refreshedOtherwise (p : VoicePool) (d : ListenerMediaDescriptor) : Bool :=
  match Program.eval (S := effects) (World.exec (sampleInfra fun _ => false)) [sampleEnv 0 []]
    (streamingService.refreshPlaybackURL sampleRoom d.sessionID) p.state with
  | some (.ok body, _) => body ≠ d
  | _ => false

/-- The guest's refreshed descriptor has the heartbeat address of no session. -/
theorem refresh_differs_fails :
    ∃ p d, (streamingService.system (sampleInfra fun _ => false)).run
        (movesFrom 0 (openRoom ++ [guestJoins])) = some p ∧
      guestListener p = some d ∧ refreshedOtherwise p d = true := by
  have hrun : ((streamingService.system (sampleInfra fun _ => false)).run
      (movesFrom 0 (openRoom ++ [guestJoins]))).any (fun p =>
        (guestListener p).any fun d => refreshedOtherwise p d) = true := by decide +kernel
  obtain ⟨p, hp, hd⟩ := (Option.any_eq_true _ _).mp hrun
  obtain ⟨d, hd, hother⟩ := (Option.any_eq_true _ _).mp hd
  exact ⟨p, d, hp, hd, hother⟩

end WaveCast
