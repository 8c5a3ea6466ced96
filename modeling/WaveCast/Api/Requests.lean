import WaveCast.Api.Endpoints
import WaveCast.AuditLog

/-!
# Runs of the API

Any number of requests, their calls interleaved in any order. Every run is one
of the service, so its guarantees are those of the API. The log names the
request and the user behind each event: the correlation id is the one in the
response, a user named in `X-User-ID` cannot act for anybody else, and only
moderators of a room cause the events of moderators (`requests_audited`).
-/

namespace WaveCast

open Interaction Gateway

abbrev ApiPool := Pool effects Api.Request Env Empty Api.Response World
abbrev ApiEntry := Entry effects Api.Request Env
abbrev ApiMove := Move Api.Request Env

namespace Api

/-- What a request without a command stands for. -/
def idle : Command := .getRoom ""

/-! ## Who sends a command -/

theorem decodeJSON_ok {α : Type} [Inhabited α] {r : Request} {body : Body α} {f : α → Command}
    {c : Command} (h : (r.decodeJSON body).map f = .ok c) : ∃ req, c = f req := by
  cases body with
  | empty => exact ⟨default, (Except.ok.inj h).symm⟩
  | invalid message => cases h
  | decoded req => exact ⟨req, (Except.ok.inj h).symm⟩

/-- The user named in the header, whatever the fallback. -/
theorem Request.userID_header {r : Request} (h : trimSpace r.userIDHeader ≠ "")
    (fallback : String) : r.userID fallback = trimSpace r.userIDHeader := by
  rw [Request.userID, Router.userID, if_pos h]

/-- What the API puts into a command that can log an event. -/
structure Identifies (r : Request) (c : Command) : Prop where
  correlation : c.correlationID = r.correlationID
  /-- Only the owner of a new room may be somebody else than the user of the header. -/
  actor : (∀ cmd, c ≠ .createRoom cmd) → ∃ fallback, c.actor = r.userID fallback

/-- **Every handler** identifies its request. -/
theorem handler_identifies {r : Request} {c : Command} (h : r.handler.command = .ok c) :
    c.Silent ∨ Identifies r c := by
  have decoded : ∀ {α : Type} [Inhabited α] {body : Body α} {f : α → Command},
      (r.decodeJSON body).map f = .ok c → (∀ req, (f req).Silent ∨ Identifies r (f req)) →
      c.Silent ∨ Identifies r c := by
    intro α _ body f hc hf
    obtain ⟨req, rfl⟩ := decodeJSON_ok hc
    exact hf req
  have identified : ∀ {cmd : Command}, cmd.correlationID = r.correlationID →
      (∃ fallback, cmd.actor = r.userID fallback) → cmd.Silent ∨ Identifies r cmd :=
    fun hcorr hactor => .inr ⟨hcorr, fun _ => hactor⟩
  rw [Request.handler] at h
  cases hr : r.endpoint with
  | health | ready | notImplementedEvent | acceptedWebhook =>
    simp only [hr] at h
    cases h
  | getRoom | activeCounts | refreshPlaybackURL | listenerStream | listRecordings | getReport
  | recordingPlaybackURL | realtimeToken =>
    simp only [hr] at h
    cases h
    simp only [Command.Silent, true_or]
  | subscriptionToken body =>
    simp only [hr, subscriptionToken, pass] at h
    exact decoded h fun req => by simp only [Command.Silent, true_or]
  | createRoom body =>
    simp only [hr, createRoom, pass] at h
    refine decoded h fun req => .inr ⟨?_, fun hno => absurd rfl (hno _)⟩
    simp only [Command.correlationID, Router.createRoomCommand]
  | joinRoom | leaveRoom | listenerHeartbeat | leaveListener | requestToSpeak
  | createSpeakerSession =>
    simp only [hr, joinRoom, leaveRoom, listenerHeartbeat, leaveListener, requestToSpeak,
      createSpeakerSession, pass] at h
    refine decoded h fun req => identified ?_ ⟨req.userID, ?_⟩
    · simp only [Command.correlationID]
    · simp only [Command.actor]
  | startRoom | finishRoom | approveSpeakerRequest | declineSpeakerRequest | revokeSpeaker
  | blockSpeaking | unblockSpeaking | removeParticipant | startRecording | stopRecording
  | generateReport =>
    simp only [hr, startRoom, finishRoom, approveSpeakerRequest, declineSpeakerRequest,
      decideSpeakerRequest, revokeSpeaker, blockSpeaking, unblockSpeaking, removeParticipant,
      startRecording, stopRecording, generateReport, pass, accept] at h
    refine decoded h fun req => identified ?_ ⟨req.actorUserID, ?_⟩
    · simp only [Command.correlationID]
    · simp only [Command.actor]

/-! ## Runs -/

/-- A request has stored `created` as a new room. -/
def CreatedBy (t : List ApiEntry) (roomID : String) (created : Room) : Prop :=
  ∃ e ∈ t, ∃ c, gateway.command e.cmd = .ok (.createRoom c) ∧
    e.exchange = ⟨.store (.saveRoom created), .ok ()⟩ ∧ created.id = roomID ∧
    created.ownerID = c.ownerID ∧ created.adminIDs = uniqueStrings c.adminIDs ∧
    created.moderatorIDs = uniqueStrings c.moderatorIDs

variable {s : Service} {I : Infra} {ms : List ApiMove} {q : ApiPool}

theorem created_by {t : List ApiEntry} {t' : List VoiceEntry}
    (ht : List.Forall₂ gateway.Passes t t') {roomID : String} {created : Room}
    (h : CreatedAs t' roomID created) : CreatedBy t roomID created := by
  obtain ⟨e, he, c, hcmd, hx, hrest⟩ := h
  obtain ⟨e', he', hpass⟩ := passes_mem ht he
  cases hpass with
  | mk i hc env x =>
    obtain rfl := hcmd
    exact ⟨_, he', c, hc, hx, hrest⟩

/-- Who stands behind an event of a moderator is a moderator. -/
theorem moderator_of_vouched {t : List VoiceEntry} {event : VoiceEvent} (h : Vouched t event)
    (htype : event.eventType ∈ moderatorEvents) :
    ∃ created, CreatedAs t event.roomID created ∧ created.Moderates event.actorUserID := by
  cases h with
  | moderator created _ hroom hactor => exact ⟨created, hroom, hactor⟩
  | owner room hother => exact absurd htype (by rw [hother]; decide)
  | listener session hother =>
    have hdisjoint : ∀ x ∈ listenerEvents, x ∉ moderatorEvents := by decide
    exact absurd htype (hdisjoint _ hother)
  | requester request hother => exact absurd htype (by rw [hother]; decide)
  | timeout hother => exact absurd htype (by rw [hother]; decide)

/-- **The API logs who did what.** In every interleaving, whatever fails, each
event of the log was appended for a request: under the correlation id that the
response carries; for the user of `X-User-ID` if there is one, except that
anybody may be made the owner of a new room; and for a moderator of the room,
if it is an event of moderators. -/
theorem requests_audited (s : Service) (I : Infra) (ms : List ApiMove) (q : ApiPool)
    (h : (s.api I).run ms = some q) :
    ∀ event ∈ q.state.store.events, ∃ newer e older, q.trace = newer ++ e :: older ∧
      e.exchange = ⟨.store (.appendEvent event), .ok ()⟩ ∧
      event.correlationID = e.cmd.correlationID ∧
      (trimSpace e.cmd.userIDHeader ≠ "" → event.eventType ≠ eventRoomCreated →
        event.actorUserID = trimSpace e.cmd.userIDHeader) ∧
      (event.eventType ∈ moderatorEvents → ∃ created,
        CreatedBy older event.roomID created ∧ created.Moderates event.actorUserID) := by
  intro event hevent
  obtain ⟨p, hp, hfronts⟩ := behind_run idle h
  rw [← hfronts.state] at hevent
  obtain ⟨newer, e, older, ht, hx, hauthentic⟩ := logged_authentic hp hevent
  have htrace := hfronts.trace
  rw [ht] at htrace
  obtain ⟨newer', e', older', ht', -, hpass, holder⟩ := passes_split htrace
  cases hpass with
  | mk i hcmd env x =>
    rename_i r c
    obtain hsilent | hid := handler_identifies hcmd
    · exact absurd hsilent hauthentic.spoken
    refine ⟨newer', _, older', ht', hx, hauthentic.correlation.trans hid.correlation, ?_, ?_⟩
    · intro huser hother
      obtain ⟨fallback, hactor⟩ := hid.actor fun cmd hc => hother (hauthentic.creation cmd hc)
      rw [hauthentic.actor, hactor, Request.userID_header huser]
    · intro htype
      obtain ⟨created, hcreated, hm⟩ := moderator_of_vouched hauthentic.vouched htype
      exact ⟨created, created_by holder hcreated, hm⟩

/-- A request of the user named in the header. -/
def requestOf (user requestID : String) (endpoint : Endpoint) : Request :=
  ⟨requestID, user, sampleUlid 99, endpoint⟩

/-- The moves of requests that are served one after the other, from thread `i` on. -/
def requestMoves (i : ℕ) : List (Request × List Env) → List ApiMove
  | [] => []
  | (r, envs) :: jobs => .start r :: envs.map (.call i) ++ requestMoves (i + 1) jobs

/-- A user creates a room and starts it, with somebody else's name in the body. -/
def openedRoom : List (Request × List Env) :=
  [(requestOf "owner" "first" (.createRoom (.decoded ⟨"title", "", [], ["moderator"]⟩)),
      plain 1 ++ drawing 0 ++ drawing 1 ++ plain 1 ++ publishing 2),
   (requestOf " owner" "second" (.startRoom sampleRoom (.decoded ⟨"moderator", ""⟩)),
      plain 3 ++ publishing 3)]

theorem requests_audited_start :
    ∃ q, (sampleService.api (sampleInfra fun _ => false)).run (requestMoves 0 openedRoom) = some q ∧
      ∃ event ∈ q.state.store.events, event.eventType = eventRoomStarted ∧
        (∃ e ∈ q.trace, event.correlationID = e.cmd.correlationID) ∧
        ∃ created : Room, created.Moderates event.actorUserID := by
  have hrun : ((sampleService.api (sampleInfra fun _ => false)).run
      (requestMoves 0 openedRoom)).any (fun q => q.state.store.events.any fun event =>
        event.eventType = eventRoomStarted) = true := by decide +kernel
  obtain ⟨q, hq, hlogged⟩ := (Option.any_eq_true _ _).mp hrun
  obtain ⟨event, hevent, htype⟩ := List.any_eq_true.mp hlogged
  have htype : event.eventType = eventRoomStarted := of_decide_eq_true htype
  obtain ⟨newer, e, older, ht, -, hcorr, -, hmoderator⟩ :=
    requests_audited _ _ _ q hq event hevent
  obtain ⟨created, -, hm⟩ := hmoderator (by rw [htype]; decide)
  exact ⟨q, hq, event, hevent, htype, ⟨e, by simp [ht], hcorr⟩, created, hm⟩

end Api

end WaveCast
