import WaveCast.Records

/-!
# Authority of speaker tokens

A LiveKit token is only issued on authority: the user moderates the room by
the lists fixed at its creation, or a moderator of the room approved a request
that exactly this user made for exactly this room. This holds of every
interleaving, whatever fails (`tokens_on_authority`).

* `room_identity`: no command changes the name or the lists of a room;
* `request_origin`: an approved request was made by its user and approved by a
  moderator of its room.
-/

namespace WaveCast

open Interaction

/-- `created` is the room that `CreateRoom` stored under `roomID`. -/
def CreatedAs (t : List VoiceEntry) (roomID : String) (created : Room) : Prop :=
  ∃ e ∈ t, ∃ c, e.cmd = .createRoom c ∧
    e.exchange = ⟨.store (.saveRoom created), .ok ()⟩ ∧ created.id = roomID ∧
    created.ownerID = c.ownerID ∧ created.adminIDs = uniqueStrings c.adminIDs ∧
    created.moderatorIDs = uniqueStrings c.moderatorIDs

/-- `StartRoom` stored the room as live. -/
def StartedLive (t : List VoiceEntry) (roomID : String) : Prop :=
  ∃ e ∈ t, ∃ c room, e.cmd = .startRoom c ∧ c.roomID = roomID ∧
    e.exchange = ⟨.store (.saveRoom room), .ok ()⟩ ∧ room.id = roomID ∧ room.status = .live

/-- `RequestToSpeak` stored a request of the user under `requestID`. -/
def RequestedBy (t : List VoiceEntry) (requestID roomID userID : String) : Prop :=
  ∃ e ∈ t, ∃ c request, e.cmd = .requestToSpeak c ∧ c.roomID = roomID ∧ c.userID = userID ∧
    e.exchange = ⟨.store (.saveSpeakerRequest request), .ok ()⟩ ∧ request.id = requestID ∧
    request.roomID = roomID ∧ request.userID = userID

/-- A moderator of the room as it was created stored the user's request as
approved, after the user had made it. -/
def ApprovedBy (created : Room) (t : List VoiceEntry) (roomID userID : String) : Prop :=
  ∃ newer e older c request, t = newer ++ e :: older ∧ e.cmd = .approveSpeakerRequest c ∧
    created.Moderates c.actorUserID ∧
    e.exchange = ⟨.store (.saveSpeakerRequest request), .ok ()⟩ ∧
    request.roomID = roomID ∧ request.userID = userID ∧ request.status = .approved ∧
    RequestedBy older request.id roomID userID

theorem CreatedAs.cons {t : List VoiceEntry} {roomID : String} {created : Room} (e : VoiceEntry)
    (h : CreatedAs t roomID created) : CreatedAs (e :: t) roomID created := by
  obtain ⟨f, hf, h⟩ := h
  exact ⟨f, by simp [hf], h⟩

theorem StartedLive.cons {t : List VoiceEntry} {roomID : String} (e : VoiceEntry)
    (h : StartedLive t roomID) : StartedLive (e :: t) roomID := by
  obtain ⟨f, hf, h⟩ := h
  exact ⟨f, by simp [hf], h⟩

theorem RequestedBy.cons {t : List VoiceEntry} {requestID roomID userID : String} (e : VoiceEntry)
    (h : RequestedBy t requestID roomID userID) : RequestedBy (e :: t) requestID roomID userID := by
  obtain ⟨f, hf, h⟩ := h
  exact ⟨f, by simp [hf], h⟩

theorem ApprovedBy.cons {created : Room} {t : List VoiceEntry} {roomID userID : String}
    (e : VoiceEntry) (h : ApprovedBy created t roomID userID) :
    ApprovedBy created (e :: t) roomID userID := by
  obtain ⟨newer, f, older, c, request, rfl, h⟩ := h
  exact ⟨e :: newer, f, older, c, request, rfl, h⟩

theorem was_stored_room_id {t : List VoiceEntry} {k : String} {room : Room}
    (h : WasStored roomSaves t k room) : room.id = k := by
  obtain ⟨_, _, -, hl⟩ := h
  exact stored_room_id hl

theorem decision_approved {cmd : Command} {c : DecideSpeakerRequestCommand}
    (h : decision cmd = some (c, .approved)) : cmd = .approveSpeakerRequest c := by
  cases cmd with
  | approveSpeakerRequest c' => cases h; rfl
  | _ => cases h

variable {s : Service} {I : Infra} {ms : List VoiceMove} {p : VoicePool}

/-! ## Rooms keep their identity -/

/-- What a stored room has kept of its creation. -/
structure KeepsIdentity (t : List VoiceEntry) (k : String) (room created : Room) : Prop where
  creation : CreatedAs t k created
  liveKitRoomName : room.liveKitRoomName = created.liveKitRoomName
  ownerID : room.ownerID = created.ownerID
  adminIDs : room.adminIDs = created.adminIDs
  moderatorIDs : room.moderatorIDs = created.moderatorIDs

theorem KeepsIdentity.moderates {t : List VoiceEntry} {k : String} {room created : Room}
    (h : KeepsIdentity t k room created) (userID : String) :
    room.Moderates userID ↔ created.Moderates userID := by
  simp only [Room.Moderates, h.ownerID, h.adminIDs, h.moderatorIDs]

theorem KeepsIdentity.cons {t : List VoiceEntry} {k : String} {room created : Room}
    (e : VoiceEntry) (h : KeepsIdentity t k room created) :
    KeepsIdentity (e :: t) k room created :=
  { h with creation := h.creation.cons e }

/-- No change of a room touches its name or its lists. -/
theorem RoomChange.keepsIdentity {t : List VoiceEntry} {k : String} {room₀ room created : Room}
    {cmd : Command} (h : RoomChange room₀ room cmd) (h₀ : KeepsIdentity t k room₀ created) :
    KeepsIdentity t k room created := by
  rw [h.frame] at h₀
  exact ⟨h₀.creation, h₀.liveKitRoomName, h₀.ownerID, h₀.adminIDs, h₀.moderatorIDs⟩

/-- A room that a change leaves live was live before, or has just been started. -/
theorem RoomChange.live {room₀ room : Room} {cmd : Command} (h : RoomChange room₀ room cmd)
    (hlive : room.status = .live) :
    room₀.status = .live ∨ ∃ c, cmd = .startRoom c ∧ c.roomID = room.id := by
  cases cmd with
  | startRoom c => exact .inr ⟨c, rfl, by rw [h.id_eq, h.1]⟩
  | finishRoom c => obtain ⟨-, -, -, t, rfl⟩ := h; cases hlive
  | startRecording c => obtain ⟨-, -, -, t, id, rfl⟩ := h; exact .inl hlive
  | stopRecording c => obtain ⟨-, -, t, rfl⟩ := h; exact .inl hlive
  | _ => cases h

theorem room_identity (h : (s.system I).run ms = some p) {k : String} {room : Room}
    (hs : WasStored roomSaves p.trace k room) :
    (∃ created, KeepsIdentity p.trace k room created) ∧
      (room.status = .live → StartedLive p.trace k) := by
  refine wasStored_induction (I := fun t k room => (∃ created, KeepsIdentity t k room created) ∧
    (room.status = .live → StartedLive t k)) ?_ ?_ hs
  · rintro e older k room ⟨⟨created, hc⟩, hl⟩
    exact ⟨⟨created, hc.cons e⟩, fun hlive => (hl hlive).cons e⟩
  · refine (room_saved h).mono fun older e hsaved k room hw past => ?_
    obtain ⟨hx, hk⟩ := savedRoom_eq_some.mp hw
    rcases hsaved k room hw with ⟨c, t, streamID, hcmd, -, rfl, -⟩ |
      ⟨mid, r, rest, room₀, rfl, -, -, hl, hch, -⟩
    · refine ⟨⟨_, ⟨⟨e, by simp, c, hcmd, hx, rfl, rfl, rfl, rfl⟩, rfl, rfl, rfl, rfl⟩⟩, ?_⟩
      intro hlive
      cases hlive
    · obtain ⟨⟨created, hc⟩, hlive₀⟩ := past k room₀
        ⟨mid ++ [r], rest, List.append_cons mid r rest, hl⟩
      refine ⟨⟨created, hch.keepsIdentity (hc.cons e)⟩, fun hlive => ?_⟩
      rcases hch.live hlive with h₀ | ⟨c, hcmd, hc⟩
      · exact (hlive₀ h₀).cons e
      · exact ⟨e, by simp, c, room, hcmd, hc.trans hk.symm, hx, hk.symm, hlive⟩

private theorem creation_unique {t : List VoiceEntry} {k : String}
    (h : Always (fun older e => ∀ k room c, e.cmd = .createRoom c →
      roomSaves e = some (k, room) → lastWrite roomSaves k older = none) t) {e e' : VoiceEntry}
    {c c' : CreateRoomCommand} {room room' : Room} (he : e ∈ t) (he' : e' ∈ t)
    (hc : e.cmd = .createRoom c) (hc' : e'.cmd = .createRoom c')
    (hw : roomSaves e = some (k, room)) (hw' : roomSaves e' = some (k, room')) : e = e' := by
  induction t with
  | nil => cases he
  | cons f older ih =>
    rcases List.mem_cons.mp he with rfl | hold <;> rcases List.mem_cons.mp he' with rfl | hold'
    · rfl
    · exact absurd hw' (lastWrite_eq_none.mp (h.1 k room c hc hw) e' hold' room')
    · exact absurd hw (lastWrite_eq_none.mp (h.1 k room' c' hc' hw') e hold room)
    · exact ih h.2 hold hold'

/-- A room is created once. -/
theorem createdAs_unique (h : (s.system I).run ms = some p) {k : String} {created created' : Room}
    (hc : CreatedAs p.trace k created) (hc' : CreatedAs p.trace k created') :
    created = created' := by
  have hfirst : Always (fun older e => ∀ k room c, e.cmd = .createRoom c →
      roomSaves e = some (k, room) → lastWrite roomSaves k older = none) p.trace := by
    refine ((room_saved h).and (room_created_first h)).mono ?_
    rintro older e ⟨hsaved, hfirst⟩ k room c hcmd hw
    rcases hsaved k room hw with hcr | ⟨mid, r, rest, room₀, -, -, -, -, hch, -⟩
    · exact hfirst k room hcr
    · rw [hcmd] at hch
      cases hch
  obtain ⟨e, he, c, hcmd, hx, hid, -⟩ := hc
  obtain ⟨e', he', c', hcmd', hx', hid', -⟩ := hc'
  obtain rfl := creation_unique hfirst he he' hcmd hcmd'
    (savedRoom_eq_some.mpr ⟨hx, hid.symm⟩) (savedRoom_eq_some.mpr ⟨hx', hid'.symm⟩)
  rw [hx] at hx'
  cases hx'
  rfl

/-! ## Requests keep their owner -/

theorem request_origin (h : (s.system I).run ms = some p) {k : String} {request : SpeakerRequest}
    (hs : WasStored requestSaves p.trace k request) :
    RequestedBy p.trace k request.roomID request.userID ∧
      (request.status = .approved → ∃ created, CreatedAs p.trace request.roomID created ∧
        ApprovedBy created p.trace request.roomID request.userID) := by
  refine wasStored_induction (I := fun t k request =>
    RequestedBy t k request.roomID request.userID ∧
      (request.status = .approved → ∃ created, CreatedAs t request.roomID created ∧
        ApprovedBy created t request.roomID request.userID)) ?_ ?_ hs
  · rintro e older k request ⟨hr, ha⟩
    refine ⟨hr.cons e, fun hst => ?_⟩
    obtain ⟨created, hc, ha⟩ := ha hst
    exact ⟨created, hc.cons e, ha.cons e⟩
  · rw [always_iff]
    intro newer e older ht k request hw past
    have hsaved := request_saved h
    rw [ht] at hsaved
    obtain ⟨hx, hk⟩ := savedSpeakerRequest_eq_some.mp hw
    rcases hsaved.at k request hw with ⟨c, t, room, hcmd, hroom, -, rfl⟩ |
      ⟨c, status, t, room, request₀, hd, hroom, hm, hreq, hr, -, rfl⟩
    · refine ⟨⟨e, by simp, c, _, hcmd, (was_stored_room_id hroom).symm, rfl, hx, rfl, rfl, rfl⟩,
        fun hst => ?_⟩
      cases hst
    · obtain ⟨hr₀, -⟩ := past k request₀ hreq
      refine ⟨hr₀.cons e, fun hst => ?_⟩
      -- the room that was read then is still the room that was created
      have hsplit : p.trace = (newer ++ [e]) ++ older := by simp [ht]
      obtain ⟨n, q, hq, hqt⟩ := System.run_prefix h hsplit
      rw [← hqt] at hroom
      obtain ⟨⟨created, hid⟩, -⟩ := room_identity hq hroom
      rw [hqt] at hid
      have hroomID : (decidedRequest request₀ c status t).roomID = c.roomID :=
        hr.trans (was_stored_room_id hroom)
      rw [hroomID]
      have hcmd : e.cmd = .approveSpeakerRequest c := decision_approved (hst ▸ hd)
      refine ⟨created, hid.creation.cons e, [], e, older, c, _, rfl, hcmd,
        (hid.moderates _).mp hm, hx, hroomID, rfl, hst, ?_⟩
      rw [← hroomID]
      exact hk ▸ hr₀

/-! ## Tokens -/

/-- The grounds on which a token is issued. -/
structure OnAuthority (t : List VoiceEntry) (roomID userID : String) (input : SpeakerTokenInput)
    (created : Room) : Prop where
  creation : CreatedAs t roomID created
  unique : ∀ other, CreatedAs t roomID other → other = created
  identity : input.identity = userID
  roomName : input.roomName = created.liveKitRoomName
  started : StartedLive t roomID
  authority : created.Moderates userID ∨ ApprovedBy created t roomID userID

theorem TokenGrounds.onAuthority (h : (s.system I).run ms = some p) {i : ℕ}
    {roomID userID : String} {input : SpeakerTokenInput}
    (hg : TokenGrounds (threadHistory i p.trace) roomID userID input) :
    ∃ created, OnAuthority p.trace roomID userID input created := by
  obtain ⟨room, hr, hlive, hname, hid, hu⟩ := hg
  have hrep := System.run_replays h
  have hroom := room_was_stored (rooms_coherent hrep) hr
  obtain ⟨⟨created, hk⟩, hstarted⟩ := room_identity h hroom
  refine ⟨created, hk.creation, fun other ho => createdAs_unique h ho hk.creation, hid,
    hname.trans hk.liveKitRoomName, hstarted hlive, ?_⟩
  rcases hu with hm | ⟨request, hf⟩
  · exact .inl ((hk.moderates userID).mp hm)
  · obtain ⟨⟨k, hs⟩, hroomID, huser, hst⟩ := approved_was_stored hrep hf
    obtain ⟨-, happroved⟩ := request_origin h hs
    obtain ⟨created', hc', ha⟩ := happroved hst
    rw [hroomID, was_stored_room_id hroom] at hc' ha
    rw [huser] at ha
    obtain rfl := createdAs_unique h hk.creation hc'
    exact .inr ha

/-- **Tokens are only issued on authority.** Whatever the interleaving and
whatever fails, `IssueSpeakerToken` is only called by `JoinRoom` and
`CreateSpeakerSession`, for a user with authority over the room. -/
theorem tokens_on_authority (s : Service) (I : Infra) (ms : List VoiceMove) (p : VoicePool)
    (h : (s.system I).run ms = some p) :
    Always (fun older e => ∀ input, e.exchange.call = .issueSpeakerToken input →
      ∃ roomID userID created,
        ((∃ c, e.cmd = .joinRoom c ∧ c.roomID = roomID ∧ c.userID = userID) ∨
          ∃ c, e.cmd = .createSpeakerSession c ∧ c.roomID = roomID ∧ c.userID = userID) ∧
        OnAuthority older roomID userID input created) p.trace := by
  rw [always_iff]
  intro newer e older ht input hcall
  have hsplit : p.trace = (newer ++ [e]) ++ older := by simp [ht]
  obtain ⟨n, q, hq, rfl⟩ := System.run_prefix h hsplit
  have hasks := run_asks h
  rw [ht] at hasks
  have hissue : IssuesToken (threadHistory e.thread q.trace) input e.cmd := by
    have := hasks.at
    rwa [hcall] at this
  cases hcmd : e.cmd with
  | joinRoom c =>
    rw [hcmd] at hissue
    obtain ⟨created, ha⟩ := TokenGrounds.onAuthority hq hissue
    exact ⟨c.roomID, c.userID, created, .inl ⟨c, rfl, rfl, rfl⟩, ha⟩
  | createSpeakerSession c =>
    rw [hcmd] at hissue
    obtain ⟨created, ha⟩ := TokenGrounds.onAuthority hq hissue
    exact ⟨c.roomID, c.userID, created, .inr ⟨c, rfl, rfl, rfl⟩, ha⟩
  | _ => rw [hcmd] at hissue; cases hissue

def sampleRequest : String := newID prefixSpeakerRequest (sampleUlid 4)

/-- A listener asks to speak, is approved and gets a speaker session. -/
def promotion : List (Command × List Env) :=
  [(.requestToSpeak ⟨sampleRoom, "guest", ""⟩,
      plain 3 ++ drawing 4 ++ plain 2 ++ publishing 5),
   (.approveSpeakerRequest ⟨sampleRoom, sampleRequest, "moderator", "", ""⟩,
      plain 4 ++ publishing 6),
   (.createSpeakerSession ⟨sampleRoom, "guest", ""⟩,
      plain 1 ++ visiting [sampleRequest] ++ drawing 7 ++ plain 4)]

theorem tokens_on_authority_promotion :
    ∃ p, (sampleService.system (sampleInfra fun _ => false)).run
        (movesFrom 0 (openRoom ++ promotion)) = some p ∧
      (∃ e ∈ p.trace, ∃ input, e.exchange.call = .issueSpeakerToken input) ∧
      Always (fun older e => ∀ input, e.exchange.call = .issueSpeakerToken input →
        ∃ roomID userID created,
          ((∃ c, e.cmd = .joinRoom c ∧ c.roomID = roomID ∧ c.userID = userID) ∨
            ∃ c, e.cmd = .createSpeakerSession c ∧ c.roomID = roomID ∧ c.userID = userID) ∧
          OnAuthority older roomID userID input created) p.trace := by
  have hrun : ((sampleService.system (sampleInfra fun _ => false)).run
      (movesFrom 0 (openRoom ++ promotion))).any (fun p => p.trace.any fun e =>
        e.exchange.call = .issueSpeakerToken ⟨"lk_" ++ sampleRoom, "guest", .speaker⟩) = true := by
    decide +kernel
  obtain ⟨p, hp, he⟩ := (Option.any_eq_true _ _).mp hrun
  obtain ⟨e, hmem, hcall⟩ := List.any_eq_true.mp he
  exact ⟨p, hp, ⟨e, hmem, _, of_decide_eq_true hcall⟩, tokens_on_authority _ _ _ p hp⟩

end WaveCast
