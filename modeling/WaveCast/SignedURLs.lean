import WaveCast.AuditLog
import WaveCast.Recordings

/-!
# Authority of playback URLs

A playback URL is only signed for a user who moderates the room by the lists
fixed at its creation, and only for the object that this room is recorded to,
after a moderator of the room has started the recording
(`urls_on_authority`). The objects of two rooms differ, so moderators of one
room get no URL for the recordings of another.
-/

namespace WaveCast

open Interaction

/-- The object a room is recorded to. -/
def Service.roomObject (s : Service) (roomID : String) : StorageObject :=
  { provider := "s3", bucket := s.cfg.s3Bucket, region := s.cfg.s3Region
    key := s.objectKey roomID, mimeType := "video/mp4", sizeBytes := 0 }

/-- A moderator of the room as it was created stored the recording as started. -/
def RecordedBy (created : Room) (t : List VoiceEntry) (recordingID roomID : String) : Prop :=
  ∃ e ∈ t, ∃ c recording, e.cmd = .startRecording c ∧ c.roomID = roomID ∧
    created.Moderates c.actorUserID ∧
    e.exchange = ⟨.store (.saveRecording recording), .ok ()⟩ ∧ recording.id = recordingID ∧
    recording.roomID = roomID ∧ recording.status = .started

theorem RecordedBy.cons {created : Room} {t : List VoiceEntry} {recordingID roomID : String}
    (e : VoiceEntry) (h : RecordedBy created t recordingID roomID) :
    RecordedBy created (e :: t) recordingID roomID := by
  obtain ⟨f, hf, h⟩ := h
  exact ⟨f, by simp [hf], h⟩

/-- What a stored recording has kept of its start. -/
structure RecordingOrigin (s : Service) (t : List VoiceEntry) (recording : RoomRecording)
    (created : Room) : Prop where
  storage : recording.storage = s.roomObject recording.roomID
  creation : CreatedAs t recording.roomID created
  recorded : RecordedBy created t recording.id recording.roomID

theorem RecordingOrigin.cons {s : Service} {t : List VoiceEntry} {recording : RoomRecording}
    {created : Room} (e : VoiceEntry) (h : RecordingOrigin s t recording created) :
    RecordingOrigin s (e :: t) recording created :=
  ⟨h.storage, h.creation.cons e, h.recorded.cons e⟩

theorem RecordingStep.origin {s : Service} {t : List VoiceEntry} {cmd : Command}
    {recording₀ recording : RoomRecording} {created : Room}
    (h : RecordingStep s recording₀ recording cmd)
    (h₀ : RecordingOrigin s t recording₀ created) : RecordingOrigin s t recording created := by
  cases cmd with
  | stopRecording c =>
    obtain ⟨-, -, t', rfl⟩ := h
    exact ⟨h₀.storage, h₀.creation, h₀.recorded⟩
  | _ => exact h.elim

section Run

variable {s : Service} {I : Infra} {ms : List VoiceMove} {p : VoicePool}

/-- The command that saves a recording has found its actor among the moderators. -/
theorem recording_saver (h : (s.system I).run ms = some p) {newer older : List VoiceEntry}
    {e : VoiceEntry} (ht : p.trace = newer ++ e :: older) {recording : RoomRecording}
    (hx : e.exchange = ⟨.store (.saveRecording recording), .ok ()⟩) :
    ∃ roomID actorUserID created, moderation e.cmd = some (roomID, actorUserID) ∧
      CreatedAs older recording.roomID created ∧ created.Moderates actorUserID := by
  have hsplit : p.trace = (newer ++ [e]) ++ older := by simp [ht]
  obtain ⟨n, q, hq, rfl⟩ := System.run_prefix h hsplit
  have hattests := run_attests h
  rw [ht] at hattests
  have hat := hattests.at
  rw [hx] at hat
  obtain ⟨roomID, actorUserID, hmod, hc⟩ := hat
  obtain ⟨created, hcreated, hm⟩ := hc.moderates hq
  exact ⟨roomID, actorUserID, created, hmod, hcreated, hm⟩

theorem recording_origin (h : (s.system I).run ms = some p) {k : String}
    {recording : RoomRecording} (hs : WasStored recordingSaves p.trace k recording) :
    ∃ created, RecordingOrigin s p.trace recording created := by
  refine wasStored_induction (I := fun t _ recording =>
    ∃ created, RecordingOrigin s t recording created) ?_ ?_ hs
  · rintro e older - recording ⟨created, ho⟩
    exact ⟨created, ho.cons e⟩
  · rw [always_iff]
    intro newer e older ht k recording hw past
    have hevolve := recordings_evolve h
    rw [ht] at hevolve
    obtain ⟨hx, -⟩ := savedRecording_eq_some.mp hw
    rcases hevolve.at k recording hw with ⟨-, c, t, room, hcmd, hroom, hnew⟩ |
      ⟨recording₀, h₀, hstep⟩
    · obtain ⟨roomID, actorUserID, created, hmod, hcreated, hm⟩ := recording_saver h ht hx
      rw [hcmd] at hmod
      cases hmod
      have hroomID : recording.roomID = c.roomID := by rw [hnew]; exact hroom
      refine ⟨created, ?_, hcreated.cons e, e, by simp, c, recording, hcmd, hroomID.symm, hm, hx,
        rfl, rfl, ?_⟩
      · rw [hnew]
        rfl
      · rw [hnew]
        rfl
    · obtain ⟨created, ho⟩ := past k recording₀ h₀
      exact ⟨created, hstep.origin (ho.cons e)⟩

end Run

/-- **Playback URLs are only signed on authority.** Whatever the interleaving
and whatever fails, the signer is only asked by a `RecordingPlaybackURL` whose
actor moderates the room as it was created, for the object of this room and of
no other, once a moderator of the room has recorded it. -/
theorem urls_on_authority (s : Service) (I : Infra) (ms : List VoiceMove) (p : VoicePool)
    (h : (s.system I).run ms = some p) :
    Always (fun older e => ∀ object ttl, e.exchange.call = .playbackURL object ttl →
      ∃ roomID recordingID actorUserID created,
        e.cmd = .recordingPlaybackURL roomID recordingID actorUserID ∧
        CreatedAs older roomID created ∧ created.Moderates actorUserID ∧
        object = s.roomObject roomID ∧ ttl = s.cfg.s3PresignedURLTTL ∧
        (∀ roomID', object.key = s.objectKey roomID' → roomID' = roomID) ∧
        RecordedBy created older recordingID roomID) p.trace := by
  rw [always_iff]
  intro newer e older ht object ttl hcall
  have hsplit : p.trace = (newer ++ [e]) ++ older := by simp [ht]
  obtain ⟨n, q, hq, rfl⟩ := System.run_prefix h hsplit
  have hattests := run_attests h
  rw [ht] at hattests
  have hsigns := hattests.at
  rw [hcall] at hsigns
  cases hcmd : e.cmd with
  | recordingPlaybackURL roomID recordingID actorUserID =>
    rw [hcmd] at hsigns
    obtain ⟨recording, hc, hread, rfl, rfl⟩ := hsigns
    have hrep := System.run_replays hq
    obtain ⟨hstored, hid⟩ := recording_was_stored hrep hread
    obtain ⟨created, ho⟩ := recording_origin hq hstored
    obtain ⟨created', hcreated', hm⟩ := hc.moderates hq
    obtain rfl := createdAs_unique hq ho.creation hcreated'
    -- the room that was checked is the one of the recording
    obtain ⟨room, hroom, -, hroomID⟩ := hc
    have hroomID : recording.roomID = roomID := hroomID.symm.trans (room_read_id hrep hroom)
    rw [← hid, ← hroomID]
    refine ⟨_, _, actorUserID, created, rfl, ho.creation, hm, ho.storage, rfl, ?_, ho.recorded⟩
    intro roomID' hkey
    rw [ho.storage] at hkey
    exact (objectKey_injective s hkey).symm
  | _ =>
    rw [hcmd] at hsigns
    exact hsigns.elim

/-- A service that signs playback URLs. -/
def signingService : Service := { sampleService with hasSigner := true }

/-- The moderator records the room and asks for the URL of the recording. -/
def recordedRoom : List (Command × List Env) :=
  [(.startRecording ⟨sampleRoom, "moderator", ""⟩,
      plain 2 ++ drawing 4 ++ plain 2 ++ publishing 5),
   (.recordingPlaybackURL sampleRoom (newID prefixRecording (sampleUlid 4)) "moderator", plain 3)]

theorem urls_on_authority_moderator :
    ∃ p, (signingService.system (sampleInfra fun _ => false)).run
        (movesFrom 0 (openRoom ++ recordedRoom)) = some p ∧
      (∃ e ∈ p.trace, ∃ object ttl, e.exchange.call = .playbackURL object ttl) ∧
      Always (fun older e => ∀ object ttl, e.exchange.call = .playbackURL object ttl →
        ∃ roomID recordingID actorUserID created,
          e.cmd = .recordingPlaybackURL roomID recordingID actorUserID ∧
          CreatedAs older roomID created ∧ created.Moderates actorUserID ∧
          object = signingService.roomObject roomID ∧ ttl = 900 * second ∧
          (∀ roomID', object.key = signingService.objectKey roomID' → roomID' = roomID) ∧
          RecordedBy created older recordingID roomID) p.trace := by
  have hrun : ((signingService.system (sampleInfra fun _ => false)).run
      (movesFrom 0 (openRoom ++ recordedRoom))).any (fun p => p.trace.any fun e =>
        e.exchange.call = .playbackURL (signingService.roomObject sampleRoom) (900 * second)) =
      true := by
    decide +kernel
  obtain ⟨p, hp, he⟩ := (Option.any_eq_true _ _).mp hrun
  obtain ⟨e, hmem, hcall⟩ := List.any_eq_true.mp he
  exact ⟨p, hp, ⟨e, hmem, _, _, of_decide_eq_true hcall⟩, urls_on_authority _ _ _ p hp⟩

end WaveCast
