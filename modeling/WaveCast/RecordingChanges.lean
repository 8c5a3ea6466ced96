import WaveCast.Interaction.Steps
import WaveCast.Postings

/-!
# What a command does to the recordings

`StartRecording` and `StopRecording` write twice: they save the recording and
then the room, which points to its active recording. `perform_moves` says what
a command that runs alone does to the recordings and to these
pointers, also when the second save fails.
-/

namespace WaveCast

open Interaction WaveCast.Action Program Service

/-- `Recording.ActiveRecordingID` of a room; a missing room has none. -/
def World.activeRecording (w : World) (roomID : String) : String :=
  ((w.store.rooms.lookup roomID).map (·.recording.activeRecordingID)).getD ""

/-- The store failed to save a room. -/
def RoomSaveFailed (h : List VoiceExchange) : Prop :=
  ∃ room e, ⟨.store (.saveRoom room), .error e⟩ ∈ h

/-- The recording is the only one that was saved. -/
def SavesOnly (h : List VoiceExchange) (recording : RoomRecording) : Prop :=
  ∀ recording', ⟨.store (.saveRecording recording'), .ok ()⟩ ∈ h ↔ recording' = recording

def RecordingSaved (h : List VoiceExchange) : Prop :=
  ∃ recording, ⟨.store (.saveRecording recording), .ok ()⟩ ∈ h

/-- The room points to `recordingID`, unless it could not be saved. -/
def Points (w : World) (h : List VoiceExchange) (w' : World) (roomID recordingID : String) :
    Prop :=
  (RoomSaveFailed h → w'.store.rooms = w.store.rooms) ∧
    (¬ RoomSaveFailed h → ∀ k, w'.activeRecording k =
      if k = roomID then recordingID else w.activeRecording k)

/-- What a command that ran alone from `w` to `w'` did to the recordings. -/
inductive RecordingMove (s : Service) (w : World) (h : List VoiceExchange) (w' : World) :
    Command → Prop
  | started (c : StartRecordingCommand) (room : Room) (id : String) (t : Time)
      (hroom : w.store.rooms.lookup c.roomID = some room) (hkey : room.id = c.roomID)
      (hnew : w.store.recordings.lookup id = none) (hid : id ≠ "")
      (hsaved : SavesOnly h (s.startedRecording room id t))
      (hrecordings : w'.store.recordings =
        w.store.recordings.insert id (s.startedRecording room id t))
      (hpoints : Points w h w' c.roomID id) : RecordingMove s w h w' (.startRecording c)
  | stopped (c : StopRecordingCommand) (recording : RoomRecording) (t : Time)
      (hrecording : w.store.recordings.lookup c.recordingID = some recording)
      (hroom : recording.roomID = c.roomID)
      (hsaved : SavesOnly h (s.completedRecording recording t))
      (hrecordings : w'.store.recordings =
        w.store.recordings.insert c.recordingID (s.completedRecording recording t))
      (hpoints : Points w h w' c.roomID "") : RecordingMove s w h w' (.stopRecording c)
  | other (cmd : Command) (hsaved : ¬ RecordingSaved h)
      (hrecordings : w'.store.recordings = w.store.recordings)
      (hpoints : ∀ k, w'.activeRecording k = w.activeRecording k) : RecordingMove s w h w' cmd

/-! ## Calls that save neither -/

/-- The call saves a recording or a room. -/
def Effect.Records : Effect → Prop
  | .store (.saveRecording _) => True
  | .store (.saveRoom _) => True
  | _ => False

section Quiet

variable {I : Infra} {α : Type} {w : World} {h : List VoiceExchange}

theorem saved_of_not_records {x : VoiceExchange} (hx : ¬ x.call.Records) :
    savedRecording x = none ∧ savedRoom x = none := by
  refine ⟨Option.eq_none_iff_forall_ne_some.mpr fun ⟨k, recording⟩ hs => hx ?_,
    Option.eq_none_iff_forall_ne_some.mpr fun ⟨k, room⟩ hs => hx ?_⟩
  · rw [(savedRecording_eq_some.mp hs).1]
    trivial
  · rw [(savedRoom_eq_some.mp hs).1]
    trivial

/-- What a program that saves no recording and no room ends in. -/
theorem ensures_quiet {p : Action α}
    (hp : Follows (S := effects) (fun _ e => ¬ e.Records) anyResult h p) :
    Ensures (S := effects) (World.exec I) (fun h' _ w' =>
      (∀ x : VoiceExchange, x.call.Records → (x ∈ h' ↔ x ∈ h)) ∧
      w'.store.recordings = w.store.recordings ∧ w'.store.rooms = w.store.rooms) h w p := by
  have hstate : Ensures (S := effects) (World.exec I) (fun _ _ (w' : World) =>
      w'.store.recordings = w.store.recordings ∧ w'.store.rooms = w.store.rooms) h w p := by
    refine hp.ensures_invariant (T := fun w' : World => w'.store.recordings = w.store.recordings ∧
      w'.store.rooms = w.store.rooms) (fun env e a w₁ w₂ he hx hw => ?_) ⟨rfl, rfl⟩
    obtain ⟨hrecording, hroom⟩ := saved_of_not_records (x := ⟨e, a⟩) he
    refine ⟨?_, ?_⟩
    · rw [(World.exec_other_tables hx).2.1, hrecording, Table.afterSave, hw.1]
    · rw [(World.exec_tables hx).1, hroom, Table.afterSave, hw.2]
  have hhist : Ensures (S := effects) (World.exec I)
      (fun h' r _ => h ⊆ h' ∧ anyResult h' r) h w p :=
    (hp.extends (List.Subset.refl h)).ensures w
  have hcalls : Ensures (S := effects) (World.exec I)
      (fun h' r _ => (∀ x ∈ h', x ∈ h ∨ ¬ x.call.Records) ∧ anyResult h' r) h w p :=
    (hp.exchanges fun x hx => .inl hx).ensures w
  refine ((hhist.and hcalls).and hstate).mono fun h' r w' hq => ⟨fun x hx => ?_, hq.2⟩
  exact ⟨fun hmem => (hq.1.2.1 x hmem).resolve_right (not_not.mpr hx), @hq.1.1.1 x⟩

theorem publish_quiet (eventType roomID actorUserID targetUserID correlationID : String)
    (payload : Payload) :
    Follows (S := effects) (fun _ e => ¬ e.Records) anyResult h
      (publish eventType roomID actorUserID targetUserID correlationID payload) := by
  rw [← bind_ret (publish _ _ _ _ _ _)]
  simp [publish, bind_assoc, follows_fresh, follows_now, follows_store, follows_ask,
    follows_ofExcept, Effect.Records]

/-- Both commands end by saving a recording and its room and publishing an event. -/
theorem ensures_recorded (hh : ∀ x ∈ h, ¬ x.call.Records) (recording : RoomRecording) (room : Room)
    (eventType actorUserID correlationID : String) :
    Ensures (S := effects) (World.exec I) (fun h' _ w' =>
        (¬ RecordingSaved h' ∧ w'.store.recordings = w.store.recordings ∧
          w'.store.rooms = w.store.rooms) ∨
        (SavesOnly h' recording ∧
          w'.store.recordings = w.store.recordings.insert recording.id recording ∧
          (RoomSaveFailed h' → w'.store.rooms = w.store.rooms) ∧
          (¬ RoomSaveFailed h' → w'.store.rooms = w.store.rooms.insert room.id room))) h w
      ((store (.saveRecording recording)).bind fun _ => (store (.saveRoom room)).bind fun _ =>
        (publish eventType room.id actorUserID "" correlationID (.recording recording)).bind
          fun _ => .ret (Reply.recording recording)) := by
  have hrecording : ∀ recording' a, ⟨.store (.saveRecording recording'), a⟩ ∉ h :=
    fun _ _ hx => hh _ hx trivial
  have hroom : ∀ room' a, ⟨.store (.saveRoom room'), a⟩ ∉ h := fun _ _ hx => hh _ hx trivial
  refine ensures_writeAt id (fun _ => ?_) fun _ e => .inl ⟨?_, rfl, rfl⟩
  · refine ensures_writeAt id (fun _ => ?_) fun _ e => .inr ⟨?_, rfl, fun _ => rfl, ?_⟩
    · refine (ensures_quiet (p := (publish _ _ _ _ _ _).bind fun _ => .ret _)
        (follows_bind_calls (publish_quiet _ _ _ _ _ _) fun _ _ => (follows_ret _ _).mpr
          trivial)).mono ?_
      rintro h' _ w' ⟨hsame, hrecordings, hrooms⟩
      refine .inr ⟨fun recording' => ?_, hrecordings, ?_, fun _ => hrooms⟩
      · rw [hsame ⟨.store (.saveRecording recording'), .ok ()⟩ trivial]
        simp [hrecording]
      · rintro ⟨room', e, hf⟩
        rw [hsame ⟨.store (.saveRoom room'), .error e⟩ trivial] at hf
        simp [hroom] at hf
    · intro recording'
      simp [hrecording]
    · intro hf
      exact absurd ⟨room, e, by simp⟩ hf
  · rintro ⟨recording', hx⟩
    simp [hrecording] at hx

end Quiet

/-! ## The commands -/

section Commands

variable {s : Service} {I : Infra} {w w' : World} {h : List VoiceExchange}

theorem RecordingMove.of_refused {cmd : Command} (hh : ∀ x ∈ h, ¬ x.call.Records)
    (hrecordings : w'.store.recordings = w.store.recordings)
    (hrooms : w'.store.rooms = w.store.rooms) : RecordingMove s w h w' cmd := by
  refine .other cmd (fun ⟨recording, hx⟩ => hh _ hx trivial) hrecordings fun k => ?_
  rw [World.activeRecording, hrooms]
  rfl

/-- A room that was saved with another active recording points to it. -/
theorem points_of_saved {room : Room} {recordingID : String} {t : Time}
    (hfailed : RoomSaveFailed h → w'.store.rooms = w.store.rooms)
    (hsaved : ¬ RoomSaveFailed h → w'.store.rooms =
      w.store.rooms.insert room.id (withActiveRecording room recordingID t)) :
    Points w h w' room.id recordingID := by
  refine ⟨hfailed, fun hf k => ?_⟩
  rw [World.activeRecording, hsaved hf, Table.lookup_insert_ite]
  by_cases hk : k = room.id
  · simp [hk, withActiveRecording]
  · simp [hk, World.activeRecording]

theorem startRecording_moves (hrooms : w.KeyedIn prefixRoom Room.id w.store.rooms)
    (hk : w.KeyedIn prefixRecording RoomRecording.id w.store.recordings)
    (c : StartRecordingCommand) :
    Ensures (S := effects) (World.exec I)
      (fun h _ w' => RecordingMove s w h w' (.startRecording c)) [] w
      (s.program (.startRecording c)) := by
  simp only [Service.program, startRecording, map_eq, bind_eq, pure_eq, bind_assoc, ret_bind,
    ensures_require]
  refine ⟨fun _ => ?_, fun _ => .of_refused (by simp) rfl rfl⟩
  refine ensures_readAt (c := .getRoom _) trivial (fun env room hx => ?_) fun _ =>
    .of_refused (by simp [Effect.Records]) rfl rfl
  simp only [ensures_require]
  refine ⟨fun _ => ⟨fun _ => ?_, fun _ => ?_⟩, fun _ => ?_⟩
  · have hroom := World.exec_getRoom hx
    refine ensures_nowAt fun t => ensures_freshAt fun u hu => ?_
    refine (ensures_recorded (by simp [Effect.Records]) _ _ _ _ _).mono ?_
    rintro h _ w' (⟨hnone, hrecordings, hrooms'⟩ | ⟨honly, hrecordings, hfailed, hsaved⟩)
    · exact .other _ hnone hrecordings fun k => by rw [World.activeRecording, hrooms']; rfl
    · refine .started c room _ t hroom (hrooms.ident_eq _ _ hroom) (hk.lookup_fresh hu)
        (newID_ne_empty _ u) honly hrecordings ?_
      rw [← hrooms.ident_eq _ _ hroom]
      exact points_of_saved hfailed hsaved
  · exact .of_refused (by simp [Effect.Records]) rfl rfl
  · exact .of_refused (by simp [Effect.Records]) rfl rfl

theorem stopRecording_moves (hrooms : w.KeyedIn prefixRoom Room.id w.store.rooms)
    (hk : w.KeyedIn prefixRecording RoomRecording.id w.store.recordings)
    (c : StopRecordingCommand) :
    Ensures (S := effects) (World.exec I)
      (fun h _ w' => RecordingMove s w h w' (.stopRecording c)) [] w
      (s.program (.stopRecording c)) := by
  simp only [Service.program, stopRecording, map_eq, bind_eq, pure_eq, bind_assoc, ret_bind]
  refine ensures_readAt (c := .getRoom _) trivial (fun env room hx => ?_) fun _ =>
    .of_refused (by simp [Effect.Records]) rfl rfl
  simp only [ensures_require]
  refine ⟨fun _ => ?_, fun _ => .of_refused (by simp [Effect.Records]) rfl rfl⟩
  refine ensures_readAt (c := .getRecording _) trivial (fun env recording hx' => ?_) fun _ =>
    .of_refused (by simp [Effect.Records]) rfl rfl
  simp only [ensures_require]
  refine ⟨fun hroom => ?_, fun _ => .of_refused (by simp [Effect.Records]) rfl rfl⟩
  have hid := hrooms.ident_eq _ _ (World.exec_getRoom hx)
  have hrecording := World.exec_getRecording hx'
  have hroom : recording.roomID = c.roomID := (of_decide_eq_true hroom).trans hid
  refine ensures_nowAt fun t => ?_
  refine (ensures_recorded (by simp [Effect.Records]) _ _ _ _ _).mono ?_
  rintro h _ w' (⟨hnone, hrecordings, hrooms'⟩ | ⟨honly, hrecordings, hfailed, hsaved⟩)
  · exact .other _ hnone hrecordings fun k => by rw [World.activeRecording, hrooms']; rfl
  · have hkey : recording.id = c.recordingID := hk.ident_eq _ _ hrecording
    rw [show (s.completedRecording recording t).id = recording.id from rfl, hkey] at hrecordings
    refine .stopped c recording t hrecording hroom honly hrecordings ?_
    rw [← hid]
    exact points_of_saved hfailed hsaved

theorem World.activeRecording_of_lookup {roomID : String} {room : Room}
    (hl : w.store.rooms.lookup roomID = some room) :
    w.activeRecording roomID = room.recording.activeRecordingID := by
  simp [World.activeRecording, hl]

/-- A room is saved that points where it has pointed before. -/
theorem ensures_roomSaved {w₀ : World} {room : Room} {rest : Action Reply} {cmd : Command}
    (hh : ∀ x ∈ h, ¬ x.call.Records) (hw : w.store = w₀.store)
    (hroom : room.recording.activeRecordingID = w₀.activeRecording room.id)
    (hrest : ∀ h, Follows (S := effects) (fun _ e => ¬ e.Records) anyResult h rest) :
    Ensures (S := effects) (World.exec I) (fun h' _ w' => RecordingMove s w₀ h' w' cmd) h w
      ((store (.saveRoom room)).bind fun _ => rest) := by
  refine ensures_writeAt id (fun _ => ?_) fun _ e => ?_
  · refine (ensures_quiet (hrest _)).mono ?_
    rintro h' _ w' ⟨hsame, hrecordings, hrooms⟩
    refine .other cmd (fun ⟨recording, hx⟩ => ?_) (hrecordings.trans ?_) fun k => ?_
    · rw [hsame ⟨.store (.saveRecording recording), .ok ()⟩ trivial] at hx
      rcases List.mem_cons.mp hx with heq | hx
      · cases heq
      · exact hh _ hx trivial
    · rw [← hw]
      rfl
    · rw [World.activeRecording, hrooms]
      simp only [StoreCall.apply, Table.lookup_insert_ite, hw]
      by_cases hk : k = room.id
      · simp [hk, hroom]
      · simp [hk, World.activeRecording]
  · refine .other cmd (fun ⟨recording, hx⟩ => ?_) (by rw [hw]) fun _ => by
      rw [World.activeRecording, hw]
      rfl
    rcases List.mem_cons.mp hx with heq | hx
    · cases heq
    · exact hh _ hx trivial

theorem createRoom_moves (hk : w.KeyedIn prefixRoom Room.id w.store.rooms)
    (c : CreateRoomCommand) :
    Ensures (S := effects) (World.exec I)
      (fun h _ w' => RecordingMove s w h w' (.createRoom c)) [] w
      (s.program (.createRoom c)) := by
  simp only [Service.program, createRoom, map_eq, bind_eq, pure_eq, bind_assoc, ret_bind,
    ensures_require]
  refine ⟨fun _ => ?_, fun _ => .of_refused (by simp) rfl rfl⟩
  refine ensures_nowAt fun t => ensures_freshAt fun u hu => ensures_freshAt fun u' _ => ?_
  refine ensures_roomSaved ?_ rfl ?_ fun h => ?_
  · simp [Effect.Records]
  · simp [World.activeRecording, draftRoom, hk.lookup_fresh hu]
  · exact follows_bind_calls (publish_quiet _ _ _ _ _ _) fun _ _ => (follows_ret _ _).mpr trivial

theorem startRoom_moves (hrooms : w.KeyedIn prefixRoom Room.id w.store.rooms)
    (c : StartRoomCommand) :
    Ensures (S := effects) (World.exec I)
      (fun h _ w' => RecordingMove s w h w' (.startRoom c)) [] w (s.program (.startRoom c)) := by
  simp only [Service.program, startRoom, map_eq, bind_eq, pure_eq, bind_assoc, ret_bind]
  refine ensures_readAt (c := .getRoom _) trivial (fun env room hx => ?_) fun _ =>
    .of_refused (by simp [Effect.Records]) rfl rfl
  simp only [ensures_require]
  refine ⟨fun _ => ⟨fun _ => ensures_nowAt fun t => ?_, fun _ => ?_⟩, fun _ => ?_⟩
  · have hl := World.exec_getRoom hx
    rw [← hrooms.ident_eq _ _ hl] at hl
    refine ensures_roomSaved ?_ rfl (World.activeRecording_of_lookup hl).symm fun h => ?_
    · simp [Effect.Records]
    · exact follows_bind_calls (publish_quiet _ _ _ _ _ _) fun _ _ =>
        (follows_ret _ _).mpr trivial
  · exact .of_refused (by simp [Effect.Records]) rfl rfl
  · exact .of_refused (by simp [Effect.Records]) rfl rfl

theorem enqueue_quiet (jobType idempotencyKey : String) (payload : RoomJobPayload) :
    Follows (S := effects) (fun _ e => ¬ e.Records) anyResult h
      (s.enqueueBestEffort jobType idempotencyKey payload) := by
  rw [enqueueBestEffort]
  split
  · simp [follows_ask, Effect.Records]
  · trivial

theorem finishRoom_moves (hrooms : w.KeyedIn prefixRoom Room.id w.store.rooms)
    (c : FinishRoomCommand) :
    Ensures (S := effects) (World.exec I)
      (fun h _ w' => RecordingMove s w h w' (.finishRoom c)) [] w (s.program (.finishRoom c)) := by
  simp only [Service.program, finishRoom, map_eq, bind_eq, pure_eq, bind_assoc, ret_bind]
  refine ensures_readAt (c := .getRoom _) trivial (fun env room hx => ?_) fun _ =>
    .of_refused (by simp [Effect.Records]) rfl rfl
  simp only [ensures_require]
  refine ⟨fun _ => ⟨fun _ => ensures_nowAt fun t => ?_, fun _ => ?_⟩, fun _ => ?_⟩
  · have hl := World.exec_getRoom hx
    rw [← hrooms.ident_eq _ _ hl] at hl
    refine ensures_roomSaved ?_ rfl (World.activeRecording_of_lookup hl).symm fun h => ?_
    · simp [Effect.Records]
    · refine follows_bind_calls (publish_quiet _ _ _ _ _ _) fun _ _ => ?_
      refine follows_bind_calls (enqueue_quiet _ _ _) fun _ _ => ?_
      exact follows_bind_calls (enqueue_quiet _ _ _) fun _ _ => (follows_ret _ _).mpr trivial
  · exact .of_refused (by simp [Effect.Records]) rfl rfl
  · exact .of_refused (by simp [Effect.Records]) rfl rfl

/-- The command saves a recording or a room. -/
def Command.Records : Command → Prop
  | .createRoom _ => True
  | .startRoom _ => True
  | .finishRoom _ => True
  | .startRecording _ => True
  | .stopRecording _ => True
  | _ => False

theorem program_quiet {cmd : Command} (hcmd : ¬ cmd.Records) :
    Follows (S := effects) (fun _ e => ¬ e.Records) anyResult [] (s.program cmd) := by
  refine ((program_asks s cmd).and (program_accounts s cmd)).mono ?_ fun _ _ _ => trivial
  rintro h e ⟨hasks, hacc⟩ he
  unfold Effect.Records at he
  split at he
  · have hsave : SavesRecording s h _ cmd := hacc
    cases cmd <;> first | exact hcmd trivial | cases hsave
  · have hsave : SavesRoom s h _ cmd := hasks
    cases cmd <;> first | exact hcmd trivial | cases hsave
  · exact he

theorem program_moves (hk : w.KeyedIn prefixRoom Room.id w.store.rooms)
    (hk' : w.KeyedIn prefixRecording RoomRecording.id w.store.recordings) (cmd : Command) :
    Ensures (S := effects) (World.exec I) (fun h _ w' => RecordingMove s w h w' cmd) [] w
      (s.program cmd) := by
  by_cases hcmd : cmd.Records
  · cases cmd with
    | startRecording c => simp only [startRecording_moves, hk, hk']
    | stopRecording c => simp only [stopRecording_moves, hk, hk']
    | createRoom c => simp only [createRoom_moves, hk]
    | startRoom c => simp only [startRoom_moves, hk]
    | finishRoom c => simp only [finishRoom_moves, hk]
    | _ => cases hcmd
  · refine (ensures_quiet (program_quiet hcmd)).mono ?_
    rintro h _ w' ⟨hsame, hrecordings, hrooms⟩
    refine .of_refused (fun x hx hrec => ?_) hrecordings hrooms
    exact absurd ((hsame x hrec).mp hx) (by simp)

end Commands

section Run

variable {s : Service} {I : Infra} {ms : List VoiceMove} {p q : VoicePool} {job : VoiceJob}

theorem recordings_keyed (h : (s.system I).run ms = some p) :
    p.state.KeyedIn prefixRecording RoomRecording.id p.state.store.recordings :=
  keyedIn_of_evolves savedRecording h
    (fun _ _ _ hw => (savedRecording_eq_some.mp hw).2.symm)
    (lookup_recordings (System.run_replays h)) (recordings_evolve h)

/-- **What a command that ran alone did to the recordings.** -/
theorem perform_moves (h : (s.system I).run ms = some p)
    (hq : (s.system I).perform job p = some q) (o : System.Outcome (s.system I) p job q) :
    RecordingMove s p.state o.history q.state job.1 :=
  System.perform_ensures hq o (program_moves (run_keyed h).rooms (recordings_keyed h) job.1)

theorem room_stays (h : (s.system I).run ms = some p) (hq : (s.system I).perform job p = some q)
    {k : String} (hl : p.state.store.rooms.lookup k ≠ none) :
    q.state.store.rooms.lookup k ≠ none := by
  obtain ⟨ms', hms'⟩ := System.perform_isRun h hq
  obtain ⟨o⟩ := System.exists_outcome hq
  rw [lookup_rooms (System.run_replays h)] at hl
  rw [lookup_rooms (System.run_replays hms'), o.trace_eq]
  exact lastWrite_append_ne_none hl

end Run

end WaveCast
