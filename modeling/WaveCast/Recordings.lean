import WaveCast.LostUpdates
import WaveCast.RecordingChanges

/-!
# Recordings

Three laws about the recordings of a sequential run, and the runs in which they
hold:

* a room points to its only started recording iff no command starts a second
  one, stops another one than it points to, or saves the recording without the
  room (`pointers_accurate_iff`);
* the recordings are stored as different objects iff no room is recorded twice
  (`objects_distinct_iff`);
* a completed recording stays as it is iff it is not stopped again at another
  time (`completed_fixed_iff`).
-/

namespace WaveCast

open Interaction WaveCast.Action Program Service

variable {s : Service} {I : Infra} {w w' : World} {h : List VoiceExchange} {cmd : Command}

/-- A recording of the room is stored under the id, and it is running. -/
def World.Started (w : World) (roomID recordingID : String) : Prop :=
  ∃ recording, w.store.recordings.lookup recordingID = some recording ∧
    recording.roomID = roomID ∧ recording.status = .started

/-! ## The active recording of a room -/

/-- The id of the active recording is set iff exactly one recording of the room
is running, and it is the id of that one; while it is empty none is. -/
def PointersAccurate (w : World) : Prop :=
  ∀ roomID room, w.store.rooms.lookup roomID = some room →
    (room.recording.activeRecordingID ≠ "" ↔ ∃! k, w.Started roomID k) ∧
    (room.recording.activeRecordingID ≠ "" →
      w.Started roomID room.recording.activeRecordingID) ∧
    (room.recording.activeRecordingID = "" → ∀ k, ¬ w.Started roomID k)

/-- The command starts a recording while another one is active or does not save
its room, stops the active one and does not save the room, or stops another one
and does. -/
def Missteps (w : World) (h : List VoiceExchange) : Command → Prop
  | .startRecording c => RecordingSaved h ∧
      (w.activeRecording c.roomID ≠ "" ∨ RoomSaveFailed h)
  | .stopRecording c => RecordingSaved h ∧ w.activeRecording c.roomID ≠ "" ∧
      (c.recordingID = w.activeRecording c.roomID ↔ RoomSaveFailed h)
  | _ => False

/-- Every recording belongs to a room that is stored. -/
def World.HousesRecordings (w : World) : Prop :=
  ∀ k recording, w.store.recordings.lookup k = some recording →
    w.store.rooms.lookup recording.roomID ≠ none

/-- The started recordings of every room are those it points to. -/
def World.Tracks (w : World) : Prop :=
  ∀ roomID k, w.Started roomID k ↔ k = w.activeRecording roomID ∧ k ≠ ""

theorem pointersAccurate_iff (hw : w.HousesRecordings) : PointersAccurate w ↔ w.Tracks := by
  constructor
  · intro hacc roomID k
    cases hl : w.store.rooms.lookup roomID with
    | none =>
      refine iff_of_false ?_ ?_
      · rintro ⟨recording, hk, rfl, -⟩
        exact hw k recording hk hl
      · simp [World.activeRecording, hl]
    | some room =>
      rw [World.activeRecording_of_lookup hl]
      obtain ⟨hset, hactive, hempty⟩ := hacc roomID room hl
      constructor
      · intro hk
        have hne : room.recording.activeRecordingID ≠ "" := fun he => hempty he k hk
        obtain rfl := (hset.mp hne).unique hk (hactive hne)
        exact ⟨rfl, hne⟩
      · rintro ⟨rfl, hne⟩
        exact hactive hne
  · intro htracks roomID room hl
    have hstarted := htracks roomID
    rw [World.activeRecording_of_lookup hl] at hstarted
    refine ⟨⟨fun hne => ⟨_, (hstarted _).mpr ⟨rfl, hne⟩, fun k hk => ((hstarted k).mp hk).1⟩, ?_⟩,
      fun hne => (hstarted _).mpr ⟨rfl, hne⟩, fun he k hk => ?_⟩
    · rintro ⟨k, hk, -⟩
      obtain ⟨rfl, hne⟩ := (hstarted k).mp hk
      exact hne
    · obtain ⟨rfl, hne⟩ := (hstarted k).mp hk
      exact hne he

/-- The running recordings after one recording was saved. -/
theorem started_after {key : String} {recording : RoomRecording}
    (hrecordings : w'.store.recordings = w.store.recordings.insert key recording)
    (roomID k : String) : w'.Started roomID k ↔
      if k = key then recording.roomID = roomID ∧ recording.status = .started
      else w.Started roomID k := by
  simp only [World.Started, hrecordings, Table.lookup_insert_ite]
  split <;> simp

theorem World.Tracks.started_of_active (hw : w.Tracks) {roomID : String}
    (hne : w.activeRecording roomID ≠ "") : w.Started roomID (w.activeRecording roomID) :=
  (hw roomID _).mpr ⟨rfl, hne⟩

theorem World.activeRecording_eq (h : w'.store.rooms = w.store.rooms) (roomID : String) :
    w'.activeRecording roomID = w.activeRecording roomID := by
  simp only [World.activeRecording, h]

theorem tracks_started {c : StartRecordingCommand} {room : Room} {id : String} {t : Time}
    (hkey : room.id = c.roomID) (hnew : w.store.recordings.lookup id = none) (hid : id ≠ "")
    (hsaved : RecordingSaved h) (hrecordings : w'.store.recordings =
      w.store.recordings.insert id (s.startedRecording room id t))
    (hpoints : Points w h w' c.roomID id) (hw : w.Tracks) :
    w'.Tracks ↔ ¬ Missteps w h (.startRecording c) := by
  have hstarted := started_after hrecordings
  have hfresh : ∀ roomID, ¬ w.Started roomID id := by
    rintro roomID ⟨recording, hl, -⟩
    cases hnew.symm.trans hl
  have hthis : w'.Started c.roomID id := by
    rw [hstarted, if_pos rfl]
    exact ⟨hkey, rfl⟩
  constructor
  · rintro hw' ⟨-, hactive⟩
    have hid' := ((hw' c.roomID id).mp hthis).1
    by_cases hne : w.activeRecording c.roomID = ""
    · have hf := hactive.resolve_left (not_not.mpr hne)
      exact hid (hid'.trans ((World.activeRecording_eq (hpoints.1 hf) _).trans hne))
    · -- the recording that was active before is still running beside the new one
      have hold := hw.started_of_active hne
      have hother : w.activeRecording c.roomID ≠ id := fun he => hfresh c.roomID (he ▸ hold)
      have hold' : w'.Started c.roomID (w.activeRecording c.roomID) := by
        rwa [hstarted, if_neg hother]
      exact hother (((hw' c.roomID _).mp hold').1.trans hid'.symm)
  · intro hok roomID k
    obtain ⟨hempty, hf⟩ : w.activeRecording c.roomID = "" ∧ ¬ RoomSaveFailed h := by
      simpa [Missteps, hsaved] using hok
    rw [hstarted, hpoints.2 hf]
    by_cases hk : k = id
    · subst hk
      by_cases hroom : roomID = c.roomID
      · simp [startedRecording, hkey, hroom, hid]
      · have hne : k ≠ w.activeRecording roomID := fun he =>
          hfresh roomID ((hw roomID k).mpr ⟨he, hid⟩)
        simp [startedRecording, hkey, hroom, hne, Ne.symm hroom]
    · rw [if_neg hk, hw roomID k]
      by_cases hroom : roomID = c.roomID
      · rw [if_pos hroom, hroom, hempty]
        simp [hk]
      · rw [if_neg hroom]

theorem tracks_stopped {c : StopRecordingCommand} {recording : RoomRecording} {t : Time}
    (hrecording : w.store.recordings.lookup c.recordingID = some recording)
    (hroom : recording.roomID = c.roomID) (hsaved : RecordingSaved h)
    (hrecordings : w'.store.recordings =
      w.store.recordings.insert c.recordingID (s.completedRecording recording t))
    (hpoints : Points w h w' c.roomID "") (hw : w.Tracks) :
    w'.Tracks ↔ ¬ Missteps w h (.stopRecording c) := by
  have hstarted : ∀ roomID k, w'.Started roomID k ↔ k ≠ c.recordingID ∧ w.Started roomID k := by
    intro roomID k
    rw [started_after hrecordings]
    split <;> simp [completedRecording, *]
  have hroom' : ∀ roomID, w.Started roomID c.recordingID → roomID = c.roomID := by
    rintro roomID ⟨recording', hl, rfl, -⟩
    cases hrecording.symm.trans hl
    exact hroom
  constructor
  · rintro hw' ⟨-, hne, hiff⟩
    have hold := hw.started_of_active hne
    by_cases hf : RoomSaveFailed h
    · have hactive := (World.activeRecording_eq (hpoints.1 hf) c.roomID).symm
      have hnow := (hw' c.roomID _).mpr ⟨hactive, hne⟩
      exact ((hstarted _ _).mp hnow).1 (hiff.mpr hf).symm
    · have hother : w.activeRecording c.roomID ≠ c.recordingID := fun he => hf (hiff.mp he.symm)
      have hnow := ((hw' c.roomID _).mp ((hstarted _ _).mpr ⟨hother, hold⟩)).1
      rw [hpoints.2 hf, if_pos rfl] at hnow
      exact hne hnow
  · intro hok roomID k
    have hok : w.activeRecording c.roomID ≠ "" →
        ¬ (c.recordingID = w.activeRecording c.roomID ↔ RoomSaveFailed h) :=
      fun hne hiff => hok ⟨hsaved, hne, hiff⟩
    have hactive : w.Started roomID c.recordingID →
        c.recordingID = w.activeRecording c.roomID ∧ w.activeRecording c.roomID ≠ "" := by
      intro hk
      obtain rfl := hroom' roomID hk
      obtain ⟨he, hne⟩ := (hw c.roomID _).mp hk
      exact ⟨he, he ▸ hne⟩
    rw [hstarted]
    by_cases hf : RoomSaveFailed h
    · rw [World.activeRecording_eq (hpoints.1 hf), ← hw roomID k, and_iff_right_iff_imp]
      rintro hk rfl
      obtain ⟨he, hne⟩ := hactive hk
      exact hok hne (iff_of_true he hf)
    · rw [hpoints.2 hf]
      by_cases hr : roomID = c.roomID
      · rw [if_pos hr]
        refine iff_of_false ?_ fun hk => hk.2 hk.1
        rintro ⟨hk, hst⟩
        obtain ⟨he, hne⟩ := (hw roomID k).mp hst
        rw [hr] at he
        exact hok (he ▸ hne) (iff_of_false (fun heq => hk (he.trans heq.symm)) hf)
      · rw [if_neg hr, ← hw roomID k, and_iff_right_iff_imp]
        rintro hk rfl
        exact hr (hroom' roomID hk)

theorem RecordingMove.tracks_iff (hm : RecordingMove s w h w' cmd) (hw : w.Tracks) :
    w'.Tracks ↔ ¬ Missteps w h cmd := by
  cases hm with
  | started c room id t hroom hkey hnew hid hsaved hrecordings hpoints =>
    exact tracks_started hkey hnew hid ⟨_, (hsaved _).mpr rfl⟩ hrecordings hpoints hw
  | stopped c recording t hrecording hroom hsaved hrecordings hpoints =>
    exact tracks_stopped hrecording hroom ⟨_, (hsaved _).mpr rfl⟩ hrecordings hpoints hw
  | other cmd hsaved hrecordings hpoints =>
    refine iff_of_true (fun roomID k => ?_) fun hmis => ?_
    · rw [hpoints, ← hw roomID k, World.Started, hrecordings]
      rfl
    · cases cmd with
      | startRecording c => exact hsaved hmis.1
      | stopRecording c => exact hsaved hmis.1
      | _ => exact hmis

section Run

variable {jobs : List VoiceJob} {p q : VoicePool}

/-- What every move of the recordings keeps holds in every sequential run. -/
theorem serial_keeps {T : World → Prop} (init : T .empty)
    (step : ∀ w h w' cmd, RecordingMove s w h w' cmd →
      (∀ k, w.store.rooms.lookup k ≠ none → w'.store.rooms.lookup k ≠ none) → T w → T w')
    (hp : (s.system I).serial jobs = some p) : T p.state := by
  have hany : (s.system I).SerialOk (fun _ _ => True) jobs := fun _ _ _ _ _ _ => trivial
  refine System.serial_induction (M := s.system I) (I := fun p => T p.state) init ?_ hany hp
  intro pre p job q hpre hT _ hq
  obtain ⟨ms, hms⟩ := System.serial_isRun hpre
  obtain ⟨o⟩ := System.exists_outcome hq
  exact step _ _ _ _ (perform_moves hms hq o) (fun k hk => room_stays hms hq hk) hT

theorem lookup_empty {V : Type} {k : String} {v : V} (h : (∅ : Table V).lookup k = some v) :
    False := by
  rw [Finmap.lookup_empty] at h
  cases h

theorem serial_houses (hp : (s.system I).serial jobs = some p) : p.state.HousesRecordings := by
  refine serial_keeps (fun k recording hl => (lookup_empty hl).elim) ?_ hp
  intro w h w' cmd hm hstay hw k recording hl
  cases hm with
  | started c room id t hroom hkey hnew hid hsaved hrecordings hpoints =>
    rw [hrecordings, Table.lookup_insert_ite] at hl
    split at hl
    · cases hl
      refine hstay room.id ?_
      rw [hkey, hroom]
      simp
    · exact hstay _ (hw k recording hl)
  | stopped c recording₀ t hrecording hroom hsaved hrecordings hpoints =>
    rw [hrecordings, Table.lookup_insert_ite] at hl
    split at hl
    · cases hl
      exact hstay _ (hw _ recording₀ hrecording)
    · exact hstay _ (hw k recording hl)
  | other cmd hsaved hrecordings hpoints =>
    rw [hrecordings] at hl
    exact hstay _ (hw k recording hl)

/-- **The active recording of every room is accurate** in every state of a
sequential run iff no command starts a recording while one is active, stops
another one than the active one, or saves only one of the two records. -/
theorem pointers_accurate_iff (s : Service) (I : Infra) (jobs : List VoiceJob) :
    (s.system I).EachState PointersAccurate jobs ↔
      (s.system I).EachCommand (fun p job _ o => ¬ Missteps p.state o.history job.1) jobs := by
  refine System.eachState_iff ?_ ?_ jobs
  · intro roomID room hl
    exact (lookup_empty hl).elim
  · intro pre p job q o hp hq hacc
    obtain ⟨ms, hms⟩ := System.serial_isRun hp
    have htracks := (pointersAccurate_iff (serial_houses hp)).mp hacc
    rw [pointersAccurate_iff (serial_houses (System.serial_concat.mpr ⟨p, hp, hq⟩))]
    exact (perform_moves hms hq o).tracks_iff htracks

end Run

/-- The owner starts to record the room, drawing `n` for the recording and `m`
for the event. -/
def ownerRecords (n m : Fin 100) : VoiceJob :=
  (.startRecording ⟨sampleRoom, "owner", ""⟩, plain 2 ++ drawing n ++ plain 2 ++ publishing m)

/-- The room is recorded twice at a time. -/
theorem pointers_accurate_fails :
    ¬ ∀ (s : Service) (I : Infra) (jobs : List VoiceJob),
      (s.system I).EachState PointersAccurate jobs := by
  intro hclaim
  have hrun : ((sampleService.system (sampleInfra fun _ => false)).serial
      (openRoom ++ [ownerRecords 4 5, ownerRecords 6 7])).any (fun p =>
        (p.state.store.rooms.lookup sampleRoom).any (·.recording.activeRecordingID ≠ "") &&
        [sampleUlid 4, sampleUlid 6].all fun u =>
          (p.state.store.recordings.lookup (newID prefixRecording u)).any fun r =>
            r.roomID = sampleRoom && r.status = .started) = true := by decide +kernel
  obtain ⟨p, hp, hfacts⟩ := (Option.any_eq_true _ _).mp hrun
  obtain ⟨hroom, hrecordings⟩ := Bool.and_eq_true_iff.mp hfacts
  obtain ⟨room, hl, hne⟩ := (Option.any_eq_true _ _).mp hroom
  have hstarted : ∀ u ∈ [sampleUlid 4, sampleUlid 6],
      p.state.Started sampleRoom (newID prefixRecording u) := by
    intro u hu
    obtain ⟨r, hr, hfacts⟩ := (Option.any_eq_true _ _).mp (List.all_eq_true.mp hrecordings u hu)
    obtain ⟨hroom, hst⟩ := Bool.and_eq_true_iff.mp hfacts
    exact ⟨r, hr, of_decide_eq_true hroom, of_decide_eq_true hst⟩
  have hacc := hclaim _ _ _ _ [] p (List.append_nil _).symm hp sampleRoom room hl
  have hone := hacc.1.mp (of_decide_eq_true hne)
  have heq := hone.unique (hstarted (sampleUlid 4) (by simp)) (hstarted (sampleUlid 6) (by simp))
  exact absurd heq (by decide)

/-! ## The storage objects -/

/-- Any two recordings are stored as different objects. -/
def ObjectsDistinct (w : World) : Prop :=
  ∀ k k' r r', w.store.recordings.lookup k = some r → w.store.recordings.lookup k' = some r' →
    k ≠ k' → (r.storage.bucket, r.storage.key) ≠ (r'.storage.bucket, r'.storage.key)

/-- The command records a room of which a recording is stored already. -/
def RecordsAgain (w : World) (h : List VoiceExchange) : Command → Prop
  | .startRecording c => RecordingSaved h ∧
      ∃ k r, w.store.recordings.lookup k = some r ∧ r.roomID = c.roomID
  | _ => False

/-- The key of the object a room is recorded to. -/
def Service.objectKey (s : Service) (roomID : String) : String :=
  trimSlash s.cfg.s3RecordingsPrefix ++ "/" ++ roomID ++ "/full.mp4"

theorem objectKey_injective (s : Service) : Function.Injective s.objectKey := by
  intro roomID roomID' h
  have ht := congrArg String.toList h
  simp only [objectKey, String.toList_append, List.append_assoc, List.append_cancel_left_eq] at ht
  exact String.toList_inj.mp (List.append_cancel_right ht)

/-- Every recording is stored under the key of its room. -/
def World.FilesObjects (s : Service) (w : World) : Prop :=
  ∀ k r, w.store.recordings.lookup k = some r →
    r.storage.bucket = s.cfg.s3Bucket ∧ r.storage.key = s.objectKey r.roomID

theorem RecordingMove.filesObjects (hm : RecordingMove s w h w' cmd) (hw : w.FilesObjects s) :
    w'.FilesObjects s := by
  intro k r hl
  cases hm with
  | started c room id t hroom hkey hnew hid hsaved hrecordings hpoints =>
    rw [hrecordings, Table.lookup_insert_ite] at hl
    split at hl
    · cases hl
      exact ⟨rfl, rfl⟩
    · exact hw k r hl
  | stopped c recording t hrecording hroom hsaved hrecordings hpoints =>
    rw [hrecordings, Table.lookup_insert_ite] at hl
    split at hl
    · cases hl
      exact hw _ recording hrecording
    · exact hw k r hl
  | other cmd hsaved hrecordings hpoints =>
    rw [hrecordings] at hl
    exact hw k r hl

/-- No two recordings belong to one room. -/
def World.RecordsOnce (w : World) : Prop :=
  ∀ k k' r r', w.store.recordings.lookup k = some r → w.store.recordings.lookup k' = some r' →
    k ≠ k' → r.roomID ≠ r'.roomID

theorem objectsDistinct_iff (hw : w.FilesObjects s) : ObjectsDistinct w ↔ w.RecordsOnce := by
  refine forall₄_congr fun k k' r r' => forall₃_congr fun hk hk' _ => not_congr ?_
  rw [Prod.mk.injEq, (hw k r hk).1, (hw k' r' hk').1, (hw k r hk).2, (hw k' r' hk').2]
  exact ⟨fun h => objectKey_injective s h.2, fun h => ⟨rfl, congrArg s.objectKey h⟩⟩

theorem RecordingMove.recordsOnce_iff (hm : RecordingMove s w h w' cmd) (hw : w.RecordsOnce) :
    w'.RecordsOnce ↔ ¬ RecordsAgain w h cmd := by
  cases hm with
  | started c room id t hroom hkey hnew hid hsaved hrecordings hpoints =>
    have hthis : w'.store.recordings.lookup id = some (s.startedRecording room id t) := by
      rw [hrecordings, Table.lookup_insert_ite, if_pos rfl]
    constructor
    · rintro hw' ⟨-, k, r, hk, hr⟩
      have hne : k ≠ id := by
        rintro rfl
        cases hnew.symm.trans hk
      have hk' : w'.store.recordings.lookup k = some r := by
        rw [hrecordings, Table.lookup_insert_ite, if_neg hne, hk]
      exact hw' k id r _ hk' hthis hne (hr.trans hkey.symm)
    · intro hok k k' r r' hk hk' hne
      have hfirst : ∀ k r, w.store.recordings.lookup k = some r → r.roomID ≠ room.id :=
        fun k r hk hr => hok ⟨⟨_, (hsaved _).mpr rfl⟩, k, r, hk, hr.trans hkey⟩
      rw [hrecordings, Table.lookup_insert_ite] at hk hk'
      split at hk <;> split at hk'
      · exact absurd (‹k = id›.trans ‹k' = id›.symm) hne
      · cases hk
        exact (hfirst k' r' hk').symm
      · cases hk'
        exact hfirst k r hk
      · exact hw k k' r r' hk hk' hne
  | stopped c recording t hrecording hroom hsaved hrecordings hpoints =>
    -- the recording was stored before, under the same room
    have hold : ∀ k r, w'.store.recordings.lookup k = some r →
        ∃ r₀, w.store.recordings.lookup k = some r₀ ∧ r₀.roomID = r.roomID := by
      intro k r hk
      rw [hrecordings, Table.lookup_insert_ite] at hk
      split at hk
      · cases hk
        exact ⟨recording, by rw [‹k = _›, hrecording], rfl⟩
      · exact ⟨r, hk, rfl⟩
    refine iff_of_true (fun k k' r r' hk hk' hne => ?_) id
    obtain ⟨r₀, hl, hr⟩ := hold k r hk
    obtain ⟨r₀', hl', hr'⟩ := hold k' r' hk'
    rw [← hr, ← hr']
    exact hw k k' r₀ r₀' hl hl' hne
  | other cmd hsaved hrecordings hpoints =>
    refine iff_of_true (by rwa [World.RecordsOnce, hrecordings]) fun hagain => ?_
    cases cmd with
    | startRecording c => exact hsaved hagain.1
    | _ => exact hagain

/-- **Recordings are stored as different objects** in every state of a
sequential run iff no room is recorded that has been recorded before. -/
theorem objects_distinct_iff (s : Service) (I : Infra) (jobs : List VoiceJob) :
    (s.system I).EachState ObjectsDistinct jobs ↔
      (s.system I).EachCommand (fun p job _ o => ¬ RecordsAgain p.state o.history job.1) jobs := by
  refine System.eachState_iff ?_ ?_ jobs
  · intro k _ _ _ hl
    exact (lookup_empty hl).elim
  · intro pre p job q o hp hq hdistinct
    obtain ⟨ms, hms⟩ := System.serial_isRun hp
    have hm := perform_moves hms hq o
    have hfiles : p.state.FilesObjects s := serial_keeps
      (fun k r hl => (lookup_empty hl).elim) (fun _ _ _ _ hm _ hw => hm.filesObjects hw) hp
    rw [objectsDistinct_iff (hm.filesObjects hfiles)]
    exact hm.recordsOnce_iff ((objectsDistinct_iff hfiles).mp hdistinct)

/-- The owner stops the recording that was started with the draw `n`. -/
def ownerStops (n m : Fin 100) : VoiceJob :=
  (.stopRecording ⟨sampleRoom, newID prefixRecording (sampleUlid n), "owner", ""⟩,
    plain 5 ++ publishing m)

/-- The second recording of a room is written over the first one. -/
theorem objects_distinct_fails :
    ¬ ∀ (s : Service) (I : Infra) (jobs : List VoiceJob),
      (s.system I).EachState ObjectsDistinct jobs := by
  intro hclaim
  have hrun : ((sampleService.system (sampleInfra fun _ => false)).serial
      (openRoom ++ [ownerRecords 4 5, ownerStops 4 6, ownerRecords 7 8])).any (fun p =>
        [sampleUlid 4, sampleUlid 7].all fun u =>
          (p.state.store.recordings.lookup (newID prefixRecording u)).any fun r =>
            r.storage.bucket = "bucket" &&
            r.storage.key = sampleService.objectKey sampleRoom) = true := by decide +kernel
  obtain ⟨p, hp, hrecordings⟩ := (Option.any_eq_true _ _).mp hrun
  have hstored : ∀ u ∈ [sampleUlid 4, sampleUlid 7], ∃ r,
      p.state.store.recordings.lookup (newID prefixRecording u) = some r ∧
      (r.storage.bucket, r.storage.key) = ("bucket", sampleService.objectKey sampleRoom) := by
    intro u hu
    obtain ⟨r, hr, hfacts⟩ := (Option.any_eq_true _ _).mp (List.all_eq_true.mp hrecordings u hu)
    obtain ⟨hbucket, hkey⟩ := Bool.and_eq_true_iff.mp hfacts
    exact ⟨r, hr, by rw [of_decide_eq_true hbucket, of_decide_eq_true hkey]⟩
  obtain ⟨r, hr, hobject⟩ := hstored (sampleUlid 4) (by simp)
  obtain ⟨r', hr', hobject'⟩ := hstored (sampleUlid 7) (by simp)
  exact hclaim _ _ _ _ [] p (List.append_nil _).symm hp _ _ r r' hr hr' (by decide)
    (hobject.trans hobject'.symm)

/-! ## Completed recordings -/

/-- A recording that is completed stays so, with its end, duration and expiry. -/
def CompletedFixed (w w' : World) : Prop :=
  ∀ k r, w.store.recordings.lookup k = some r → r.status = .completed →
    ∃ r', w'.store.recordings.lookup k = some r' ∧ r'.status = .completed ∧
      r'.endedAt = r.endedAt ∧ r'.durationSeconds = r.durationSeconds ∧
      r'.expiresAt = r.expiresAt

/-- The command stops a recording that is completed, at another time. -/
def StopsAgain (s : Service) (w : World) (h : List VoiceExchange) : Command → Prop
  | .stopRecording c => ∃ r t, w.store.recordings.lookup c.recordingID = some r ∧
      r.status = .completed ∧ r.endedAt ≠ some t ∧
      ⟨.store (.saveRecording (s.completedRecording r t)), .ok ()⟩ ∈ h
  | _ => False

/-- Completed recordings were completed by `StopRecording`. -/
def World.CompletesBy (s : Service) (w : World) : Prop :=
  ∀ k r, w.store.recordings.lookup k = some r → r.status = .completed →
    ∃ r₀ t, r = s.completedRecording r₀ t

theorem RecordingMove.completesBy (hm : RecordingMove s w h w' cmd) (hw : w.CompletesBy s) :
    w'.CompletesBy s := by
  intro k r hl hcompleted
  cases hm with
  | started c room id t hroom hkey hnew hid hsaved hrecordings hpoints =>
    rw [hrecordings, Table.lookup_insert_ite] at hl
    split at hl
    · cases hl
      cases hcompleted
    · exact hw k r hl hcompleted
  | stopped c recording t hrecording hroom hsaved hrecordings hpoints =>
    rw [hrecordings, Table.lookup_insert_ite] at hl
    split at hl
    · cases hl
      exact ⟨recording, t, rfl⟩
    · exact hw k r hl hcompleted
  | other cmd hsaved hrecordings hpoints =>
    rw [hrecordings] at hl
    exact hw k r hl hcompleted

theorem RecordingMove.completedFixed_iff (hm : RecordingMove s w h w' cmd)
    (hw : w.CompletesBy s) : CompletedFixed w w' ↔ ¬ StopsAgain s w h cmd := by
  cases hm with
  | started c room id t hroom hkey hnew hid hsaved hrecordings hpoints =>
    refine iff_of_true (fun k r hl hcompleted => ⟨r, ?_, hcompleted, rfl, rfl, rfl⟩) fun h => h
    have hne : k ≠ id := by
      rintro rfl
      cases hnew.symm.trans hl
    rw [hrecordings, Table.lookup_insert_ite, if_neg hne, hl]
  | stopped c recording t hrecording hroom hsaved hrecordings hpoints =>
    have hthis : w'.store.recordings.lookup c.recordingID =
        some (s.completedRecording recording t) := by
      rw [hrecordings, Table.lookup_insert_ite, if_pos rfl]
    constructor
    · rintro hfixed ⟨r, t', hr, hcompleted, hne, hsave⟩
      cases hrecording.symm.trans hr
      obtain ⟨r', hl', -, hended, -⟩ := hfixed _ recording hrecording hcompleted
      cases hthis.symm.trans hl'
      have ht : some t' = some t := congrArg RoomRecording.endedAt ((hsaved _).mp hsave)
      exact hne (hended.symm.trans ht.symm)
    · intro hok k r hl hcompleted
      by_cases hk : k = c.recordingID
      · subst hk
        cases hrecording.symm.trans hl
        have hended : recording.endedAt = some t := by
          by_contra hne
          exact hok ⟨recording, t, hrecording, hcompleted, hne, (hsaved _).mpr rfl⟩
        obtain ⟨r₀, t₀, rfl⟩ := hw _ recording hrecording hcompleted
        cases hended
        refine ⟨_, hthis, rfl, rfl, rfl, ?_⟩
        simp only [completedRecording]
        split <;> rfl
      · refine ⟨r, ?_, hcompleted, rfl, rfl, rfl⟩
        rw [hrecordings, Table.lookup_insert_ite, if_neg hk, hl]
  | other cmd hsaved hrecordings hpoints =>
    refine iff_of_true (fun k r hl hcompleted => ?_) fun hstops => ?_
    · exact ⟨r, by rw [hrecordings, hl], hcompleted, rfl, rfl, rfl⟩
    · cases cmd with
      | stopRecording c =>
        obtain ⟨r, t, -, -, -, hsave⟩ := hstops
        exact hsaved ⟨_, hsave⟩
      | _ => exact hstops

/-- **Completed recordings are immutable** along a sequential run iff none is
stopped again at another time. -/
theorem completed_fixed_iff (s : Service) (I : Infra) (jobs : List VoiceJob) :
    (s.system I).EachPair CompletedFixed jobs ↔
      (s.system I).EachCommand (fun p job _ o => ¬ StopsAgain s p.state o.history job.1) jobs := by
  refine System.eachPair_iff ?_ ?_ ?_ jobs
  · exact fun w k r hl hcompleted => ⟨r, hl, hcompleted, rfl, rfl, rfl⟩
  · intro w₁ w₂ w₃ h₁ h₂ k r hl hcompleted
    obtain ⟨r', hl', hcompleted', hended, hduration, hexpires⟩ := h₁ k r hl hcompleted
    obtain ⟨r'', hl'', hcompleted'', hended', hduration', hexpires'⟩ := h₂ k r' hl' hcompleted'
    exact ⟨r'', hl'', hcompleted'', hended'.trans hended, hduration'.trans hduration,
      hexpires'.trans hexpires⟩
  · intro pre p job q o hp hq
    obtain ⟨ms, hms⟩ := System.serial_isRun hp
    have hby : p.state.CompletesBy s := serial_keeps
      (fun k r hl => (lookup_empty hl).elim) (fun _ _ _ _ hm _ hw => hm.completesBy hw) hp
    exact (perform_moves hms hq o).completedFixed_iff hby

/-- A recording is stopped a second time, an hour later. -/
theorem completed_fixed_fails :
    ¬ ∀ (s : Service) (I : Infra) (jobs : List VoiceJob),
      (s.system I).EachPair CompletedFixed jobs := by
  intro hclaim
  have hstopped : ((sampleService.system (sampleInfra fun _ => false)).serial
      (openRoom ++ [ownerRecords 4 5, ownerStops 4 6])).any (fun p =>
        (p.state.store.recordings.lookup sampleRecording).any fun r =>
          r.status = .completed && r.endedAt = some 0) = true := by decide +kernel
  have hagain : ((sampleService.system (sampleInfra fun _ => false)).serial
      (openRoom ++ [ownerRecords 4 5, ownerStops 4 6] ++
        [((ownerStops 4 7).1, callsAt hour (ownerStops 4 7).2)])).any (fun p =>
        (p.state.store.recordings.lookup sampleRecording).any fun r =>
          r.endedAt = some hour) = true := by decide +kernel
  obtain ⟨p, hp, hrecording⟩ := (Option.any_eq_true _ _).mp hstopped
  obtain ⟨q, hq, hrecording'⟩ := (Option.any_eq_true _ _).mp hagain
  obtain ⟨r, hl, hfacts⟩ := (Option.any_eq_true _ _).mp hrecording
  obtain ⟨hcompleted, hended⟩ := Bool.and_eq_true_iff.mp hfacts
  obtain ⟨r', hl', hended'⟩ := (Option.any_eq_true _ _).mp hrecording'
  obtain ⟨r'', hl'', -, heq, -⟩ := hclaim _ _ _ _ _ [] p q (List.append_nil _).symm hp hq
    sampleRecording r hl (of_decide_eq_true hcompleted)
  cases hl'.symm.trans hl''
  rw [of_decide_eq_true hended, of_decide_eq_true hended'] at heq
  exact absurd heq (by decide)

end WaveCast
