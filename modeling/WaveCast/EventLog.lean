import WaveCast.Postings

/-!
# The event log determines the stored records

Reading the log from its beginning (`project`) gives the status of every room,
speaker request and recording, the users who are blocked and the reports, as
they are stored (`log_determines`). Each posting that saves such a record
appends the event that says so, also when the bus then refuses the event; the
bus has accepted part of the log.
-/

namespace WaveCast

open Interaction

/-! ## Reading the log -/

/-- What the log says about the stored records. -/
structure Projection where
  rooms : Table RoomStatus
  requests : Table SpeakerRequestStatus
  /-- Rooms and the users who are blocked in them. -/
  blocked : Finset (String × String)
  recordings : Table RecordingStatus
  /-- By room. -/
  reports : Table RoomReport

namespace Projection

def empty : Projection := ⟨∅, ∅, ∅, ∅, ∅⟩

def record (p : Projection) : Fact → Projection
  | .room roomID status => { p with rooms := p.rooms.insert roomID status }
  | .request requestID status => { p with requests := p.requests.insert requestID status }
  | .blocked roomID userID => { p with blocked := insert (roomID, userID) p.blocked }
  | .unblocked roomID userID => { p with blocked := p.blocked.erase (roomID, userID) }
  | .recording recordingID status =>
      { p with recordings := p.recordings.insert recordingID status }
  | .report roomID report => { p with reports := p.reports.insert roomID report }

def observe (p : Projection) (event : VoiceEvent) : Projection := (factOf event).elim p p.record

theorem observe_eq {p : Projection} {event : VoiceEvent} {fact : Fact}
    (h : factOf event = some fact) : p.observe event = p.record fact := by
  rw [observe, h]
  rfl

theorem observe_none {p : Projection} {event : VoiceEvent} (h : factOf event = none) :
    p.observe event = p := by
  rw [observe, h]
  rfl

end Projection

/-- The events of the log, in order. -/
def project (events : List VoiceEvent) : Projection := events.foldl Projection.observe .empty

theorem project_concat (events : List VoiceEvent) (event : VoiceEvent) :
    project (events ++ [event]) = (project events).observe event := by
  simp [project]

/-! ## What is stored -/

/-- The block stored under `k` keeps the user from speaking in the room. -/
def Store.ActiveBlock (st : Store) (roomID userID k : String) : Prop :=
  ∃ block, st.speakingBlocks.lookup k = some block ∧ block.roomID = roomID ∧
    block.userID = userID ∧ block.unblockedAt = none

/-- The stored records are as the projection says. -/
structure Store.Matches (st : Store) (p : Projection) : Prop where
  rooms : ∀ roomID, (st.rooms.lookup roomID).map Room.status = p.rooms.lookup roomID
  requests : ∀ requestID,
    (st.speakerRequests.lookup requestID).map SpeakerRequest.status = p.requests.lookup requestID
  blocked : ∀ roomID userID, (roomID, userID) ∈ p.blocked →
    ∃! k, st.ActiveBlock roomID userID k
  unblocked : ∀ roomID userID, (roomID, userID) ∉ p.blocked →
    ∀ k, ¬ st.ActiveBlock roomID userID k
  recordings : ∀ recordingID, (st.recordings.lookup recordingID).map RoomRecording.status =
    p.recordings.lookup recordingID
  reports : ∀ roomID, st.reportsByRoom.lookup roomID = p.reports.lookup roomID

/-! ## Postings keep the match -/

section Matches

variable {st : Store} {p : Projection}

theorem lookup_map_insert {V ι : Type} {t : Table V} {t' : Table ι} {f : V → ι} {v : V}
    (h : ∀ k, (t.lookup k).map f = t'.lookup k) (id k : String) :
    ((t.insert id v).lookup k).map f = (t'.insert id (f v)).lookup k := by
  simp only [Table.lookup_insert_ite]
  split
  · rfl
  · exact h k

theorem Store.Matches.saveRoom (h : st.Matches p) (room : Room) :
    ((StoreCall.saveRoom room).apply st).Matches (p.record (.room room.id room.status)) :=
  { h with rooms := lookup_map_insert h.rooms room.id }

/-- A room whose status stays may be saved without notice. -/
theorem Store.Matches.resaveRoom (h : st.Matches p) {room₀ room : Room}
    (hold : st.rooms.lookup room.id = some room₀) (hstatus : room.status = room₀.status) :
    ((StoreCall.saveRoom room).apply st).Matches p := by
  refine { h with rooms := fun roomID => ?_ }
  rw [← h.rooms roomID]
  simp only [StoreCall.apply, Table.lookup_insert_ite]
  split
  · subst roomID
    rw [hold, Option.map_some, Option.map_some, hstatus]
  · rfl

theorem Store.Matches.saveRequest (h : st.Matches p) (request : SpeakerRequest) :
    ((StoreCall.saveSpeakerRequest request).apply st).Matches
      (p.record (.request request.id request.status)) :=
  { h with requests := lookup_map_insert h.requests request.id }

theorem Store.Matches.saveRecording (h : st.Matches p) (recording : RoomRecording) :
    ((StoreCall.saveRecording recording).apply st).Matches
      (p.record (.recording recording.id recording.status)) :=
  { h with recordings := lookup_map_insert h.recordings recording.id }

theorem Store.Matches.saveReport (h : st.Matches p) (report : RoomReport) :
    ((StoreCall.saveReport report).apply st).Matches (p.record (.report report.roomID report)) := by
  refine { h with reports := fun roomID => ?_ }
  simp only [StoreCall.apply, Projection.record, Table.lookup_insert_ite, h.reports roomID]

/-- The active blocks after one was saved. -/
theorem Store.activeBlock_save {block : SpeakingBlock} {roomID userID k : String} :
    ((StoreCall.saveSpeakingBlock block).apply st).ActiveBlock roomID userID k ↔
      (k = block.id ∧ block.roomID = roomID ∧ block.userID = userID ∧ block.unblockedAt = none) ∨
        (k ≠ block.id ∧ st.ActiveBlock roomID userID k) := by
  simp only [ActiveBlock, StoreCall.apply, Table.lookup_insert_ite]
  by_cases hk : k = block.id <;> simp [hk]

/-- A block that is saved does not change the active blocks of others. -/
theorem Store.activeBlock_save_other {block : SpeakingBlock}
    (hsame : ∀ block₀, st.speakingBlocks.lookup block.id = some block₀ →
      block₀.roomID = block.roomID ∧ block₀.userID = block.userID) {roomID userID : String}
    (hne : (roomID, userID) ≠ (block.roomID, block.userID)) (k : String) :
    ((StoreCall.saveSpeakingBlock block).apply st).ActiveBlock roomID userID k ↔
      st.ActiveBlock roomID userID k := by
  rw [Store.activeBlock_save]
  constructor
  · rintro (⟨-, rfl, rfl, -⟩ | ⟨-, hk⟩)
    · exact absurd rfl hne
    · exact hk
  · intro hk
    refine .inr ⟨?_, hk⟩
    rintro rfl
    obtain ⟨block₀, hl, rfl, rfl, -⟩ := hk
    exact hne (Prod.ext (hsame block₀ hl).1 (hsame block₀ hl).2)

theorem Store.Matches.saveBlock (h : st.Matches p) {block : SpeakingBlock}
    (hnew : st.speakingBlocks.lookup block.id = none) (hactive : block.unblockedAt = none)
    (hfree : ∀ k, ¬ st.ActiveBlock block.roomID block.userID k) :
    ((StoreCall.saveSpeakingBlock block).apply st).Matches
      (p.record (.blocked block.roomID block.userID)) := by
  have hsame : ∀ block₁, st.speakingBlocks.lookup block.id = some block₁ →
      block₁.roomID = block.roomID ∧ block₁.userID = block.userID :=
    fun _ hl => nomatch hnew.symm.trans hl
  refine { h with blocked := ?_, unblocked := ?_ }
  · intro roomID userID hmem
    by_cases hpair : (roomID, userID) = (block.roomID, block.userID)
    · cases hpair
      refine ⟨block.id, Store.activeBlock_save.mpr (.inl ⟨rfl, rfl, rfl, hactive⟩), ?_⟩
      intro k hk
      rcases Store.activeBlock_save.mp hk with ⟨hid, -⟩ | ⟨-, hk⟩
      · exact hid
      · exact absurd hk (hfree k)
    · simp only [Store.activeBlock_save_other hsame hpair]
      exact h.blocked _ _ (Finset.mem_of_mem_insert_of_ne hmem hpair)
  · intro roomID userID hmem k
    have hpair : (roomID, userID) ≠ (block.roomID, block.userID) := fun heq =>
      hmem (Finset.mem_insert.mpr (.inl heq))
    rw [Store.activeBlock_save_other hsame hpair]
    exact h.unblocked _ _ (fun hin => hmem (Finset.mem_insert_of_mem hin)) k

theorem Store.Matches.liftBlock (h : st.Matches p) {block₀ block : SpeakingBlock}
    (hold : st.speakingBlocks.lookup block.id = some block₀) (hactive : block₀.unblockedAt = none)
    (hlifted : block.unblockedAt ≠ none) (hroom : block.roomID = block₀.roomID)
    (huser : block.userID = block₀.userID) :
    ((StoreCall.saveSpeakingBlock block).apply st).Matches
      (p.record (.unblocked block.roomID block.userID)) := by
  have hwas : st.ActiveBlock block.roomID block.userID block.id :=
    ⟨block₀, hold, hroom.symm, huser.symm, hactive⟩
  have hsame : ∀ block₁, st.speakingBlocks.lookup block.id = some block₁ →
      block₁.roomID = block.roomID ∧ block₁.userID = block.userID := by
    intro block₁ hl
    cases hold.symm.trans hl
    exact ⟨hroom.symm, huser.symm⟩
  refine { h with blocked := ?_, unblocked := ?_ }
  · intro roomID userID hmem
    obtain ⟨hpair, hmem⟩ := Finset.mem_erase.mp hmem
    simp only [Store.activeBlock_save_other hsame hpair]
    exact h.blocked _ _ hmem
  · intro roomID userID hmem k
    by_cases hpair : (roomID, userID) = (block.roomID, block.userID)
    · cases hpair
      rw [Store.activeBlock_save]
      rintro (⟨-, -, -, hnone⟩ | ⟨hk, hactive⟩)
      · exact hlifted hnone
      · by_cases hin : (block.roomID, block.userID) ∈ p.blocked
        · exact hk ((h.blocked _ _ hin).unique hactive hwas)
        · exact h.unblocked _ _ hin block.id hwas
    · rw [Store.activeBlock_save_other hsame hpair]
      exact h.unblocked _ _ (fun hin => hmem (Finset.mem_erase.mpr ⟨hpair, hin⟩)) k

end Matches

/-- The log determines the stored records, and the bus has accepted part of it. -/
structure Ledger.Determined (l : Ledger) : Prop where
  records : l.store.Matches (project l.store.events)
  bus : l.bus.Sublist l.store.events

section Determined

variable {s : Service} {I : Infra} {l l' : Ledger}

/-- A record and its event are entered. -/
theorem Ledger.Determined.logged (h : l.Determined) (l' : Ledger)
    (hevents : l'.store.events = l.store.events) (hbus : l'.bus = l.bus) {event : VoiceEvent}
    (accepted : Bool) (hrecords : l'.store.Matches ((project l.store.events).observe event)) :
    (l'.logged event accepted).Determined := by
  constructor
  · simp only [Ledger.logged, hevents, project_concat]
    exact { hrecords with }
  · simp only [Ledger.logged, hevents, hbus]
    cases accepted with
    | true => exact h.bus.append (.refl _)
    | false => exact h.bus.trans (List.sublist_append_left _ _)

theorem Posting.determined (hp : Posting s I l l') (h : l.Determined) : l'.Determined := by
  have hr := h.records
  cases hp with
  | event event accepted hfact =>
    refine h.logged l rfl rfl accepted ?_
    rwa [Projection.observe_none hfact]
  | room room event accepted hfact =>
    refine h.logged (l.saved _) rfl rfl accepted ?_
    rw [Projection.observe_eq hfact]
    exact hr.saveRoom room
  | request request event accepted hfact =>
    refine h.logged (l.saved _) rfl rfl accepted ?_
    rw [Projection.observe_eq hfact]
    exact hr.saveRequest request
  | block block event accepted hnew hactive hfree hfact =>
    refine h.logged (l.saved _) rfl rfl accepted ?_
    rw [Projection.observe_eq hfact]
    refine hr.saveBlock hnew hactive ?_
    rintro k ⟨block₁, hl, hroom, huser, hnone⟩
    exact hfree k block₁ hl hroom huser hnone
  | unblock block₀ block event accepted hold hactive hlifted hroom huser hfact =>
    refine h.logged (l.saved _) rfl rfl accepted ?_
    rw [Projection.observe_eq hfact]
    exact hr.liftBlock hold hactive hlifted hroom huser
  | recording recording room₀ room event accepted hold hstatus hfact =>
    refine h.logged ((l.saved _).saved _) rfl rfl accepted ?_
    rw [Projection.observe_eq hfact]
    exact (hr.saveRecording recording).resaveRoom hold hstatus
  | report report event accepted hfact =>
    refine h.logged (l.saved _) rfl rfl accepted ?_
    rw [Projection.observe_eq hfact]
    exact hr.saveReport report
  | listener | participant | unshown | unseated => exact ⟨{ hr with }, h.bus⟩

theorem Reaches.determined (hr : Reaches s I l l') (h : l.Determined) : l'.Determined := by
  induction hr with
  | refl => exact h
  | tail _ hp ih => exact hp.determined ih

theorem Ledger.determined_empty : World.empty.ledger.Determined where
  records := by
    constructor <;> simp [World.ledger, World.empty, Store.empty, project, Projection.empty,
      Store.ActiveBlock]
  bus := .refl _

end Determined

/-- **The event log determines the stored records.** After any sequential run
on the memory store, whatever else fails, the records are as the log says, and
the bus has accepted part of the log. -/
theorem log_determines (s : Service) (I : Infra) (hI : I.KeepsStore) (jobs : List VoiceJob)
    (p : VoicePool) (h : (s.system I).serial jobs = some p) :
    p.state.store.Matches (project p.state.store.events) ∧
      p.state.bus.Sublist p.state.store.events := by
  have hd := (serial_reaches hI h).determined Ledger.determined_empty
  exact ⟨hd.records, hd.bus⟩

/-- A request is approved, and the bus does not accept the event. -/
def approvedUnheard : List VoiceJob :=
  openRoom ++ promotion.take 1 ++
    [(.approveSpeakerRequest ⟨sampleRoom, sampleRequest, "moderator", "", ""⟩,
      plain 4 ++ drawing 6 ++ plain 2 ++ [failingEnv])]

/-- The log knows of an approval that the bus has not heard of. -/
theorem log_determines_unheard :
    ∃ p, (sampleService.system flakyEdge).serial approvedUnheard = some p ∧
      p.state.bus.length < p.state.store.events.length ∧
      p.state.store.Matches (project p.state.store.events) := by
  have hrun : ((sampleService.system flakyEdge).serial approvedUnheard).any
      (fun p => p.state.bus.length < p.state.store.events.length) = true := by decide +kernel
  obtain ⟨p, hp, hlength⟩ := (Option.any_eq_true _ _).mp hrun
  exact ⟨p, hp, of_decide_eq_true hlength,
    (log_determines _ _ flakyEdge_keepsStore _ p hp).1⟩

end WaveCast
