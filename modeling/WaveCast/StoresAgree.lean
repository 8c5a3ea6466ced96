import WaveCast.Interaction.Lockstep
import WaveCast.MongoStore

/-!
# The memory store and the store on MongoDB

Both stores give the same answers, up to the order of lists and the choice
among several matching records, exactly as long as no report is saved for a
room that has one (`stores_agree_iff`): the memory store keeps reports by their
room, and a replacement in a collection may not change the `_id`.
-/

namespace WaveCast

open Interaction Documents

/-! ## Both stores side by side -/

/-- One call on both stores. -/
structure StoreStep where
  call : StoreCall
  now : Time
  memoryOrder : List String
  memoryOrder' : List String
  serverOrder : List String
  serverOrder' : List String

def storeLockstep (x : StoreStep) (p : Store × MongoStore) : Option (Store × MongoStore) :=
  (p.1.step x.now x.memoryOrder x.memoryOrder' x.call).bind fun r =>
    (p.2.step x.now x.serverOrder x.serverOrder' x.call).map fun r' => (r.2, r'.2)

/-- The same error, or results that `R` relates. -/
def SameAnswer {α : Type} (R : α → α → Prop) : Except AppError α → Except AppError α → Prop
  | .ok x, .ok y => R x y
  | .error e, .error e' => e = e'
  | _, _ => False

theorem sameAnswer_of_eq {α : Type} {r r' : Except AppError α} (h : r = r') :
    SameAnswer Eq r r' := by
  subst h
  cases r <;> rfl

/-- `x` is one of the records in the table that match. -/
def Table.Matching {V : Type} (t : Table V) (filter : V → Bool) (x : V) : Prop :=
  (∃ k, t.lookup k = some x) ∧ filter x = true

/-- `xs` are some of the records in the table that match, each once. -/
def Table.Selection {V : Type} (t : Table V) (filter : V → Bool) (xs : List V) : Prop :=
  ∃ order all, t.range order = some all ∧ xs.Subperm (all.filter filter)

/-- The same result, up to the order of a list and the choice among several
records that match a find or a limited list. -/
def StoreCall.SameResult (m : Store) : (c : StoreCall) → c.Result → c.Result → Prop
  | .listActiveListenerSessions _, xs, ys => xs.Perm ys
  | .listActiveListenerSessionsByUser _ _, xs, ys => xs.Perm ys
  | .listRecordings _, xs, ys => xs.Perm ys
  | .listStaleListenerSessions cutoff limit, xs, ys =>
      let stale (x : ListenerSession) : Bool := x.status = .active && x.lastHeartbeatAt < cutoff
      if limit > 0 then xs.length = ys.length ∧ m.listenerSessions.Selection stale xs ∧
        m.listenerSessions.Selection stale ys
      else xs.Perm ys
  | .findPendingSpeakerRequest roomID userID, x, y =>
      let pending (r : SpeakerRequest) : Bool :=
        r.roomID = roomID && r.userID = userID && r.status = .pending
      m.speakerRequests.Matching pending x ∧ m.speakerRequests.Matching pending y
  | .findApprovedSpeakerRequest roomID userID, x, y =>
      let approved (r : SpeakerRequest) : Bool :=
        r.roomID = roomID && r.userID = userID && r.status = .approved
      m.speakerRequests.Matching approved x ∧ m.speakerRequests.Matching approved y
  | .getActiveSpeakingBlock roomID userID, x, y =>
      let active (b : SpeakingBlock) : Bool :=
        b.roomID = roomID && b.userID = userID && b.unblockedAt = none
      m.speakingBlocks.Matching active x ∧ m.speakingBlocks.Matching active y
  | _, x, y => x = y

/-- Both stores answer the call alike. -/
def AnswersAgree (p : Store × MongoStore) (x : StoreStep) : Prop :=
  ∀ r r', p.1.step x.now x.memoryOrder x.memoryOrder' x.call = some r →
    p.2.step x.now x.serverOrder x.serverOrder' x.call = some r' →
    SameAnswer (x.call.SameResult p.1) r.1 r'.1

/-- The id of the report a call saves. -/
def StoreCall.reportID : StoreCall → Option String
  | saveReport report => some report.id
  | _ => none

/-- The records are those the service makes: the name of a room at LiveKit is
made from its id, and every report has a fresh id. -/
structure ServiceRecords (xs : List StoreStep) : Prop where
  rooms : ∀ x ∈ xs, ∀ room, x.call = .saveRoom room → room.liveKitRoomName = "lk_" ++ room.id
  reports : (xs.filterMap (·.call.reportID)).Nodup

/-- No report is saved for a room that has one. -/
def FirstReport (m : Store) (x : StoreStep) : Prop :=
  ∀ report, x.call = .saveReport report → m.reportsByRoom.lookup report.roomID = none

/-! ## The simulation -/

/-- What the stores have in common while no room gets a second report. -/
structure Twins (m : Store) (g : MongoStore) : Prop where
  rooms : m.rooms = g.rooms.docs
  listenerSessions : m.listenerSessions = g.listenerSessions.docs
  participantSessions : m.participantSessions = g.participantSessions.docs
  speakerRequests : m.speakerRequests = g.speakerRequests.docs
  speakingBlocks : m.speakingBlocks = g.speakingBlocks.docs
  recordings : m.recordings = g.recordings.docs
  reports : ∀ roomID report, m.reportsByRoom.lookup roomID = some report ↔
    report.roomID = roomID ∧ g.reports.Holds report
  names : ∀ room, g.rooms.Holds room → room.liveKitRoomName = "lk_" ++ room.id

section Shared

variable {V U : Type} {S : Schema V String U} {t : Table V} {c : Collection S}

/-- The memory store and the server visit the same records. -/
theorem range_perm_scan (h : t = c.docs) {order order' : List String} {xs ys : List V}
    (ht : t.range order = some xs) (hc : c.scan order' = some ys) : xs.Perm ys := by
  subst h
  simp only [Table.range, Collection.scan] at ht hc
  split at ht
  · split at hc
    · rename_i ho ho'
      cases ht
      cases hc
      exact (List.perm_of_nodup_nodup_toFinset_eq ho.1 ho'.1 (ho.2.trans ho'.2.symm)).filterMap _
    · cases hc
  · cases ht

theorem replace_put [DecidableEq U] {order : List String} {doc : V}
    {r : Except AppError Unit × Collection S}
    (hno : ¬ c.Clashes doc) (h : MongoStore.replace c order (S.id doc) doc = some r) :
    r.1 = .ok () ∧ r.2.docs = c.docs.insert (S.id doc) doc := by
  obtain ⟨w, hw, rfl⟩ := Option.map_eq_some_iff.mp h
  rw [Collection.replaceOne_id hno hw]
  exact ⟨rfl, rfl⟩

/-- Getting a record by its id. -/
theorem findOne_found (h : t = c.docs) {order : List String} {id : String} {notFound : AppError}
    {r : Except AppError V}
    (hr : MongoStore.findOne c order (fun v => S.id v = id) notFound = some r) :
    r = Store.found (t.lookup id) notFound := by
  obtain ⟨found, hf, rfl⟩ := Option.map_eq_some_iff.mp hr
  rw [Collection.findOne_id hf, ← h]
  cases t.lookup id <;> rfl

/-- Finding a record that matches. -/
theorem findOne_matching (h : t = c.docs) {order order' : List String} {filter : V → Bool}
    {xs : List V} {notFound : AppError} {r : Except AppError V} (ht : t.range order = some xs)
    (hr : MongoStore.findOne c order' filter notFound = some r) :
    SameAnswer (fun x y => t.Matching filter x ∧ t.Matching filter y)
      (Store.found (xs.find? filter) notFound) r := by
  obtain ⟨found, hf, rfl⟩ := Option.map_eq_some_iff.mp hr
  cases found with
  | some y =>
    obtain ⟨hy, hfy⟩ := Collection.findOne_eq_some hf
    have hy : t.lookup (S.id y) = some y := h ▸ hy
    cases hx : xs.find? filter with
    | some x =>
      have hx' := (Table.mem_range ht x).mp (List.mem_of_find?_eq_some hx)
      exact ⟨⟨hx', List.find?_some hx⟩, ⟨_, hy⟩, hfy⟩
    | none =>
      have hno := List.find?_eq_none.mp hx y ((Table.mem_range ht y).mpr ⟨_, hy⟩)
      exact absurd hfy hno
  | none =>
    cases hx : xs.find? filter with
    | some x =>
      obtain ⟨k, hk⟩ := (Table.mem_range ht x).mp (List.mem_of_find?_eq_some hx)
      have hno := Collection.findOne_eq_none hf (Collection.holds_of_lookup (h ▸ hk))
      rw [List.find?_some hx] at hno
      cases hno
    | none => rfl

/-- Listing the records that match. -/
theorem filter_perm_find (h : t = c.docs) {order order' : List String} {filter : V → Bool}
    {xs ys : List V} (ht : t.range order = some xs) (hc : c.find filter order' = some ys) :
    (xs.filter filter).Perm ys := by
  obtain ⟨vs, hvs, rfl⟩ := Option.map_eq_some_iff.mp hc
  exact (range_perm_scan h ht hvs).filter filter

end Shared

/-! ## One call -/

section Step

variable {x : StoreStep} {m m' : Store} {g g' : MongoStore}

/-- A call that saves a report. -/
theorem Twins.saveReport (h : Twins m g) {report : RoomReport} {now : Time}
    {order order' : List String} {r : Except AppError Unit}
    (hnew : ∀ old, g.reports.Holds old → old.id ≠ report.id)
    (hg : g.step now order order' (.saveReport report) = some (r, g')) :
    (m.reportsByRoom.lookup report.roomID = none → r = .ok () ∧
      g'.reports.docs = g.reports.docs.insert report.id report ∧
      g' = { g with reports := g'.reports }) ∧
    (m.reportsByRoom.lookup report.roomID ≠ none → ∃ e, r = .error e) := by
  obtain ⟨w, hw, he⟩ := Option.map_eq_some_iff.mp hg
  obtain ⟨found, hf, -⟩ := Option.map_eq_some_iff.mp hw
  cases found with
  | some old =>
    obtain ⟨hold, hroom⟩ := Collection.findOne_eq_some hf
    have hroom : old.roomID = report.roomID := of_decide_eq_true hroom
    have hstored := (h.reports report.roomID old).mpr ⟨hroom, hold⟩
    rw [Collection.replaceOne_immutable hf (hnew old hold)] at hw
    cases hw
    cases he
    exact ⟨fun hnone => by simp [hstored] at hnone, fun _ => ⟨_, rfl⟩⟩
  | none =>
    have hnone : m.reportsByRoom.lookup report.roomID = none := by
      rw [Option.eq_none_iff_forall_ne_some]
      intro old hold
      obtain ⟨hroom, hold⟩ := (h.reports _ old).mp hold
      have hno := Collection.findOne_eq_none hf hold
      simp [hroom] at hno
    have habsent : g.reports.docs.lookup report.id = none := by
      rw [Option.eq_none_iff_forall_ne_some]
      intro old hold
      exact hnew old (Collection.holds_of_lookup hold) (g.reports.keyed _ _ hold)
    have hclash : ¬ g.reports.Clashes report := by
      rw [Collection.clashes_iff]
      rintro ⟨old, hold, -, hroom⟩
      rw [(h.reports report.roomID old).mpr ⟨hroom, hold⟩] at hnone
      cases hnone
    rw [Collection.replaceOne_none hf, Collection.insertOne_put habsent hclash] at hw
    cases hw
    cases he
    exact ⟨fun _ => ⟨rfl, rfl, rfl⟩, fun hno => absurd hnone hno⟩

/-- A room has at most one report, in both stores. -/
theorem Twins.getReport (h : Twins m g) {order : List String} {roomID : String}
    {r : Except AppError RoomReport}
    (hr : MongoStore.findOne g.reports order (·.roomID = roomID) .reportNotFound = some r) :
    r = Store.found (m.reportsByRoom.lookup roomID) .reportNotFound := by
  obtain ⟨found, hf, rfl⟩ := Option.map_eq_some_iff.mp hr
  cases found with
  | some report =>
    obtain ⟨hheld, hroom⟩ := Collection.findOne_eq_some hf
    rw [(h.reports roomID report).mpr ⟨of_decide_eq_true hroom, hheld⟩]
    rfl
  | none =>
    cases hl : m.reportsByRoom.lookup roomID with
    | none => rfl
    | some report =>
      obtain ⟨hroom, hheld⟩ := (h.reports roomID report).mp hl
      have hno := Collection.findOne_eq_none hf hheld
      simp [hroom] at hno

/-- The reports after the first report of a room. -/
theorem Twins.insertReport (h : Twins m g) {report : RoomReport}
    (hnew : ∀ old, g.reports.Holds old → old.id ≠ report.id)
    (hnone : m.reportsByRoom.lookup report.roomID = none)
    (hdocs : g'.reports.docs = g.reports.docs.insert report.id report)
    (hg : g' = { g with reports := g'.reports }) :
    Twins { m with reportsByRoom := m.reportsByRoom.insert report.roomID report } g' := by
  have held : ∀ old, g'.reports.Holds old ↔ old = report ∨ g.reports.Holds old := by
    intro old
    rw [Collection.Holds, hdocs, Table.lookup_insert_ite]
    constructor
    · intro hold
      split at hold
      · exact .inl (Option.some.inj hold).symm
      · exact .inr hold
    · rintro (rfl | hold)
      · exact if_pos rfl
      · rw [if_neg (hnew old hold)]
        exact hold
  have hreports : ∀ roomID old, (m.reportsByRoom.insert report.roomID report).lookup roomID =
      some old ↔ old.roomID = roomID ∧ g'.reports.Holds old := by
    intro roomID old
    rw [held, Table.lookup_insert_ite]
    split
    · subst roomID
      constructor
      · rintro ⟨⟩
        exact ⟨rfl, .inl rfl⟩
      · rintro ⟨hroom, rfl | hold⟩
        · rfl
        · rw [(h.reports _ old).mpr ⟨hroom, hold⟩] at hnone
          cases hnone
    · rename_i hne
      rw [h.reports]
      refine and_congr_right fun hroom => ⟨.inr, ?_⟩
      rintro (rfl | hold)
      · exact absurd hroom.symm hne
      · exact hold
  rw [hg]
  exact ⟨h.rooms, h.listenerSessions, h.participantSessions, h.speakerRequests, h.speakingBlocks,
    h.recordings, hreports, h.names⟩

/-- Saving a room: its name at LiveKit is not taken. -/
theorem Twins.saveRoom (h : Twins m g) {room : Room}
    (hname : room.liveKitRoomName = "lk_" ++ room.id) {order : List String}
    {r : Except AppError Unit}
    (hg : (MongoStore.replace g.rooms order room.id room).map
      (fun r => (r.1, { g with rooms := r.2 })) = some (r, g')) :
    r = .ok () ∧ Twins { m with rooms := m.rooms.insert room.id room } g' := by
  obtain ⟨⟨w, rooms⟩, hw, he⟩ := Option.map_eq_some_iff.mp hg
  cases he
  have hclash : ¬ g.rooms.Clashes room := by
    rw [Collection.clashes_iff]
    rintro ⟨old, hold, hne, heq⟩
    refine hne (String.append_right_inj "lk_" |>.mp ?_)
    exact (h.names old hold).symm.trans (heq.trans hname)
  obtain ⟨hr, hdocs⟩ := replace_put hclash hw
  refine ⟨hr, by simp only [h.rooms]; exact hdocs.symm, h.listenerSessions, h.participantSessions,
    h.speakerRequests, h.speakingBlocks, h.recordings, h.reports, ?_⟩
  intro old hold
  rw [Collection.Holds, show rooms.docs = _ from hdocs, Table.lookup_insert_ite] at hold
  split at hold
  · cases hold
    exact hname
  · exact h.names old hold

/-- Saving a record that nothing else is unique for. -/
theorem replace_ofID {V : Type} {id : V → String} {c : Collection (.ofID id)} {doc : V}
    {order : List String} {α : Type} {f : Except AppError Unit × Collection (.ofID id) → α} {a : α}
    (h : (MongoStore.replace c order (id doc) doc).map f = some a) :
    ∃ c' : Collection (.ofID id), a = f (.ok (), c') ∧ c'.docs = c.docs.insert (id doc) doc := by
  obtain ⟨⟨r, c'⟩, hw, rfl⟩ := Option.map_eq_some_iff.mp h
  obtain ⟨hr, hdocs⟩ := replace_put (Collection.not_clashes_ofID c doc) hw
  simp only at hr hdocs
  subst hr
  exact ⟨c', rfl, hdocs⟩

/-- A read: a store answers and stays as it is. -/
theorem read_answer {α β σ : Type} {o : Option α} {f : α → β} {s s' : σ} {b : β}
    (h : o.map (fun a => (f a, s)) = some (b, s')) : ∃ a, o = some a ∧ b = f a ∧ s' = s := by
  obtain ⟨a, ha, he⟩ := Option.map_eq_some_iff.mp h
  cases he
  exact ⟨a, ha, rfl, rfl⟩

theorem reportStats_eq {now : Time} {ls ls' : List ListenerSession}
    {ps ps' : List ParticipantSession} {roomID : String}
    (hl : (ls.filter (·.roomID = roomID)).Perm ls')
    (hp : (ps.filter (·.roomID = roomID)).Perm ps') :
    Store.reportStats now ls ps roomID = MongoStore.reportStats now ls' ps' := by
  have hspeakers : (ps.filter fun p => p.roomID = roomID && roleUsesLiveKit p.role).Perm
      (ps'.filter (roleUsesLiveKit ·.role)) := by
    have h := hp.filter (roleUsesLiveKit ·.role)
    rwa [List.filter_filter, List.filter_congr fun p _ => Bool.and_comm _ _] at h
  rw [Store.reportStats, MongoStore.reportStats]
  congr 1
  · exact congrArg Finset.card (List.toFinset_eq_of_perm _ _ (hl.map _))
  · exact congrArg Finset.card (List.toFinset_eq_of_perm _ _ (hspeakers.map _))
  · exact hl.length_eq
  · exact (hl.filter _).length_eq
  · exact (hl.map _).sum_eq

/-- **One call on both stores.** -/
theorem Twins.step (h : Twins m g)
    (hname : ∀ room, x.call = .saveRoom room → room.liveKitRoomName = "lk_" ++ room.id)
    (hnew : ∀ report, x.call = .saveReport report → ∀ old, g.reports.Holds old →
      old.id ≠ report.id) (hfirst : FirstReport m x) {r r' : Except AppError x.call.Result}
    (hm : m.step x.now x.memoryOrder x.memoryOrder' x.call = some (r, m'))
    (hg : g.step x.now x.serverOrder x.serverOrder' x.call = some (r', g')) :
    Twins m' g' ∧ SameAnswer (x.call.SameResult m) r r' := by
  obtain ⟨call, now, order₁, order₁', order₂, order₂'⟩ := x
  cases call with
  | saveRoom room =>
    cases hm
    obtain ⟨rfl, ht⟩ := h.saveRoom (hname room rfl) hg
    exact ⟨ht, rfl⟩
  | saveListenerSession session =>
    cases hm
    obtain ⟨c, he, hdocs⟩ := replace_ofID hg
    cases he
    exact ⟨{ h with listenerSessions := by simp [h.listenerSessions, hdocs] }, rfl⟩
  | saveParticipantSession session =>
    cases hm
    obtain ⟨c, he, hdocs⟩ := replace_ofID hg
    cases he
    exact ⟨{ h with participantSessions := by simp [h.participantSessions, hdocs] }, rfl⟩
  | saveSpeakerRequest request =>
    cases hm
    obtain ⟨c, he, hdocs⟩ := replace_ofID hg
    cases he
    exact ⟨{ h with speakerRequests := by simp [h.speakerRequests, hdocs] }, rfl⟩
  | saveSpeakingBlock block =>
    cases hm
    obtain ⟨c, he, hdocs⟩ := replace_ofID hg
    cases he
    exact ⟨{ h with speakingBlocks := by simp [h.speakingBlocks, hdocs] }, rfl⟩
  | saveRecording recording =>
    cases hm
    obtain ⟨c, he, hdocs⟩ := replace_ofID hg
    cases he
    exact ⟨{ h with recordings := by simp [h.recordings, hdocs] }, rfl⟩
  | saveReport report =>
    cases hm
    have hnone := hfirst report rfl
    obtain ⟨rfl, hdocs, hsame⟩ := (h.saveReport (hnew report rfl) hg).1 hnone
    exact ⟨h.insertReport (hnew report rfl) hnone hdocs hsame, rfl⟩
  | appendEvent event =>
    cases hm
    cases hg
    exact ⟨⟨h.rooms, h.listenerSessions, h.participantSessions, h.speakerRequests,
      h.speakingBlocks, h.recordings, h.reports, h.names⟩, rfl⟩
  | getRoom roomID =>
    cases hm
    obtain ⟨a, ha, rfl, rfl⟩ := read_answer (f := id) hg
    exact ⟨h, sameAnswer_of_eq (findOne_found h.rooms ha).symm⟩
  | getListenerSession sessionID =>
    cases hm
    obtain ⟨a, ha, rfl, rfl⟩ := read_answer (f := id) hg
    exact ⟨h, sameAnswer_of_eq (findOne_found h.listenerSessions ha).symm⟩
  | getSpeakerRequest requestID =>
    cases hm
    obtain ⟨a, ha, rfl, rfl⟩ := read_answer (f := id) hg
    exact ⟨h, sameAnswer_of_eq (findOne_found h.speakerRequests ha).symm⟩
  | getRecording recordingID =>
    cases hm
    obtain ⟨a, ha, rfl, rfl⟩ := read_answer (f := id) hg
    exact ⟨h, sameAnswer_of_eq (findOne_found h.recordings ha).symm⟩
  | getReport roomID =>
    cases hm
    obtain ⟨a, ha, rfl, rfl⟩ := read_answer (f := id) hg
    exact ⟨h, sameAnswer_of_eq (h.getReport ha).symm⟩
  | listActiveListenerSessions roomID =>
    obtain ⟨all, hall, rfl, rfl⟩ := read_answer hm
    obtain ⟨found, hfound, rfl, rfl⟩ := read_answer hg
    exact ⟨h, filter_perm_find h.listenerSessions hall hfound⟩
  | listActiveListenerSessionsByUser roomID userID =>
    obtain ⟨all, hall, rfl, rfl⟩ := read_answer hm
    obtain ⟨found, hfound, rfl, rfl⟩ := read_answer hg
    exact ⟨h, filter_perm_find h.listenerSessions hall hfound⟩
  | listRecordings roomID =>
    obtain ⟨all, hall, rfl, rfl⟩ := read_answer hm
    obtain ⟨found, hfound, rfl, rfl⟩ := read_answer hg
    exact ⟨h, filter_perm_find h.recordings hall hfound⟩
  | listStaleListenerSessions cutoff limit =>
    obtain ⟨all, hall, rfl, rfl⟩ := read_answer hm
    obtain ⟨found, hfound, rfl, rfl⟩ := read_answer hg
    have hperm := (filter_perm_find h.listenerSessions hall hfound).trans
      (List.perm_insertionSort (fun a b => a.lastHeartbeatAt ≤ b.lastHeartbeatAt) found).symm
    refine ⟨h, ?_⟩
    simp only [SameAnswer, StoreCall.SameResult]
    split
    · refine ⟨?_, ⟨order₁, all, hall, ?_⟩, ⟨order₁, all, hall, ?_⟩⟩
      · rw [List.length_take, List.length_take, hperm.length_eq]
      · exact (List.take_sublist _ _).subperm
      · exact (List.take_sublist _ _).subperm.trans hperm.symm.subperm
    · exact hperm
  | countActiveListeners roomID =>
    obtain ⟨all, hall, rfl, rfl⟩ := read_answer hm
    obtain ⟨found, hfound, rfl, rfl⟩ := read_answer hg
    exact ⟨h, (filter_perm_find h.listenerSessions hall hfound).length_eq⟩
  | countActiveParticipantSessions roomID =>
    obtain ⟨all, hall, rfl, rfl⟩ := read_answer hm
    obtain ⟨found, hfound, rfl, rfl⟩ := read_answer hg
    exact ⟨h, (filter_perm_find h.participantSessions hall hfound).length_eq⟩
  | findPendingSpeakerRequest roomID userID =>
    obtain ⟨all, hall, rfl, rfl⟩ := read_answer hm
    obtain ⟨a, ha, rfl, rfl⟩ := read_answer (f := id) hg
    exact ⟨h, findOne_matching h.speakerRequests hall ha⟩
  | findApprovedSpeakerRequest roomID userID =>
    obtain ⟨all, hall, rfl, rfl⟩ := read_answer hm
    obtain ⟨a, ha, rfl, rfl⟩ := read_answer (f := id) hg
    exact ⟨h, findOne_matching h.speakerRequests hall ha⟩
  | getActiveSpeakingBlock roomID userID =>
    obtain ⟨all, hall, rfl, rfl⟩ := read_answer hm
    obtain ⟨a, ha, rfl, rfl⟩ := read_answer (f := id) hg
    exact ⟨h, findOne_matching h.speakingBlocks hall ha⟩
  | reportStats roomID =>
    obtain ⟨ls, hls, hm⟩ := Option.bind_eq_some_iff.mp hm
    obtain ⟨ls', hls', hg⟩ := Option.bind_eq_some_iff.mp hg
    obtain ⟨ps, hps, rfl, rfl⟩ := read_answer hm
    obtain ⟨ps', hps', rfl, rfl⟩ := read_answer hg
    exact ⟨h, reportStats_eq (filter_perm_find h.listenerSessions hls hls')
      (filter_perm_find h.participantSessions hps hps')⟩

/-- Only `SaveReport` stores a report. -/
theorem Store.step_reports {now : Time} {order order' : List String} {c : StoreCall}
    {a : Except AppError c.Result} (h : m.step now order order' c = some (a, m')) {roomID : String}
    {report : RoomReport} (hl : m'.reportsByRoom.lookup roomID = some report) :
    c = .saveReport report ∨ m.reportsByRoom.lookup roomID = some report := by
  cases c <;> simp only [Store.step, Option.map_eq_some_iff, Option.bind_eq_some_iff,
    Option.some.injEq, Prod.mk.injEq] at h
  case saveReport saved =>
    obtain ⟨-, rfl⟩ := h
    rw [Table.lookup_insert_ite] at hl
    split at hl
    · cases hl
      exact .inl rfl
    · exact .inr hl
  case reportStats => obtain ⟨_, -, _, -, -, rfl⟩ := h; exact .inr hl
  all_goals first
    | (obtain ⟨-, rfl⟩ := h; exact .inr hl)
    | (obtain ⟨_, -, -, rfl⟩ := h; exact .inr hl)

end Step

/-! ## Runs -/

/-- The invariant of a run: the reports still to be saved have new ids. -/
structure Alike (xs : List StoreStep) (p : Store × MongoStore) : Prop where
  twins : Twins p.1 p.2
  records : ServiceRecords xs
  unused : ∀ x ∈ xs, ∀ report, x.call = .saveReport report → ∀ old, p.2.reports.Holds old →
    old.id ≠ report.id

theorem ServiceRecords.tail {x : StoreStep} {xs : List StoreStep} (h : ServiceRecords (x :: xs)) :
    ServiceRecords xs :=
  ⟨fun y hy => h.rooms y (by simp [hy]),
    (List.Sublist.filterMap _ (List.sublist_cons_self x xs)).nodup h.reports⟩

theorem ServiceRecords.head_ne {x y : StoreStep} {xs : List StoreStep}
    (h : ServiceRecords (x :: xs)) (hy : y ∈ xs) {report report' : RoomReport}
    (hx : x.call = .saveReport report) (hy' : y.call = .saveReport report') :
    report.id ≠ report'.id := by
  have hn := h.reports
  rw [List.filterMap_cons, hx] at hn
  intro he
  refine (List.nodup_cons.mp hn).1 (List.mem_filterMap.mpr ⟨y, hy, ?_⟩)
  rw [hy', he]
  rfl

theorem storeLockstep_cases {x : StoreStep} {p p' : Store × MongoStore}
    (h : storeLockstep x p = some p') :
    ∃ r r', p.1.step x.now x.memoryOrder x.memoryOrder' x.call = some (r, p'.1) ∧
      p.2.step x.now x.serverOrder x.serverOrder' x.call = some (r', p'.2) := by
  obtain ⟨⟨r, m⟩, hm, h⟩ := Option.bind_eq_some_iff.mp h
  obtain ⟨⟨r', g⟩, hg, rfl⟩ := Option.map_eq_some_iff.mp h
  exact ⟨r, r', hm, hg⟩

theorem Alike.step {x : StoreStep} {xs : List StoreStep} {p p' : Store × MongoStore}
    (h : Alike (x :: xs) p) (hs : storeLockstep x p = some p') (hfirst : FirstReport p.1 x) :
    Alike xs p' ∧ AnswersAgree p x := by
  obtain ⟨r, r', hm, hg⟩ := storeLockstep_cases hs
  obtain ⟨htwins, hsame⟩ := h.twins.step (h.records.rooms x (by simp)) (h.unused x (by simp))
    hfirst hm hg
  refine ⟨⟨htwins, h.records.tail, ?_⟩, ?_⟩
  · intro y hy report hsave old hold
    have hl := (htwins.reports old.roomID old).mpr ⟨rfl, hold⟩
    rcases Store.step_reports hm hl with hx | hl
    · exact h.records.head_ne hy hx hsave
    · exact h.unused y (by simp [hy]) report hsave old ((h.twins.reports _ old).mp hl).2
  · intro s s' hs hs'
    rw [hm] at hs
    rw [hg] at hs'
    cases hs
    cases hs'
    exact hsame

/-- The server rejects a second report of a room. -/
theorem Alike.diverge {x : StoreStep} {xs : List StoreStep} {p p' : Store × MongoStore}
    (h : Alike (x :: xs) p) (hs : storeLockstep x p = some p') (hfirst : ¬ FirstReport p.1 x) :
    ¬ AnswersAgree p x := by
  intro hsame
  refine hfirst fun report hx => ?_
  by_contra hne
  obtain ⟨r, r', hm, hg⟩ := storeLockstep_cases hs
  have hanswer := hsame _ _ hm hg
  obtain ⟨call, now, order₁, order₁', order₂, order₂'⟩ := x
  obtain rfl : call = .saveReport report := hx
  obtain ⟨e, rfl⟩ := (h.twins.saveReport (h.unused _ List.mem_cons_self report rfl) hg).2 hne
  obtain rfl : r = .ok () := (Prod.mk.inj (Option.some.inj hm)).1.symm
  exact hanswer

def bothNew : Store × MongoStore := (.empty, .empty)

/-- **When the stores agree.** Over any sequence of calls with the records of
the service, both stores answer every call alike iff no report is saved for a
room that has one. -/
theorem stores_agree_iff (xs : List StoreStep) (hrecords : ServiceRecords xs) :
    EachStep storeLockstep (fun p x _ => AnswersAgree p x) xs bothNew ↔
      EachStep storeLockstep (fun p x _ => FirstReport p.1 x) xs bothNew := by
  refine eachStep_iff (R := Alike) (C := fun p x => FirstReport p.1 x)
    (fun _ _ _ _ h hs hf => h.step hs hf) (fun _ _ _ _ h hs hf => h.diverge hs hf) ?_
  have hempty : ∀ report, ¬ MongoStore.empty.reports.Holds report := by
    simp [Collection.Holds, MongoStore.empty, Collection.empty]
  refine ⟨⟨rfl, rfl, rfl, rfl, rfl, rfl, ?_, ?_⟩, hrecords, ?_⟩
  · simp [bothNew, Store.empty, hempty]
  · simp [bothNew, MongoStore.empty, Collection.Holds, Collection.empty]
  · intro _ _ _ _ old hold
    exact absurd hold (hempty old)

/-- A report with id `n` is saved for the room. -/
def reportStep (roomID : String) (n : Fin 100) (order : List String) : StoreStep :=
  ⟨.saveReport ⟨newID prefixReport (sampleUlid n), roomID, .completed, ⟨0, 0, 0, 0, 0, 0⟩, n⟩,
    0, [], [], order, []⟩

def firstReport : List String := [newID prefixReport (sampleUlid 0)]

/-- The report of a room is generated twice: the server keeps the first. -/
theorem stores_agree_fails :
    ¬ EachStep storeLockstep (fun p x _ => AnswersAgree p x)
      [reportStep "room" 0 [], reportStep "room" 1 firstReport] bothNew := by
  intro hall
  have hrun : (runSteps storeLockstep [reportStep "room" 0 []] bothNew).any (fun p =>
      (storeLockstep (reportStep "room" 1 firstReport) p).isSome &&
        (p.1.step 0 [] [] (reportStep "room" 1 firstReport).call).any (fun r => r.1.isOk) &&
        (p.2.step 0 firstReport [] (reportStep "room" 1 firstReport).call).any
          (fun r => !r.1.isOk)) = true := by
    decide +kernel
  obtain ⟨p, hp, hrun⟩ := (Option.any_eq_true _ _).mp hrun
  obtain ⟨hstep, hrejected⟩ := Bool.and_eq_true_iff.mp hrun
  obtain ⟨hstep, htaken⟩ := Bool.and_eq_true_iff.mp hstep
  obtain ⟨p', hp'⟩ := Option.isSome_iff_exists.mp hstep
  obtain ⟨r, hr, hok⟩ := (Option.any_eq_true _ _).mp htaken
  obtain ⟨r', hr', herr⟩ := (Option.any_eq_true _ _).mp hrejected
  have hsame := hall [_] _ [] p p' rfl hp hp' r r' hr hr'
  cases hr₁ : r.1 with
  | error e => simp [hr₁, Except.isOk, Except.toBool] at hok
  | ok a =>
    cases hr₂ : r'.1 with
    | ok a' => simp [hr₂, Except.isOk, Except.toBool] at herr
    | error e =>
      rw [hr₁, hr₂] at hsame
      exact hsame

/-- If the step saves a report, the memory store has none for its room. -/
def savesFirstReport (p : Store × MongoStore) (x : StoreStep) : Bool :=
  match x.call with
  | .saveReport report => (p.1.reportsByRoom.lookup report.roomID).isNone
  | _ => true

theorem firstReport_of_saves (p : Store × MongoStore) (x : StoreStep)
    (h : savesFirstReport p x = true) : FirstReport p.1 x := by
  intro report hcall
  rw [savesFirstReport, hcall] at h
  exact Option.isNone_iff_eq_none.mp h

/-- Reports of two rooms. -/
theorem stores_agree_iff_rooms :
    (runSteps storeLockstep [reportStep "room" 0 [], reportStep "hall" 1 firstReport]
      bothNew).isSome = true ∧
    EachStep storeLockstep (fun p x _ => AnswersAgree p x)
      [reportStep "room" 0 [], reportStep "hall" 1 firstReport] bothNew := by
  refine ⟨by decide +kernel, (stores_agree_iff _ ⟨by simp [reportStep], by decide +kernel⟩).mpr ?_⟩
  exact eachStep_of_checkSteps firstReport_of_saves (by decide +kernel)

end WaveCast
