import WaveCast.Protocol

/-!
# Where the stored records come from

In every run each saved room, listener session and speaker request is either
created under a freshly drawn id or changed from a record its command had
found (`room_saved`, `session_saved`, `request_saved`). Ids are drawn once
(`fresh_draws`), so a record is created once (`room_created_first`,
`session_created_first`).
-/

namespace WaveCast

open Interaction

/-! ## Ids -/

/-- The id a call drew with the given prefix. -/
def idDraws (pfx : String) (e : VoiceEntry) : Option String :=
  match e.exchange with
  | ⟨.newID pfx', id⟩ => if pfx' = pfx then some id else none
  | _ => none

theorem idDraws_eq_some {pfx id : String} {e : VoiceEntry} :
    idDraws pfx e = some id ↔ e.exchange = ⟨.newID pfx, id⟩ := by
  unfold idDraws
  split
  · rename_i pfx' id' he
    rw [he]
    constructor
    · intro h
      split at h
      · subst pfx'; cases h; rfl
      · cases h
    · intro h; cases h; simp
  · rename_i hno
    simp only [reduceCtorEq, false_iff]
    intro h
    exact hno pfx id h

theorem World.exec_issued {I : Infra} {env : Env} {e : Effect} {a : e.Answer} {w w' : World}
    (h : World.exec I env e w = some (a, w')) : w.issued ⊆ w'.issued := by
  cases e with
  | newID pfx =>
    obtain ⟨-, -, rfl⟩ := World.exec_newID h
    exact List.subset_cons_self _ _
  | _ =>
    rcases World.exec_cases h with ⟨-, -, -, rfl⟩ | ⟨-, h⟩
    · exact List.Subset.refl _
    · simp only [World.perform] at h
      first
        | (cases h; exact List.Subset.refl _)
        | (obtain ⟨_, -, he⟩ := Option.map_eq_some_iff.mp h; cases he; exact List.Subset.refl _)

variable {s : Service} {I : Infra} {t : List VoiceEntry} {w : World}

/-- The id was drawn. -/
def World.Issued (w : World) (pfx id : String) : Prop := ∃ u ∈ w.issued, id = newID pfx u

theorem World.Issued.mono {pfx id : String} {env : Env} {e : Effect} {a : e.Answer} {w w' : World}
    (hid : w.Issued pfx id) (h : World.exec I env e w = some (a, w')) : w'.Issued pfx id := by
  obtain ⟨u, hu, rfl⟩ := hid
  exact ⟨u, World.exec_issued h hu, rfl⟩

/-- The id generator never repeats an id. -/
theorem fresh_draws (pfx : String) (h : (s.system I).Replays t w) :
    FreshDraws (idDraws pfx) t := by
  refine System.fresh_of_used (M := s.system I) (U := fun w id => w.Issued pfx id)
    (fun _ _ _ _ _ he _ hid => hid.mono he) ?_ h
  rintro ⟨i, cmd, env, ⟨c, a⟩⟩ w₀ w₁ he id hid
  cases idDraws_eq_some.mp hid
  obtain ⟨hnew, hdrawn, hw⟩ := World.exec_newID he
  refine ⟨?_, env.ulid, by simp [hw], hdrawn⟩
  rintro ⟨u, hu, hold⟩
  obtain rfl := newID_injective pfx (hdrawn.symm.trans hold)
  exact hnew hu

theorem drawn_issued {pfx : String} (h : (s.system I).Replays t w) {e : VoiceEntry} (he : e ∈ t)
    {id : String} (hid : idDraws pfx e = some id) : w.Issued pfx id := by
  refine System.used_of_drawn (M := s.system I) (U := fun w id => w.Issued pfx id)
    (fun _ _ _ _ _ he _ hid => hid.mono he) ?_ h e he id hid
  rintro ⟨i, cmd, env, ⟨c, a⟩⟩ w₀ w₁ he id hid
  cases idDraws_eq_some.mp hid
  obtain ⟨-, hdrawn, hw⟩ := World.exec_newID he
  exact ⟨env.ulid, by simp [hw], hdrawn⟩

abbrev client (e : VoiceEntry) : ℕ := e.thread

/-- A save under an id that the command has drawn, after no other such save, creates a record. -/
theorem creates_of_draw {V : Type} {saved : VoiceExchange → Option (String × V)} {pfx id : String}
    {older : List VoiceEntry} {e : VoiceEntry}
    (hd : ⟨.newID pfx, id⟩ ∈ threadHistory e.thread older)
    (hno : ∀ x ∈ threadHistory e.thread older, saved x = none) :
    Creates (fun e => saved e.exchange) (idDraws pfx) client older e id := by
  obtain ⟨d, hd, hi, hx⟩ := mem_threadHistory.mp hd
  refine ⟨⟨d, hd, hi, idDraws_eq_some.mpr hx⟩, fun f hf hi v hw => ?_⟩
  have hnone := hno f.exchange (mem_threadHistory.mpr ⟨f, hf, hi, rfl⟩)
  simp [hnone] at hw

/-! ## Rooms -/

theorem savedRoom_eq_some {x : VoiceExchange} {k : String} {room : Room} :
    savedRoom x = some (k, room) ↔ x = ⟨.store (.saveRoom room), .ok ()⟩ ∧ k = room.id := by
  constructor
  · intro h
    unfold savedRoom at h
    split at h
    · cases h; exact ⟨rfl, rfl⟩
    · cases h
  · rintro ⟨rfl, rfl⟩
    rfl

/-- What a command does to a room it has read. -/
def RoomChange (room₀ room : Room) : Command → Prop
  | .startRoom c => room₀.id = c.roomID ∧ room₀.Moderates c.actorUserID ∧
      (room₀.status = .draft ∨ room₀.status = .scheduled) ∧ ∃ t, room = startedRoom room₀ t
  | .finishRoom c => room₀.id = c.roomID ∧ room₀.Moderates c.actorUserID ∧
      (room₀.status = .live ∨ room₀.status = .scheduled) ∧ ∃ t, room = finishedRoom room₀ c t
  | .startRecording c => room₀.id = c.roomID ∧ room₀.Moderates c.actorUserID ∧
      room₀.status = .live ∧ ∃ t id, room = withActiveRecording room₀ id t
  | .stopRecording c => room₀.id = c.roomID ∧ room₀.Moderates c.actorUserID ∧
      ∃ t, room = withActiveRecording room₀ "" t
  | _ => False

/-- **Frame of a change**: the status, its times and the active recording are all
that may change of a room. -/
theorem RoomChange.frame {room₀ room : Room} {cmd : Command} (h : RoomChange room₀ room cmd) :
    room₀ = { room with
      status := room₀.status, recording := room₀.recording, startedAt := room₀.startedAt
      endedAt := room₀.endedAt, endedBy := room₀.endedBy, endReason := room₀.endReason
      updatedAt := room₀.updatedAt } := by
  cases cmd with
  | startRoom c => obtain ⟨-, -, -, t, rfl⟩ := h; rfl
  | finishRoom c => obtain ⟨-, -, -, t, rfl⟩ := h; rfl
  | startRecording c => obtain ⟨-, -, -, t, id, rfl⟩ := h; rfl
  | stopRecording c => obtain ⟨-, -, t, rfl⟩ := h; rfl
  | _ => cases h

theorem RoomChange.id_eq {room₀ room : Room} {cmd : Command} (h : RoomChange room₀ room cmd) :
    room.id = room₀.id := by
  rw [h.frame]

/-- Whoever may moderate a room still may after a change. -/
theorem RoomChange.moderates {room₀ room : Room} {cmd : Command} (h : RoomChange room₀ room cmd)
    (userID : String) : room.Moderates userID ↔ room₀.Moderates userID := by
  rw [h.frame]
  rfl

/-- Of a finished room only the active recording can be cleared. -/
theorem RoomChange.of_finished {room₀ room : Room} {cmd : Command}
    (h : RoomChange room₀ room cmd) (hf : room₀.status = .finished) :
    ∃ t, room = withActiveRecording room₀ "" t := by
  cases cmd with
  | startRoom c => obtain ⟨-, -, hst, -⟩ := h; rcases hst with hst | hst <;> simp [hf] at hst
  | finishRoom c => obtain ⟨-, -, hst, -⟩ := h; rcases hst with hst | hst <;> simp [hf] at hst
  | startRecording c => obtain ⟨-, -, hst, -⟩ := h; simp [hf] at hst
  | stopRecording c => exact h.2.2
  | _ => cases h

/-- No change leaves a finished room in another status. -/
theorem RoomChange.status_finished {room₀ room : Room} {cmd : Command}
    (h : RoomChange room₀ room cmd) (hf : room₀.status = .finished) : room.status = .finished := by
  obtain ⟨t, rfl⟩ := h.of_finished hf
  exact hf

/-- `e` changes the room under `k` from a read `r` by its own command, which
reads no other room. -/
def ChangesRoom (older : List VoiceEntry) (e : VoiceEntry) (k : String) (room : Room) : Prop :=
  ∃ mid r rest room₀, older = mid ++ r :: rest ∧ client r = client e ∧
    roomReads r = some (k, room₀) ∧ lastWrite roomSaves k rest = some room₀ ∧
    RoomChange room₀ room e.cmd ∧
    ∀ r' ∈ older, client r' = client e → ∀ k' room', roomReads r' = some (k', room') →
      room' = room₀

def CreatesRoom (s : Service) (older : List VoiceEntry) (e : VoiceEntry) (k : String)
    (room : Room) : Prop :=
  ∃ c t streamID, e.cmd = .createRoom c ∧ trimSpace c.ownerID ≠ "" ∧
    room = s.draftRoom c k streamID t ∧ Creates roomSaves (idDraws prefixRoom) client older e k

theorem stored_room_id {t : List VoiceEntry} {k : String} {room : Room}
    (h : lastWrite roomSaves k t = some room) : room.id = k := by
  obtain ⟨e, -, he⟩ := exists_write_of_lastWrite h
  exact (savedRoom_eq_some.mp he).2.symm

private theorem changes_of_read {older : List VoiceEntry} {e : VoiceEntry} {room : Room}
    (roomID : String) (room₀ : Room) (hc : Coherent roomSaves roomReads older)
    (hr : ⟨.store (.getRoom roomID), .ok room₀⟩ ∈ threadHistory e.thread older)
    (honly : ∀ x ∈ threadHistory e.thread older, ∀ k' room', readRoom x = some (k', room') →
      room' = room₀)
    (hch : room₀.id = roomID → RoomChange room₀ room e.cmd) :
    ChangesRoom older e room.id room := by
  obtain ⟨mid, r, rest, rfl, hi, hx⟩ := exists_read hr
  have hread : roomReads r = some (roomID, room₀) := readRoom_eq_some.mpr hx
  have hlast := hc.at roomID room₀ hread
  have hid := stored_room_id hlast
  have hch := hch hid
  rw [hch.id_eq, hid]
  exact ⟨mid, r, rest, room₀, rfl, hi, hread, hlast, hch, fun r' hr' hi' =>
    honly r'.exchange (mem_threadHistory.mpr ⟨r', hr', hi', rfl⟩)⟩

/-- A room that is saved is a new one or the change of one that was read. -/
theorem room_saved {ms : List VoiceMove} {p : VoicePool} (h : (s.system I).run ms = some p) :
    Always (fun older e => ∀ k room, roomSaves e = some (k, room) →
      CreatesRoom s older e k room ∨ ChangesRoom older e k room) p.trace := by
  rw [always_iff]
  intro newer e older ht k room hs
  have hasks := run_asks h
  have hcoh : Coherent roomSaves roomReads p.trace := rooms_coherent (System.run_replays h)
  rw [ht] at hasks hcoh
  obtain ⟨hx, rfl⟩ := savedRoom_eq_some.mp hs
  have hcoh : Coherent roomSaves roomReads older := hcoh.of_append.2
  have hsave : SavesRoom s (threadHistory e.thread older) room e.cmd := by
    have := hasks.at
    rwa [hx] at this
  cases hcmd : e.cmd with
  | createRoom c =>
    rw [hcmd] at hsave
    obtain ⟨howner, t, roomID, streamID, hh, rfl⟩ := hsave
    exact .inl ⟨c, t, streamID, hcmd, howner, rfl,
      creates_of_draw (by simp [hh, Service.draftRoom]) (by simp [hh, savedRoom])⟩
  | startRoom c =>
    rw [hcmd] at hsave
    obtain ⟨t, room₀, hh, hm, hst, rfl⟩ := hsave
    exact .inr (changes_of_read c.roomID room₀ hcoh (by simp [hh])
      (by simp [hh, readRoom])
      fun hid => by rw [hcmd]; exact ⟨hid, hm, hst, t, rfl⟩)
  | finishRoom c =>
    rw [hcmd] at hsave
    obtain ⟨t, room₀, hh, hm, hst, rfl⟩ := hsave
    exact .inr (changes_of_read c.roomID room₀ hcoh (by simp [hh])
      (by simp [hh, readRoom])
      fun hid => by rw [hcmd]; exact ⟨hid, hm, hst, t, rfl⟩)
  | startRecording c =>
    rw [hcmd] at hsave
    obtain ⟨t, id, room₀, hh, hm, hst, rfl⟩ := hsave
    exact .inr (changes_of_read c.roomID room₀ hcoh (by simp [hh])
      (by simp [hh, readRoom])
      fun hid => by rw [hcmd]; exact ⟨hid, hm, hst, t, id, rfl⟩)
  | stopRecording c =>
    rw [hcmd] at hsave
    obtain ⟨t, recording, room₀, hh, hm, -, rfl⟩ := hsave
    exact .inr (changes_of_read c.roomID room₀ hcoh (by simp [hh])
      (by simp [hh, readRoom])
      fun hid => by rw [hcmd]; exact ⟨hid, hm, t, rfl⟩)
  | _ => rw [hcmd] at hsave; cases hsave

theorem rooms_founded {ms : List VoiceMove} {p : VoicePool} (h : (s.system I).run ms = some p) :
    Founded roomSaves (idDraws prefixRoom) client p.trace := by
  refine (room_saved h).mono fun older e hs k room hw => ?_
  rcases hs k room hw with ⟨-, -, -, -, -, -, hc⟩ | ⟨mid, r, rest, room₀, rfl, -, -, hl, -, -⟩
  · exact .inl hc
  · rw [show mid ++ r :: rest = (mid ++ [r]) ++ rest by simp]
    exact .inr (lastWrite_append_ne_none (by simp [hl]))

/-- Nothing is stored under the id of a room before the room is created. -/
theorem room_created_first {ms : List VoiceMove} {p : VoicePool}
    (h : (s.system I).run ms = some p) :
    Always (fun older e => ∀ k room, CreatesRoom s older e k room →
      lastWrite roomSaves k older = none) p.trace := by
  rw [always_iff]
  rintro newer e older ht k room ⟨-, -, -, -, -, -, hc⟩
  have hfresh := fresh_draws prefixRoom (System.run_replays h)
  have hf := rooms_founded h
  rw [ht] at hfresh hf
  exact hc.first hfresh.of_append.2 hf.of_append.2

/-! ## Listener sessions -/

theorem savedListenerSession_eq_some {x : VoiceExchange} {k : String} {session : ListenerSession} :
    savedListenerSession x = some (k, session) ↔
      x = ⟨.store (.saveListenerSession session), .ok ()⟩ ∧ k = session.id := by
  constructor
  · intro h
    unfold savedListenerSession at h
    split at h
    · cases h; exact ⟨rfl, rfl⟩
    · cases h
  · rintro ⟨rfl, rfl⟩
    rfl

/-- The listener session a call read by its id. -/
def readListenerSession : VoiceExchange → Option (String × ListenerSession)
  | ⟨.store (.getListenerSession sessionID), .ok session⟩ => some (sessionID, session)
  | _ => none

abbrev sessionReads (e : VoiceEntry) : Option (String × ListenerSession) :=
  readListenerSession e.exchange

theorem readListenerSession_eq_some {x : VoiceExchange} {k : String} {session : ListenerSession} :
    readListenerSession x = some (k, session) ↔
      x = ⟨.store (.getListenerSession k), .ok session⟩ := by
  constructor
  · intro h
    unfold readListenerSession at h
    split at h
    · cases h; rfl
    · cases h
  · rintro rfl
    rfl

theorem stored_session_id {t : List VoiceEntry} {k : String} {session : ListenerSession}
    (h : lastWrite sessionSaves k t = some session) : session.id = k := by
  obtain ⟨e, -, he⟩ := exists_write_of_lastWrite h
  exact (savedListenerSession_eq_some.mp he).2.symm

theorem sessions_coherent (h : (s.system I).Replays t w) :
    Coherent sessionSaves sessionReads t := by
  refine System.coherent_of_view (fun t w hw k => lookup_listenerSessions hw k) ?_ h
  rintro ⟨i, cmd, env, x⟩ w₀ w₁ he k session hr
  obtain rfl := readListenerSession_eq_some.mp hr
  exact World.exec_getListenerSession he

/-- A call that returned a list of listener sessions. -/
def listedSessions : VoiceExchange → List ListenerSession
  | ⟨.store (.listActiveListenerSessions _), .ok sessions⟩ => sessions
  | ⟨.store (.listActiveListenerSessionsByUser _ _), .ok sessions⟩ => sessions
  | ⟨.store (.listStaleListenerSessions _ _), .ok sessions⟩ => sessions
  | _ => []

/-- A session that was listed is in the store. -/
theorem World.exec_listed {env : Env} {e : Effect} {a : e.Answer} {w w' : World}
    (h : World.exec I env e w = some (a, w')) {session : ListenerSession}
    (hs : session ∈ listedSessions ⟨e, a⟩) :
    ∃ k, w.store.listenerSessions.lookup k = some session := by
  unfold listedSessions at hs
  split at hs
  · rename_i heq; cases heq
    obtain ⟨st, hst, -⟩ := World.exec_store_ok h
    obtain ⟨xs, hx, hr⟩ := Option.map_eq_some_iff.mp hst
    cases hr
    exact (Table.mem_range hx session).mp (List.mem_filter.mp hs).1
  · rename_i heq; cases heq
    obtain ⟨st, hst, -⟩ := World.exec_store_ok h
    obtain ⟨xs, hx, hr⟩ := Option.map_eq_some_iff.mp hst
    cases hr
    exact (Table.mem_range hx session).mp (List.mem_filter.mp hs).1
  · rename_i heq; cases heq
    obtain ⟨st, hst, -⟩ := World.exec_store_ok h
    obtain ⟨xs, hx, hr⟩ := Option.map_eq_some_iff.mp hst
    cases hr
    split at hs
    · exact (Table.mem_range hx session).mp (List.mem_filter.mp (List.mem_of_mem_take hs)).1
    · exact (Table.mem_range hx session).mp (List.mem_filter.mp hs).1
  · cases hs

theorem listed_stored (h : (s.system I).Replays t w) {session : ListenerSession}
    {mid rest : List VoiceEntry} {r : VoiceEntry} (ht : t = mid ++ r :: rest)
    (hs : session ∈ listedSessions r.exchange) :
    lastWrite sessionSaves session.id t ≠ none := by
  subst ht
  obtain ⟨w₁, w₀, h₀, he⟩ := h.of_append
  obtain ⟨k, hk⟩ := World.exec_listed he hs
  rw [lookup_listenerSessions h₀] at hk
  rw [stored_session_id hk]
  rw [show mid ++ r :: rest = (mid ++ [r]) ++ rest by simp]
  exact lastWrite_append_ne_none (by simp [hk])

/-- What a command does to a listener session it has read by its id. -/
def SessionChange (session₀ session : ListenerSession) : Command → Prop
  | .listenerHeartbeat c => session₀.roomID = c.roomID ∧ session₀.userID = c.userID ∧
      session₀.status = .active ∧ ∃ t, session = touchedSession session₀ t
  | .leaveListener c => session₀.roomID = c.roomID ∧ session₀.userID = c.userID ∧
      ∃ t, session = endedSession session₀ .left (trimSpace c.leaveType) t
  | _ => False

/-- `e` changes the session under `k` from a read `r` by its own command, which
reads no other session. -/
def ChangesSession (older : List VoiceEntry) (e : VoiceEntry) (k : String)
    (session : ListenerSession) : Prop :=
  ∃ mid r rest session₀, older = mid ++ r :: rest ∧ client r = client e ∧
    sessionReads r = some (k, session₀) ∧ lastWrite sessionSaves k rest = some session₀ ∧
    SessionChange session₀ session e.cmd ∧
    ∀ r' ∈ older, client r' = client e → ∀ k' session', sessionReads r' = some (k', session') →
      session' = session₀

def CreatesSession (older : List VoiceEntry) (e : VoiceEntry) (k : String)
    (session : ListenerSession) : Prop :=
  ∃ c t room, e.cmd = .joinRoom c ∧ session = newListenerSession room c.userID k t ∧
    Creates sessionSaves (idDraws prefixListenerSession) client older e k

/-- `e` ends a session it found in a list. -/
def EndsSession (older : List VoiceEntry) (e : VoiceEntry) (k : String)
    (session : ListenerSession) : Prop :=
  (∀ c, e.cmd ≠ .listenerHeartbeat c) ∧ session.status ≠ .active ∧
    lastWrite sessionSaves k older ≠ none

private theorem changes_of_session_read {older : List VoiceEntry} {e : VoiceEntry}
    {session : ListenerSession} (sessionID : String) (session₀ : ListenerSession)
    (hc : Coherent sessionSaves sessionReads older)
    (hr : ⟨.store (.getListenerSession sessionID), .ok session₀⟩ ∈ threadHistory e.thread older)
    (honly : ∀ x ∈ threadHistory e.thread older, ∀ k' session',
      readListenerSession x = some (k', session') → session' = session₀)
    (hid : session.id = session₀.id) (hch : SessionChange session₀ session e.cmd) :
    ChangesSession older e session.id session := by
  obtain ⟨mid, r, rest, rfl, hi, hx⟩ := exists_read hr
  have hread : sessionReads r = some (sessionID, session₀) := readListenerSession_eq_some.mpr hx
  have hlast := hc.at sessionID session₀ hread
  rw [hid, stored_session_id hlast]
  exact ⟨mid, r, rest, session₀, rfl, hi, hread, hlast, hch, fun r' hr' hi' =>
    honly r'.exchange (mem_threadHistory.mpr ⟨r', hr', hi', rfl⟩)⟩

private theorem ends_of_list {older : List VoiceEntry} {e : VoiceEntry} {x : VoiceExchange}
    {session session₀ : ListenerSession} (h : (s.system I).Replays older w)
    (hx : x ∈ threadHistory e.thread older) (hs : session₀ ∈ listedSessions x)
    (hid : session.id = session₀.id) (hst : session.status ≠ .active)
    (hcmd : ∀ c, e.cmd ≠ .listenerHeartbeat c) : EndsSession older e session.id session := by
  obtain ⟨mid, r, rest, ht, hi, rfl⟩ := exists_read hx
  refine ⟨hcmd, hst, ?_⟩
  rw [hid]
  exact listed_stored h ht hs

/-- A listener session that is saved is a new one, the change of one that was
read, or the end of one that was listed. -/
theorem session_saved {ms : List VoiceMove} {p : VoicePool} (h : (s.system I).run ms = some p) :
    Always (fun older e => ∀ k session, sessionSaves e = some (k, session) →
      CreatesSession older e k session ∨ ChangesSession older e k session ∨
        EndsSession older e k session) p.trace := by
  rw [always_iff]
  intro newer e older ht k session hs
  have hasks := run_asks h
  have hrep := System.run_replays h
  rw [ht] at hasks hrep
  obtain ⟨w₁, w₀, hrep, -⟩ := hrep.of_append
  have hcoh := sessions_coherent hrep
  obtain ⟨hx, rfl⟩ := savedListenerSession_eq_some.mp hs
  have hsave : SavesListenerSession (threadHistory e.thread older) session e.cmd := by
    have := hasks.at
    rwa [hx] at this
  cases hcmd : e.cmd with
  | joinRoom c =>
    rw [hcmd] at hsave
    obtain ⟨t, sessionID, room, hh, -, rfl⟩ := hsave
    exact .inl ⟨c, t, room, hcmd, rfl,
      creates_of_draw (by simp [hh, newListenerSession]) (by simp [hh, savedListenerSession])⟩
  | listenerHeartbeat c =>
    rw [hcmd] at hsave
    obtain ⟨t, session₀, hh, hr, hu, ha, rfl⟩ := hsave
    exact .inr (.inl (changes_of_session_read c.sessionID session₀ hcoh (by simp [hh])
      (by simp [hh, readListenerSession]) rfl (by rw [hcmd]; exact ⟨hr, hu, ha, t, rfl⟩)))
  | leaveListener c =>
    rw [hcmd] at hsave
    obtain ⟨t, session₀, hh, hr, hu, rfl⟩ := hsave
    exact .inr (.inl (changes_of_session_read c.sessionID session₀ hcoh (by simp [hh])
      (by simp [hh, readListenerSession]) rfl (by rw [hcmd]; exact ⟨hr, hu, t, rfl⟩)))
  | removeParticipant c =>
    rw [hcmd] at hsave
    obtain ⟨t, room, sessions, session₀, -, -, hl, -, hm, rfl⟩ := hsave
    exact .inr (.inr (ends_of_list hrep hl hm rfl (by simp [removedSession]) (by simp [hcmd])))
  | expireStaleListenerSessions cutoff limit correlationID =>
    rw [hcmd] at hsave
    obtain ⟨t, sessions, session₀, hl, -, hm, rfl⟩ := hsave
    exact .inr (.inr (ends_of_list hrep hl hm rfl (by simp [endedSession]) (by simp [hcmd])))
  | closeRoomSessions roomID endedAt correlationID =>
    rw [hcmd] at hsave
    obtain ⟨sessions, session₀, hl, hm, rfl⟩ := hsave
    exact .inr (.inr (ends_of_list hrep hl hm rfl (by simp [endedSession]) (by simp [hcmd])))
  | _ => rw [hcmd] at hsave; cases hsave

theorem sessions_founded {ms : List VoiceMove} {p : VoicePool}
    (h : (s.system I).run ms = some p) :
    Founded sessionSaves (idDraws prefixListenerSession) client p.trace := by
  refine (session_saved h).mono fun older e hs k session hw => ?_
  rcases hs k session hw with ⟨-, -, -, -, -, hc⟩ |
    ⟨mid, r, rest, session₀, rfl, -, -, hl, -, -⟩ | hends
  · exact .inl hc
  · rw [show mid ++ r :: rest = (mid ++ [r]) ++ rest by simp]
    exact .inr (lastWrite_append_ne_none (by simp [hl]))
  · exact .inr hends.2.2

/-- Nothing is stored under the id of a session before it is created. -/
theorem session_created_first {ms : List VoiceMove} {p : VoicePool}
    (h : (s.system I).run ms = some p) :
    Always (fun older e => ∀ k session, CreatesSession older e k session →
      lastWrite sessionSaves k older = none) p.trace := by
  rw [always_iff]
  rintro newer e older ht k session ⟨-, -, -, -, -, hc⟩
  have hfresh := fresh_draws prefixListenerSession (System.run_replays h)
  have hf := sessions_founded h
  rw [ht] at hfresh hf
  exact hc.first hfresh.of_append.2 hf.of_append.2

/-! ## Speaker requests -/

theorem savedSpeakerRequest_eq_some {x : VoiceExchange} {k : String} {request : SpeakerRequest} :
    savedSpeakerRequest x = some (k, request) ↔
      x = ⟨.store (.saveSpeakerRequest request), .ok ()⟩ ∧ k = request.id := by
  constructor
  · intro h
    unfold savedSpeakerRequest at h
    split at h
    · cases h; exact ⟨rfl, rfl⟩
    · cases h
  · rintro ⟨rfl, rfl⟩
    rfl

/-- The request a call read by its id. -/
def readSpeakerRequest : VoiceExchange → Option (String × SpeakerRequest)
  | ⟨.store (.getSpeakerRequest requestID), .ok request⟩ => some (requestID, request)
  | _ => none

abbrev requestReads (e : VoiceEntry) : Option (String × SpeakerRequest) :=
  readSpeakerRequest e.exchange

theorem readSpeakerRequest_eq_some {x : VoiceExchange} {k : String} {request : SpeakerRequest} :
    readSpeakerRequest x = some (k, request) ↔
      x = ⟨.store (.getSpeakerRequest k), .ok request⟩ := by
  constructor
  · intro h
    unfold readSpeakerRequest at h
    split at h
    · cases h; rfl
    · cases h
  · rintro rfl
    rfl

theorem requests_coherent (h : (s.system I).Replays t w) :
    Coherent requestSaves requestReads t := by
  refine System.coherent_of_view (fun t w hw k => lookup_speakerRequests hw k) ?_ h
  rintro ⟨i, cmd, env, x⟩ w₀ w₁ he k request hr
  obtain rfl := readSpeakerRequest_eq_some.mp hr
  exact World.exec_getSpeakerRequest he

theorem stored_request_id {t : List VoiceEntry} {k : String} {request : SpeakerRequest}
    (h : lastWrite requestSaves k t = some request) : request.id = k := by
  obtain ⟨e, -, he⟩ := exists_write_of_lastWrite h
  exact (savedSpeakerRequest_eq_some.mp he).2.symm

def CreatesRequest (older : List VoiceEntry) (e : VoiceEntry) (k : String)
    (request : SpeakerRequest) : Prop :=
  ∃ c t room, e.cmd = .requestToSpeak c ∧ WasStored roomSaves older c.roomID room ∧
    room.status = .live ∧ request = pendingRequest room c.userID k t

/-- The decision a command takes, if it is one. -/
def decision : Command → Option (DecideSpeakerRequestCommand × SpeakerRequestStatus)
  | .approveSpeakerRequest c => some (c, .approved)
  | .declineSpeakerRequest c => some (c, .declined)
  | _ => none

theorem decision_ne_pending {cmd : Command} {c : DecideSpeakerRequestCommand}
    {status : SpeakerRequestStatus} (h : decision cmd = some (c, status)) : status ≠ .pending := by
  unfold decision at h
  split at h
  · cases h; simp
  · cases h; simp
  · cases h

def DecidesRequest (older : List VoiceEntry) (e : VoiceEntry) (k : String)
    (request : SpeakerRequest) : Prop :=
  ∃ c status t room request₀, decision e.cmd = some (c, status) ∧
    WasStored roomSaves older c.roomID room ∧ room.Moderates c.actorUserID ∧
    WasStored requestSaves older k request₀ ∧ request₀.roomID = room.id ∧
    request₀.status = .pending ∧ request = decidedRequest request₀ c status t

theorem room_was_stored {older : List VoiceEntry} {i : ℕ} {roomID : String} {room : Room}
    (hc : Coherent roomSaves roomReads older)
    (hr : ⟨.store (.getRoom roomID), .ok room⟩ ∈ threadHistory i older) :
    WasStored roomSaves older roomID room := by
  obtain ⟨r, hr, -, hx⟩ := mem_threadHistory.mp hr
  exact hc.wasStored hr (readRoom_eq_some.mpr hx)

theorem request_was_stored {older : List VoiceEntry} {i : ℕ} {requestID : String}
    {request : SpeakerRequest} (hc : Coherent requestSaves requestReads older)
    (hr : ⟨.store (.getSpeakerRequest requestID), .ok request⟩ ∈ threadHistory i older) :
    WasStored requestSaves older requestID request := by
  obtain ⟨r, hr, -, hx⟩ := mem_threadHistory.mp hr
  exact hc.wasStored hr (readSpeakerRequest_eq_some.mpr hx)

/-- The approved request a role was resolved by was stored as approved. -/
theorem approved_was_stored {older : List VoiceEntry} {i : ℕ} {roomID userID : String}
    {request : SpeakerRequest} (h : (s.system I).Replays older w)
    (hr : ⟨.store (.findApprovedSpeakerRequest roomID userID), .ok request⟩ ∈
      threadHistory i older) :
    (∃ k, WasStored requestSaves older k request) ∧ request.roomID = roomID ∧
      request.userID = userID ∧ request.status = .approved := by
  obtain ⟨mid, ⟨j, cmd, env, x⟩, rest, rfl, hi, rfl⟩ := exists_read hr
  obtain ⟨w₁, w₀, h₀, he⟩ := h.of_append
  obtain ⟨⟨k, hk⟩, hreq⟩ := World.exec_findApproved he
  rw [lookup_speakerRequests h₀] at hk
  exact ⟨⟨k, mid ++ [_], rest, List.append_cons mid _ rest, hk⟩, hreq⟩

/-- A speaker request that is saved is a new one or the decision on one that
was read. -/
theorem request_saved {ms : List VoiceMove} {p : VoicePool} (h : (s.system I).run ms = some p) :
    Always (fun older e => ∀ k request, requestSaves e = some (k, request) →
      CreatesRequest older e k request ∨ DecidesRequest older e k request) p.trace := by
  rw [always_iff]
  intro newer e older ht k request hs
  have hasks := run_asks h
  have hrep := System.run_replays h
  rw [ht] at hasks hrep
  obtain ⟨w₁, w₀, hrep, -⟩ := hrep.of_append
  have hcoh := rooms_coherent hrep
  obtain ⟨hx, rfl⟩ := savedSpeakerRequest_eq_some.mp hs
  have hsave : SavesSpeakerRequest (threadHistory e.thread older) request e.cmd := by
    have := hasks.at
    rwa [hx] at this
  have decides : ∀ c status, decision e.cmd = some (c, status) →
      Decides (threadHistory e.thread older) request c status →
      DecidesRequest older e request.id request := by
    rintro c status hd ⟨t, room, request₀, hh, hm, hr, hp, rfl⟩
    have hroom := room_was_stored hcoh
      (show ⟨.store (.getRoom c.roomID), .ok room⟩ ∈ threadHistory e.thread older by simp [hh])
    have hreq := request_was_stored (requests_coherent hrep) (show
      ⟨.store (.getSpeakerRequest c.requestID), .ok request₀⟩ ∈ threadHistory e.thread older by
        simp [hh])
    have hid : request₀.id = c.requestID := by
      obtain ⟨_, _, -, hl⟩ := hreq
      exact stored_request_id hl
    exact ⟨c, status, t, room, request₀, hd, hroom, hm, hid ▸ hreq, hr, hp, rfl⟩
  cases hcmd : e.cmd with
  | requestToSpeak c =>
    rw [hcmd] at hsave
    obtain ⟨t, id, room, hh, hlive, rfl⟩ := hsave
    exact .inl ⟨c, t, room, hcmd, room_was_stored hcoh
      (show _ ∈ threadHistory e.thread older by simp [hh]), hlive, rfl⟩
  | approveSpeakerRequest c =>
    rw [hcmd] at hsave decides
    exact .inr (decides c .approved rfl hsave)
  | declineSpeakerRequest c =>
    rw [hcmd] at hsave decides
    exact .inr (decides c .declined rfl hsave)
  | _ => rw [hcmd] at hsave; cases hsave

/-! ## Speaking blocks -/

theorem savedSpeakingBlock_eq_some {x : VoiceExchange} {k : String} {block : SpeakingBlock} :
    savedSpeakingBlock x = some (k, block) ↔
      x = ⟨.store (.saveSpeakingBlock block), .ok ()⟩ ∧ k = block.id := by
  constructor
  · intro h
    unfold savedSpeakingBlock at h
    split at h
    · cases h; exact ⟨rfl, rfl⟩
    · cases h
  · rintro ⟨rfl, rfl⟩
    rfl

end WaveCast
