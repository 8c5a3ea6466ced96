import WaveCast.Candor
import WaveCast.Records
import WaveCast.Results

/-!
# Sequential runs

One command that runs alone, from the store it found to the store it left
(`CommandRun`): the rooms, requests and active blocks afterwards are those from
before and those its protocol lets it save (`room_cases`, `request_cases`,
`block_cases`).
-/

namespace WaveCast

open Interaction

abbrev VoiceJob := Command × List Env

/-- A command that ran alone from the pool `p`, which a run had reached, to `q`. -/
structure CommandRun (s : Service) (I : Infra) (p q : VoicePool) (job : VoiceJob)
    (o : System.Outcome (s.system I) p job q) : Prop where
  before : ∃ ms, (s.system I).run ms = some p
  after : ∃ ms, (s.system I).run ms = some q
  performs : (s.system I).perform job p = some q
  returns : Returns s o.history o.result job.1
  tells : Tells o.history o.result
  asks : Always (fun h x => Asks s job.1 h x.call) o.history

variable {s : Service} {I : Infra}

theorem exists_commandRun {jobs : List VoiceJob} {job : VoiceJob} {p q : VoicePool}
    (hp : (s.system I).serial jobs = some p) (h : (s.system I).perform job p = some q) :
    ∃ o, CommandRun s I p q job o := by
  obtain ⟨o, hr, ha⟩ := System.perform_outcome h (((program_asks s job.1).and
    (program_returns s job.1)).and ((program_candid s job.1).follows [] clean_nil))
  exact ⟨o, System.serial_isRun hp, System.serial_isRun (System.serial_concat.mpr ⟨p, hp, h⟩), h,
    hr.1.2, hr.2, ha.mono fun _ _ h => h.1.1⟩

/-- The command that was started last has ended with an error. -/
def lastFailed (q : VoicePool) : Bool :=
  q.threads.getLast?.any fun t => match t.rest with | .fail _ => true | _ => false

theorem threads_of_lastFailed {p q : VoicePool} {job : VoiceJob}
    (h : (s.system I).perform job p = some q) (hf : lastFailed q = true) :
    ∃ e, q.threads = p.threads ++ [⟨job.1, .fail e⟩] := by
  obtain ⟨o, -⟩ := System.perform_outcome h (program_asks s job.1)
  cases hr : o.result with
  | ok reply => simp [lastFailed, o.threads_eq, hr] at hf
  | error e => exact ⟨e, by rw [o.threads_eq, hr]; rfl⟩

theorem threads_of_not_lastFailed {p q : VoicePool} {job : VoiceJob}
    (h : (s.system I).perform job p = some q) (hf : lastFailed q = false) :
    ∃ reply, q.threads = p.threads ++ [⟨job.1, .ret reply⟩] := by
  obtain ⟨o, -⟩ := System.perform_outcome h (program_asks s job.1)
  cases hr : o.result with
  | ok reply => exact ⟨reply, by rw [o.threads_eq, hr]; rfl⟩
  | error e => simp [lastFailed, o.threads_eq, hr] at hf

/-- The command turns a pending request of the store into `request`. -/
def DecidedNow (w : World) (request : SpeakerRequest) (cmd : Command) : Prop :=
  ∃ c status t room request₀, decision cmd = some (c, status) ∧
    w.store.rooms.lookup c.roomID = some room ∧ room.Moderates c.actorUserID ∧
    w.store.speakerRequests.lookup c.requestID = some request₀ ∧
    request₀.roomID = room.id ∧ request₀.status = .pending ∧
    request = decidedRequest request₀ c status t

namespace CommandRun

variable {p q : VoicePool} {cmd : Command} {envs : List Env}
  {o : System.Outcome (s.system I) p (cmd, envs) q} (r : CommandRun s I p q (cmd, envs) o)

include r

theorem replays_before : (s.system I).Replays p.trace p.state := by
  obtain ⟨ms, h⟩ := r.before
  exact System.run_replays h

theorem replays_after : (s.system I).Replays q.trace q.state := by
  obtain ⟨ms, h⟩ := r.after
  exact System.run_replays h

theorem asks_at {newer older : List VoiceEntry} {e : VoiceEntry}
    (ht : o.entries = newer ++ e :: older) :
    Asks s cmd (older.map (·.exchange)) e.exchange.call := by
  have h := r.asks
  simp only [System.Outcome.history, ht, List.map_append, List.map_cons] at h
  exact h.at

/-- A command that succeeds has made no call that failed, jobs apart. -/
theorem calm {reply : Reply} (hres : o.result = .ok reply) (hcmd : ∀ c, cmd ≠ .finishRoom c) :
    ∀ env ∈ envs, env.fails = false := by
  intro env henv
  have hclean : Clean o.history := by
    by_contra hno
    exact not_internal_ok reply (hres ▸ r.tells.mpr hno)
  rw [← List.mem_reverse, ← o.envs_eq r.performs] at henv
  obtain ⟨e, he, rfl⟩ := List.mem_map.mp henv
  obtain ⟨w, w', hx⟩ := o.replays.executed he
  have hfailed := mt (World.exec_internal hx).mpr (hclean _ (List.mem_map_of_mem he))
  obtain ⟨newer, older, hentries⟩ := List.append_of_mem he
  have hasks := r.asks_at hentries
  by_contra hfails
  refine hfailed ⟨by simpa using hfails, fun job hjob => ?_⟩
  -- only `FinishRoom` enqueues jobs
  rw [hjob] at hasks
  cases cmd with
  | finishRoom c => exact hcmd c rfl
  | _ => exact hasks

/-- A room that was read before any room was saved is the one from before. -/
theorem room_read {newer older : List VoiceEntry} (ht : o.entries = newer ++ older)
    (roomID : String) (room : Room)
    (hr : ⟨.store (.getRoom roomID), .ok room⟩ ∈ older.map (·.exchange))
    (hno : ∀ x ∈ older.map (·.exchange), savedRoom x = none) :
    p.state.store.rooms.lookup roomID = some room := by
  obtain ⟨e, he, hx⟩ := List.mem_map.mp hr
  exact o.read_before_writes
    (fun t w hw k => lookup_rooms hw k) r.replays_before (rooms_coherent r.replays_after) ht he
    (readRoom_eq_some.mpr hx) fun e he => hno _ (List.mem_map_of_mem he)

theorem room_id {k : String} {room : Room} (h : p.state.store.rooms.lookup k = some room) :
    room.id = k := by
  rw [lookup_rooms r.replays_before] at h
  exact stored_room_id h

/-- A request that was read before any request was saved is the one from before. -/
theorem request_read {newer older : List VoiceEntry} (ht : o.entries = newer ++ older)
    (requestID : String) (request : SpeakerRequest)
    (hr : ⟨.store (.getSpeakerRequest requestID), .ok request⟩ ∈ older.map (·.exchange))
    (hno : ∀ x ∈ older.map (·.exchange), savedSpeakerRequest x = none) :
    p.state.store.speakerRequests.lookup requestID = some request := by
  obtain ⟨e, he, hx⟩ := List.mem_map.mp hr
  exact o.read_before_writes
    (fun t w hw k => lookup_speakerRequests hw k) r.replays_before
    (requests_coherent r.replays_after) ht he (readSpeakerRequest_eq_some.mpr hx)
    fun e he => hno _ (List.mem_map_of_mem he)

/-- `CreateRoom` stores its room under a key that held nothing. -/
theorem created_first {newer older : List VoiceEntry} {e : VoiceEntry} {c : CreateRoomCommand}
    (hcreate : cmd = .createRoom c) (ht : o.entries = newer ++ e :: older)
    {k : String} {room : Room} (hw : roomSaves e = some (k, room)) :
    p.state.store.rooms.lookup k = none := by
  obtain ⟨ms, hms⟩ := r.after
  have hq : q.trace = newer ++ e :: (older ++ p.trace) := by simp [o.trace_eq, ht]
  have hsaved := (room_saved hms).and (room_created_first hms)
  rw [hq] at hsaved
  have hcmd : e.cmd = .createRoom c := (o.own e (by simp [ht])).2.1.trans hcreate
  rcases hsaved.at.1 k room hw with hc | ⟨_, _, _, _, -, -, -, -, hch, -⟩
  · have hnone := hsaved.at.2 k room hc
    rw [lastWrite_append, Option.or_eq_none_iff] at hnone
    rw [lookup_rooms r.replays_before]
    exact hnone.2
  · rw [hcmd] at hch
    cases hch

/-- Where a room that is there after the command comes from. -/
theorem room_cases {k : String} {room : Room}
    (h : q.state.store.rooms.lookup k = some room) :
    (p.state.store.rooms.lookup k = none ∧ ∃ c, cmd = .createRoom c ∧ room.status = .draft) ∨
    (∃ room₀, p.state.store.rooms.lookup k = some room₀ ∧ RoomChange room₀ room cmd ∧
      ⟨.store (.saveRoom room), .ok ()⟩ ∈ o.history) ∨
    p.state.store.rooms.lookup k = some room := by
  rcases o.written_or_kept (fun t w hw k => lookup_rooms hw k)
    r.replays_before r.replays_after h with ⟨newer, e, older, ht, hw⟩ | hkept
  · obtain ⟨hx, rfl⟩ := savedRoom_eq_some.mp hw
    have hsave := r.asks_at ht
    rw [hx] at hsave
    have ht' : o.entries = (newer ++ [e]) ++ older := by simp [ht]
    have changed : ∀ roomID (room₀ : Room),
        ⟨.store (.getRoom roomID), .ok room₀⟩ ∈ older.map (·.exchange) →
        (∀ x ∈ older.map (·.exchange), savedRoom x = none) →
        (room₀.id = roomID → RoomChange room₀ room cmd) →
        ∃ room₀, p.state.store.rooms.lookup room.id = some room₀ ∧ RoomChange room₀ room cmd ∧
          ⟨.store (.saveRoom room), .ok ()⟩ ∈ o.history := by
      intro roomID room₀ hr hno hch
      have hlookup := r.room_read ht' roomID room₀ hr hno
      have hid := r.room_id hlookup
      have hch := hch hid
      exact ⟨room₀, by rw [hch.id_eq, hid]; exact hlookup, hch,
        hx ▸ List.mem_map_of_mem (by simp [ht])⟩
    cases cmd with
    | createRoom c =>
      have hfirst := r.created_first rfl ht hw
      obtain ⟨-, t, roomID, streamID, -, rfl⟩ := hsave
      exact .inl ⟨hfirst, c, rfl, rfl⟩
    | startRoom c =>
      obtain ⟨t, room₀, hh, hm, hst, rfl⟩ := hsave
      exact .inr (.inl (changed c.roomID room₀ (by simp [hh]) (by simp [hh, savedRoom])
        fun hid => ⟨hid, hm, hst, t, rfl⟩))
    | finishRoom c =>
      obtain ⟨t, room₀, hh, hm, hst, rfl⟩ := hsave
      exact .inr (.inl (changed c.roomID room₀ (by simp [hh]) (by simp [hh, savedRoom])
        fun hid => ⟨hid, hm, hst, t, rfl⟩))
    | startRecording c =>
      obtain ⟨t, id, room₀, hh, hm, hst, rfl⟩ := hsave
      exact .inr (.inl (changed c.roomID room₀ (by simp [hh]) (by simp [hh, savedRoom])
        fun hid => ⟨hid, hm, hst, t, id, rfl⟩))
    | stopRecording c =>
      obtain ⟨t, recording, room₀, hh, hm, -, rfl⟩ := hsave
      exact .inr (.inl (changed c.roomID room₀ (by simp [hh]) (by simp [hh, savedRoom])
        fun hid => ⟨hid, hm, t, rfl⟩))
    | _ => cases hsave
  · exact .inr (.inr hkept)

/-- A request that was saved is a new one, or decides one from before. -/
theorem request_saved {request : SpeakerRequest}
    (h : ⟨.store (.saveSpeakerRequest request), .ok ()⟩ ∈ o.history) :
    ((∃ c, cmd = .requestToSpeak c) ∧ request.status = .pending) ∨
      DecidedNow p.state request cmd := by
  obtain ⟨e, he, hx⟩ := List.mem_map.mp h
  obtain ⟨newer, older, ht⟩ := List.append_of_mem he
  have hsave := r.asks_at ht
  rw [hx] at hsave
  have ht' : o.entries = (newer ++ [e]) ++ older := by simp [ht]
  have decided : ∀ c status, decision cmd = some (c, status) →
      Decides (older.map (·.exchange)) request c status → DecidedNow p.state request cmd := by
    rintro c status hd ⟨t, room, request₀, hh, hm, hr, hp, rfl⟩
    have hroom := r.room_read ht' c.roomID room (by simp [hh]) (by simp [hh, savedRoom])
    have hreq := r.request_read ht' c.requestID request₀ (by simp [hh])
      (by simp [hh, savedSpeakerRequest])
    exact ⟨c, status, t, room, request₀, hd, hroom, hm, hreq, hr, hp, rfl⟩
  cases cmd with
  | requestToSpeak c =>
    obtain ⟨t, id, room, -, -, rfl⟩ := hsave
    exact .inl ⟨⟨c, rfl⟩, rfl⟩
  | approveSpeakerRequest c => exact .inr (decided c .approved rfl hsave)
  | declineSpeakerRequest c => exact .inr (decided c .declined rfl hsave)
  | _ => cases hsave

/-- Where a request that is there after the command comes from. -/
theorem request_cases {k : String} {request : SpeakerRequest}
    (h : q.state.store.speakerRequests.lookup k = some request) :
    ⟨.store (.saveSpeakerRequest request), .ok ()⟩ ∈ o.history ∨
      p.state.store.speakerRequests.lookup k = some request := by
  rcases o.written_or_kept (fun t w hw k => lookup_speakerRequests hw k)
    r.replays_before r.replays_after h with ⟨newer, e, older, ht, hw⟩ | hkept
  · rw [← (savedSpeakerRequest_eq_some.mp hw).1]
    exact .inl (List.mem_map_of_mem (by simp [ht]))
  · exact .inr hkept

/-- Where an active block that is there after the command comes from. -/
theorem block_cases {k : String} {block : SpeakingBlock}
    (h : q.state.store.speakingBlocks.lookup k = some block) (hactive : block.unblockedAt = none) :
    (∃ c room, cmd = .blockSpeaking c ∧ p.state.store.rooms.lookup c.roomID = some room ∧
      room.Moderates c.actorUserID ∧ block.roomID = c.roomID ∧ block.userID = c.targetUserID) ∨
    p.state.store.speakingBlocks.lookup k = some block := by
  rcases o.written_or_kept (fun t w hw k => lookup_speakingBlocks hw k)
    r.replays_before r.replays_after h with ⟨newer, e, older, ht, hw⟩ | hkept
  · obtain ⟨hx, rfl⟩ := savedSpeakingBlock_eq_some.mp hw
    have hsave := r.asks_at ht
    rw [hx] at hsave
    have ht' : o.entries = (newer ++ [e]) ++ older := by simp [ht]
    cases cmd with
    | blockSpeaking c =>
      obtain ⟨t, id, room, hh, hm, rfl⟩ := hsave
      have hroom := r.room_read ht' c.roomID room (by simp [hh])
        (by simp [hh, savedRoom])
      exact .inl ⟨c, room, rfl, hroom, hm, r.room_id hroom, rfl⟩
    | unblockSpeaking c =>
      obtain ⟨t, room, block₀, -, -, rfl⟩ := hsave
      cases hactive
    | _ => cases hsave
  · exact .inr hkept

theorem no_room_saves (h : ∀ hist room, ¬ SavesRoom s hist room cmd) :
    ∀ e ∈ o.entries, roomSaves e = none := by
  intro e he
  obtain ⟨newer, older, ht⟩ := List.append_of_mem he
  refine Option.eq_none_iff_forall_ne_some.mpr fun ⟨k, room⟩ hw =>
    h (older.map (·.exchange)) room ?_
  have hsave := r.asks_at ht
  rwa [(savedRoom_eq_some.mp hw).1] at hsave

theorem no_request_saves (h : ∀ hist request, ¬ SavesSpeakerRequest hist request cmd) :
    ∀ e ∈ o.entries, requestSaves e = none := by
  intro e he
  obtain ⟨newer, older, ht⟩ := List.append_of_mem he
  refine Option.eq_none_iff_forall_ne_some.mpr fun ⟨k, request⟩ hw =>
    h (older.map (·.exchange)) request ?_
  have hsave := r.asks_at ht
  rwa [(savedSpeakerRequest_eq_some.mp hw).1] at hsave

theorem no_block_saves (h : ∀ hist block, ¬ SavesSpeakingBlock hist block cmd) :
    ∀ e ∈ o.entries, blockSaves e = none := by
  intro e he
  obtain ⟨newer, older, ht⟩ := List.append_of_mem he
  refine Option.eq_none_iff_forall_ne_some.mpr fun ⟨k, block⟩ hw =>
    h (older.map (·.exchange)) block ?_
  have hsave := r.asks_at ht
  rwa [(savedSpeakingBlock_eq_some.mp hw).1] at hsave

end CommandRun

end WaveCast
