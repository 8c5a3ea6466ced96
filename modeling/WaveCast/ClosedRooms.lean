import WaveCast.Finishing
import WaveCast.Refusals
import WaveCast.Rounds
import WaveCast.SessionChanges

/-!
# Closed rooms

A room is closed when it is finished and an execution of `CloseRoomSessions`
has reached its end. On stores that do not fail its listeners stay out from
then on (`closed_room_listeners`). Its speakers do not: nothing ends their
sessions, so none is active afterwards iff none was before the closing
(`closed_room_speakers_iff`).
-/

namespace WaveCast

open Interaction WaveCast.Action Program Service

/-- A sequential run finishes the room and later takes the pool `p` to `q` by
an execution of `CloseRoomSessions` that returns no error. -/
def Closes (s : Service) (I : Infra) (roomID : String) (p q : VoicePool) : Prop :=
  ∃ pre mid p₀ room endedAt correlationID envs reply,
    (s.system I).serial pre = some p₀ ∧ p₀.state.store.rooms.lookup roomID = some room ∧
    room.status = .finished ∧ (s.system I).performAll mid p₀ = some p ∧
    (s.system I).perform (.closeRoomSessions roomID endedAt correlationID, envs) p = some q ∧
    q.threads = p.threads ++ [⟨.closeRoomSessions roomID endedAt correlationID, .ret reply⟩]

/-! ## Finished rooms -/

/-- The room is stored as finished. -/
def World.RoomFinished (w : World) (roomID : String) : Prop :=
  ∃ room, w.store.rooms.lookup roomID = some room ∧ room.status = .finished

/-- The room that a command lets somebody into. -/
def entered : Command → Option String
  | .joinRoom c => some c.roomID
  | .createSpeakerSession c => some c.roomID
  | _ => none

section Finished

variable {s : Service} {I : Infra} {w : World} {p q : VoicePool} {cmd : Command} {roomID : String}

/-- The room is read, and the command goes on only when it is live. -/
theorem notLive_refuses {α : Type} (hw : w.RoomFinished roomID) (f : Room → Action α) :
    Ensures (S := effects) (World.exec I) (fun _ r w' => (∃ e, r = .error e) ∧ w' = w) [] w
      ((store (.getRoom roomID)).bind fun room =>
        (require (room.status = .live) .roomNotLive).bind fun _ => f room) := by
  refine ensures_read (c := .getRoom roomID) trivial (fun env room h hx => ?_)
    fun _ e => ⟨⟨e, rfl⟩, rfl⟩
  obtain ⟨room', hl, hf⟩ := hw
  cases hl.symm.trans (World.exec_getRoom hx)
  simp [require, hf]

theorem notLive_ends {α : Type} (hw : w.RoomFinished roomID) (f : Room → Action α) :
    Program.eval (S := effects) (World.exec I) [sampleEnv 0 []]
      ((store (.getRoom roomID)).bind fun room =>
        (require (room.status = .live) .roomNotLive).bind fun _ => f room) w =
      some (.error .roomNotLive, w) := by
  obtain ⟨room, hl, hf⟩ := hw
  simp [store, ask, Program.eval, Program.perform, World.exec, World.perform, Store.step,
    sampleEnv, hl, Store.found, require, hf]

/-- **Nobody gets into a finished room.** -/
theorem entry_refused (hw : p.state.RoomFinished roomID) (hcmd : entered cmd = some roomID) :
    Refused s I p cmd := by
  have hprogram : ∃ f : Room → Action Reply, s.program cmd =
      (store (.getRoom roomID)).bind fun room =>
        (require (room.status = .live) .roomNotLive).bind fun _ => f room := by
    cases cmd with
    | joinRoom c | createSpeakerSession c =>
      cases hcmd
      simp only [Service.program, joinRoom, createSpeakerSession, map_eq, bind_eq, bind_assoc]
      exact ⟨_, rfl⟩
    | _ => cases hcmd
  obtain ⟨f, hf⟩ := hprogram
  refine refused_of_ensures ?_ ⟨[sampleEnv 0 []], .error .roomNotLive, p.state, ?_⟩
  · rw [hf]
    exact notLive_refuses hw f
  · rw [hf]
    exact notLive_ends hw f

theorem roomFinished_kept {envs : List Env} {o : System.Outcome (s.system I) p (cmd, envs) q}
    (r : CommandRun s I p q (cmd, envs) o) (hp : p.state.RoomFinished roomID) :
    q.state.RoomFinished roomID := by
  obtain ⟨room, hl, hf⟩ := hp
  exact finished_kept r hl hf

/-- A room that was finished is finished when it is closed. -/
theorem Closes.finished (h : Closes s I roomID p q) :
    (∃ jobs, (s.system I).serial jobs = some p) ∧ p.state.RoomFinished roomID := by
  obtain ⟨pre, mid, p₀, room, -, -, -, -, hpre, hl, hf, hmid, -⟩ := h
  refine ⟨⟨_, System.serial_append hpre hmid⟩, ?_⟩
  refine System.performAll_induction (I := fun p => p.state.RoomFinished roomID) ?_ hpre
    ⟨room, hl, hf⟩ hmid
  rintro pre p ⟨cmd, envs⟩ q hp hfin hq
  obtain ⟨o, r⟩ := exists_commandRun hp hq
  exact roomFinished_kept r hfin

end Finished

/-! ## Listeners -/

/-- The room is finished and none of its listener sessions is active. -/
structure World.ListenersOut (w : World) (roomID : String) : Prop where
  finished : w.RoomFinished roomID
  inactive : ∀ k session, w.store.listenerSessions.lookup k = some session →
    session.roomID = roomID → session.status ≠ .active

section Listeners

variable {s : Service} {I : Infra} {w : World} {p q : VoicePool} {cmd : Command} {roomID : String}

theorem SessionStep.ended_of_leave {session₀ session : ListenerSession}
    {c : LeaveListenerCommand} (h : SessionStep session₀ session (.leaveListener c)) :
    session.status ≠ .active := by
  obtain ⟨-, -, -, t, rfl⟩ := h
  simp [endedSession]

/-- **Step.** A command keeps the listeners of a closed room out. -/
theorem listenersOut_kept {envs : List Env} {o : System.Outcome (s.system I) p (cmd, envs) q}
    (r : CommandRun s I p q (cmd, envs) o) (hp : p.state.ListenersOut roomID) :
    q.state.ListenersOut roomID := by
  refine ⟨roomFinished_kept r hp.finished, fun k session hl hroom => ?_⟩
  rcases r.session_cases hl with ⟨c, t, room, rfl, hread, hlive, -, rfl⟩ |
    ⟨session₀, hl₀, hstep, hch⟩ | hkept
  · obtain ⟨room', hl', hf⟩ := hp.finished
    have hid : room.id = c.roomID := r.room_id hread
    rw [show c.roomID = roomID from hid.symm.trans hroom] at hread
    cases hl'.symm.trans hread
    rw [hf] at hlive
    cases hlive
  · have hroom₀ : session₀.roomID = roomID :=
      (congrArg (·.2.1) hstep.identity_eq).symm.trans hroom
    obtain ⟨c, rfl⟩ := hch.resolve_left (hp.inactive k session₀ hl₀ hroom₀)
    exact hstep.ended_of_leave
  · exact hp.inactive k session hkept hroom

/-- **Loop.** An execution of `CloseRoomSessions` that reaches its end leaves no
listener of the room, and every speaker. -/
theorem Closes.closed (h : Closes s I roomID p q) : q.state.ListenersOut roomID ∧
    q.state.store.participantSessions = p.state.store.participantSessions ∧
    ∃ jobs, (s.system I).serial jobs = some q := by
  obtain ⟨⟨jobs, hp⟩, hfin⟩ := h.finished
  obtain ⟨-, -, -, -, endedAt, correlationID, envs, reply, -, -, -, -, hq, hreply⟩ := h
  obtain ⟨o, r⟩ := exists_commandRun hp hq
  obtain ⟨ms, hms⟩ := System.serial_isRun hp
  have hfiles : p.state.FilesSessions := (run_keyed hms).listenerSessions.ident_eq
  have hyields := System.perform_ensures hq o
    (closeRoomSessions_yields (s := s) hfiles roomID endedAt correlationID)
  have hthreads := o.threads_eq
  rw [hreply] at hthreads
  cases hr : o.result with
  | error e => simp [hr] at hthreads
  | ok a =>
    rw [hr] at hyields
    obtain ⟨sessions, hsel, hrounds⟩ := hyields
    refine ⟨⟨roomFinished_kept r hfin, fun k session hl hroom hactive => ?_⟩,
      Rounds.participantSessions hrounds, _, System.serial_concat.mpr ⟨p, hp, hq⟩⟩
    by_cases hk : ∃ x ∈ sessions, x.id = k
    · obtain ⟨x, hx, rfl⟩ := hk
      have hended := Rounds.lookup_ended hrounds hsel.nodup hx
      cases hl.symm.trans hended
      cases hactive
    · have hsame := Rounds.lookup_other hrounds fun x hx heq => hk ⟨x, hx, heq⟩
      rw [hl] at hsame
      have hid := hfiles k session hsame.symm
      refine hk ⟨session, (hsel.mem_iff session).mpr ⟨?_, hroom, hactive⟩, hid⟩
      rw [hid]
      exact hsame.symm

theorem listenersOut_later (h : Closes s I roomID p q) {post : List VoiceJob} {q' : VoicePool}
    (hq' : (s.system I).performAll post q = some q') : q'.state.ListenersOut roomID := by
  obtain ⟨hout, -, jobs, hq⟩ := h.closed
  refine System.performAll_induction (I := fun q => q.state.ListenersOut roomID) ?_ hq hout hq'
  rintro pre p ⟨cmd, envs⟩ q hp hout hq
  obtain ⟨o, r⟩ := exists_commandRun hp hq
  exact listenersOut_kept r hout

/-- A heartbeat of a session that has ended is refused. -/
theorem heartbeat_refused {c : ListenerHeartbeatCommand} {session : ListenerSession}
    (hl : p.state.store.listenerSessions.lookup c.sessionID = some session)
    (hended : session.status ≠ .active) : Refused s I p (.listenerHeartbeat c) := by
  refine refused_of_ensures ?_ ⟨[sampleEnv 0 []],
    .error (if session.roomID = c.roomID ∧ session.userID = c.userID then .listenerSessionNotFound
      else .permissionDenied), p.state, ?_⟩
  · simp only [Service.program, listenerHeartbeat, map_eq, bind_eq, bind_assoc]
    refine ensures_read (c := .getListenerSession c.sessionID) trivial (fun env session' h hx => ?_)
      fun _ e => ⟨⟨e, rfl⟩, rfl⟩
    cases hl.symm.trans (World.exec_getListenerSession hx)
    rw [ensures_require, ensures_require]
    refine ⟨fun _ => ⟨fun hactive => ?_, fun _ => ⟨⟨_, rfl⟩, rfl⟩⟩, fun _ => ⟨⟨_, rfl⟩, rfl⟩⟩
    exact absurd (of_decide_eq_true hactive) hended
  · by_cases hown : session.roomID = c.roomID ∧ session.userID = c.userID <;>
      simp [Service.program, listenerHeartbeat, bind_assoc, store, ask, Program.eval,
        Program.perform, World.exec, World.perform, Store.step, sampleEnv, hl, Store.found,
        require, hended, hown]

/-- The listeners of the room are out in both stores, and nobody gets in again. -/
structure StayOut (s : Service) (I : Infra) (p : VoicePool) (roomID : String) : Prop where
  inactive : ∀ k session, p.state.store.listenerSessions.lookup k = some session →
    session.roomID = roomID → session.status ≠ .active
  unmarked : Presence.members p.state.presence.listeners roomID = ∅
  join : ∀ c, c.roomID = roomID → Refused s I p (.joinRoom c)
  heartbeat : ∀ c session, p.state.store.listenerSessions.lookup c.sessionID = some session →
    session.roomID = roomID → Refused s I p (.listenerHeartbeat c)

/-- **The listeners of a closed room stay out**, whatever commands follow and
whatever else fails. -/
theorem closed_room_listeners (s : Service) (I : Infra) (hs : s.hasPresence = true)
    (hI : I.KeepsStore) (hp : I.KeepsPresence) (roomID : String) (p q : VoicePool)
    (h : Closes s I roomID p q) (post : List VoiceJob) (q' : VoicePool)
    (hq' : (s.system I).performAll post q = some q') : StayOut s I q' roomID := by
  have hout := listenersOut_later h hq'
  obtain ⟨-, -, jobs, hq⟩ := h.closed
  have ha := (serial_reaches hI (System.serial_append hq hq')).agrees hs hp Ledger.agrees_empty
  refine ⟨hout.inactive, ?_, ?_, ?_⟩
  · refine Finset.eq_empty_of_forall_notMem fun sessionID hmark => ?_
    obtain ⟨session, hl, hroom, hactive⟩ := (ha.listeners roomID sessionID).mp hmark
    exact hout.inactive sessionID session hl hroom hactive
  · rintro c rfl
    exact entry_refused hout.finished rfl
  · intro c session hl hroom
    exact heartbeat_refused hl (hout.inactive c.sessionID session hl hroom)

end Listeners

/-- The owner finishes the room. -/
def ownerFinishes : VoiceJob :=
  (.finishRoom ⟨sampleRoom, "owner", "over", ""⟩, plain 3 ++ publishing 8 ++ plain 2)

/-- The jobs leave the room finished, closing it succeeds, and `ok` holds before
and afterwards. -/
def closedAnd (s : Service) (I : Infra) (pre : List VoiceJob) (envs : List Env)
    (ok : VoicePool → VoicePool → Bool) : Bool :=
  ((s.system I).serial pre).any fun p =>
    (p.state.store.rooms.lookup sampleRoom).any (·.status = .finished) &&
      ((s.system I).perform (.closeRoomSessions sampleRoom 5 "", envs) p).any fun q =>
        !lastFailed q && ok p q

theorem closes_of_closedAnd {s : Service} {I : Infra} (pre : List VoiceJob) (envs : List Env)
    (ok : VoicePool → VoicePool → Bool) (h : closedAnd s I pre envs ok = true) :
    ∃ p q, Closes s I sampleRoom p q ∧ ok p q = true := by
  obtain ⟨p, hp, hfacts⟩ := (Option.any_eq_true _ _).mp h
  obtain ⟨hroom, hclose⟩ := Bool.and_eq_true_iff.mp hfacts
  obtain ⟨room, hl, hf⟩ := (Option.any_eq_true _ _).mp hroom
  obtain ⟨q, hq, hfacts⟩ := (Option.any_eq_true _ _).mp hclose
  obtain ⟨hdone, hok⟩ := Bool.and_eq_true_iff.mp hfacts
  obtain ⟨reply, hreply⟩ := threads_of_not_lastFailed hq (by simpa using hdone)
  exact ⟨p, q, ⟨pre, [], p, room, 5, "", envs, reply, hp, hl, of_decide_eq_true hf,
    rfl, hq, hreply⟩, hok⟩

theorem closed_room_listeners_guest :
    ∃ p q, Closes sampleService flakyEdge sampleRoom p q ∧
      (q.state.store.listenerSessions.lookup guestSession).any (·.status = .left) = true ∧
      StayOut sampleService flakyEdge q sampleRoom := by
  obtain ⟨p, q, hcloses, hleft⟩ := closes_of_closedAnd (s := sampleService) (I := flakyEdge)
    (openRoom ++ [guestJoins, ownerFinishes]) (visiting [guestSession] ++ plain 2)
    (fun _ q => (q.state.store.listenerSessions.lookup guestSession).any (·.status = .left))
    (by decide +kernel)
  exact ⟨p, q, hcloses, hleft, closed_room_listeners _ _ rfl flakyEdge_keepsStore
    flakyEdge_keepsPresence _ p q hcloses [] q rfl⟩

/-! ## Speakers -/

section Speakers

variable {s : Service} {I : Infra} {w : World} {p q : VoicePool} {cmd : Command} {roomID : String}

/-- No participant session of the room is active. -/
def World.SpeakersOut (w : World) (roomID : String) : Prop :=
  ∀ k session, w.store.participantSessions.lookup k = some session → session.roomID = roomID →
    session.status ≠ .active

/-- A participant session that is there after a command was there before, or
the command let somebody into its room. -/
theorem CommandRun.participant_cases {envs : List Env}
    {o : System.Outcome (s.system I) p (cmd, envs) q} (r : CommandRun s I p q (cmd, envs) o)
    {k : String} {session : ParticipantSession}
    (h : q.state.store.participantSessions.lookup k = some session) :
    entered cmd = some session.roomID ∨
      p.state.store.participantSessions.lookup k = some session := by
  rcases o.written_or_kept (fun t w hw k => lookup_participantSessions hw k)
    r.replays_before r.replays_after h with ⟨newer, e, older, ht, hw⟩ | hkept
  · left
    obtain ⟨ms, hms⟩ := r.after
    have haccounts := run_accounts hms
    have hrep := System.run_replays hms
    rw [o.trace_eq, ht, List.append_assoc, List.cons_append] at haccounts hrep
    obtain ⟨w₁, w₀, hrep, -⟩ := hrep.of_append
    have hsave := haccounts.at
    obtain ⟨hx, -⟩ := savedParticipantSession_eq_some.mp hw
    rw [hx, (o.own e (by simp [ht])).2.1] at hsave
    have new : ∀ roomID userID, NewParticipant (threadHistory e.thread (older ++ p.trace)) roomID
        userID session → session.roomID = roomID := by
      rintro roomID userID ⟨t, id, role, room, -, hread, rfl, -⟩
      exact room_read_id hrep hread
    cases cmd with
    | joinRoom c => exact congrArg some (new _ _ hsave).symm
    | createSpeakerSession c => exact congrArg some (new _ _ hsave).symm
    | _ => cases hsave
  · exact .inr hkept

/-- Nobody gets into a finished room as a speaker. -/
theorem speakersOut_kept {envs : List Env} {o : System.Outcome (s.system I) p (cmd, envs) q}
    (r : CommandRun s I p q (cmd, envs) o) (hq : (s.system I).perform (cmd, envs) p = some q)
    (hfin : p.state.RoomFinished roomID) (hout : p.state.SpeakersOut roomID) :
    q.state.SpeakersOut roomID := by
  rintro k session hl rfl
  rcases r.participant_cases hl with hcmd | hkept
  · have hsame := ((entry_refused (s := s) (I := I) hfin hcmd).2 envs q hq).1
    rw [hsame] at hl
    exact hout k session hl rfl
  · exact hout k session hkept rfl

/-- The speakers of the room are out, and neither the presence store nor the
store counts any. -/
structure NoSpeakers (s : Service) (I : Infra) (p : VoicePool) (roomID : String) : Prop where
  inactive : p.state.SpeakersOut roomID
  counts : ∀ configured,
    (∃ envs r w, Program.eval (S := effects) (World.exec I) envs
      ({ s with hasPresence := configured }.program (.activeCounts roomID)) p.state =
        some (r, w)) ∧
    ∀ envs r w, Program.eval (S := effects) (World.exec I) envs
      ({ s with hasPresence := configured }.program (.activeCounts roomID)) p.state = some (r, w) →
        ∃ counts, r = .ok (.counts counts) ∧ counts.liveKit = 0

theorem noSpeakers_of_speakersOut (hs : s.hasPresence = true) (hI : I.KeepsStore)
    (hp : I.KeepsPresence) {jobs : List VoiceJob} (h : (s.system I).serial jobs = some p)
    (hout : p.state.SpeakersOut roomID) : NoSpeakers s I p roomID := by
  obtain ⟨ms, hms⟩ := System.serial_isRun h
  have hk := run_keyed hms
  have ha := (serial_reaches hI h).agrees hs hp Ledger.agrees_empty
  have hempty : Presence.members p.state.presence.participants roomID = ∅ := by
    refine Finset.eq_empty_of_forall_notMem fun sessionID hmark => ?_
    obtain ⟨session, hl, hroom, hactive⟩ := (ha.participants roomID sessionID).mp hmark
    exact hout sessionID session hl hroom hactive
  refine ⟨hout, fun configured => ⟨exists_eval_of_peeks I _ (program_peeks _ trivial), ?_⟩⟩
  intro envs r w he
  obtain ⟨-, rfl⟩ := (activeCounts_ensures hI hp hk ha [] roomID).eval he
  exact ⟨_, rfl, by rw [Presence.counts, hempty, Finset.card_empty]⟩

/-- **The speakers of a closed room are out** in every later state iff none of
their sessions was active before the closing: nothing ends them. -/
theorem closed_room_speakers_iff (s : Service) (I : Infra) (hs : s.hasPresence = true)
    (hI : I.KeepsStore) (hp : I.KeepsPresence) (roomID : String) (p q : VoicePool)
    (h : Closes s I roomID p q) :
    (∀ post q', (s.system I).performAll post q = some q' → NoSpeakers s I q' roomID) ↔
      p.state.SpeakersOut roomID := by
  obtain ⟨hout, hsame, jobs, hq⟩ := h.closed
  constructor
  · intro hall k session hl
    rw [← hsame] at hl
    exact (hall [] q rfl).inactive k session hl
  · intro hbefore post q' hq'
    have hafter : q.state.SpeakersOut roomID := by
      intro k session hl
      rw [hsame] at hl
      exact hbefore k session hl
    refine noSpeakers_of_speakersOut hs hI hp (System.serial_append hq hq') ?_
    refine (System.performAll_induction (I := fun q => q.state.RoomFinished roomID ∧
      q.state.SpeakersOut roomID) ?_ hq ⟨hout.finished, hafter⟩ hq').2
    rintro pre p ⟨cmd, envs⟩ q hp ⟨hfin, hout⟩ hq
    obtain ⟨o, r⟩ := exists_commandRun hp hq
    exact ⟨roomFinished_kept r hfin, speakersOut_kept r hq hfin hout⟩

end Speakers

/-- The session of a guest who was promoted is still active after the room was closed. -/
theorem closed_room_speakers_fails :
    ¬ ∀ (s : Service) (I : Infra), s.hasPresence = true → I.KeepsStore → I.KeepsPresence →
      ∀ (roomID : String) (p q : VoicePool), Closes s I roomID p q →
      ∀ post q', (s.system I).performAll post q = some q' → NoSpeakers s I q' roomID := by
  intro hclaim
  obtain ⟨p, q, hcloses, hactive⟩ := closes_of_closedAnd (s := sampleService) (I := flakyEdge)
    (openRoom ++ promotion ++ [ownerFinishes]) (plain 1)
    (fun _ q => (q.state.store.participantSessions.lookup
      (newID prefixParticipant (sampleUlid 7))).any fun session =>
        session.roomID = sampleRoom && session.status = .active)
    (by decide +kernel)
  obtain ⟨session, hl, hfacts⟩ := (Option.any_eq_true _ _).mp hactive
  obtain ⟨hroom, hst⟩ := Bool.and_eq_true_iff.mp hfacts
  have hout := hclaim _ _ rfl flakyEdge_keepsStore flakyEdge_keepsPresence _ p q hcloses [] q rfl
  exact hout.inactive _ session hl (of_decide_eq_true hroom) (of_decide_eq_true hst)

theorem speakersOut_of_none {w : World} {roomID : String}
    (h : w.store.participantSessions.keys = ∅) : w.SpeakersOut roomID := by
  intro k session hl
  have hk : k ∈ w.store.participantSessions.keys := Finmap.mem_of_lookup_eq_some hl
  rw [h] at hk
  exact absurd hk (Finset.notMem_empty k)

/-- Nobody but a guest, who listened, was in the room. -/
theorem closed_room_speakers_guest :
    ∃ p q, Closes sampleService flakyEdge sampleRoom p q ∧
      (p.state.store.listenerSessions.lookup guestSession).any (·.status = .active) = true ∧
      ∀ post q', (sampleService.system flakyEdge).performAll post q = some q' →
        NoSpeakers sampleService flakyEdge q' sampleRoom := by
  obtain ⟨p, q, hcloses, hfacts⟩ := closes_of_closedAnd (s := sampleService) (I := flakyEdge)
    (openRoom ++ [guestJoins, ownerFinishes]) (visiting [guestSession] ++ plain 2)
    (fun p _ => decide (p.state.store.participantSessions.keys = ∅) &&
      (p.state.store.listenerSessions.lookup guestSession).any (·.status = .active))
    (by decide +kernel)
  obtain ⟨hnone, hlistens⟩ := Bool.and_eq_true_iff.mp hfacts
  exact ⟨p, q, hcloses, hlistens, (closed_room_speakers_iff _ _ rfl flakyEdge_keepsStore
    flakyEdge_keepsPresence _ p q hcloses).mpr (speakersOut_of_none (of_decide_eq_true hnone))⟩

end WaveCast
