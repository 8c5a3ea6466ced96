import WaveCast.Sequential
import WaveCast.Lineage

/-!
# What a command does to the listener sessions

While commands run one after the other, a command that saves a listener session
creates it, or changes the one that was stored before the command. Only
`LeaveListener` changes a session that has ended (`CommandRun.session_cases`):
the heartbeat checks the status, and the loops list active sessions before they
save any (`run_listsFirst`).
-/

namespace WaveCast

open Interaction WaveCast.Action Program Service

/-! ## Listing comes first -/

/-- A method of the store that lists sessions. -/
def Effect.ListsSessions : Effect → Prop
  | .store (.listActiveListenerSessions _) => True
  | .store (.listActiveListenerSessionsByUser _ _) => True
  | .store (.listStaleListenerSessions _ _) => True
  | _ => False

/-- Sessions are listed before any is saved. -/
def ListsFirst (h : List VoiceExchange) (e : Effect) : Prop :=
  e.ListsSessions → ∀ x ∈ h, savedListenerSession x = none

/-- A command that ends the sessions it lists. -/
def Command.EndsListed : Command → Prop
  | .removeParticipant _ => True
  | .expireStaleListenerSessions _ _ _ => True
  | .closeRoomSessions _ _ _ => True
  | _ => False

section Listing

variable {α : Type} {s : Service} {h : List VoiceExchange}

/-- A program that lists no sessions. -/
abbrev ListsNone (h : List VoiceExchange) (p : Action α) : Prop :=
  Follows (S := effects) (fun _ e => ¬ e.ListsSessions) anyResult h p

theorem ListsNone.listsFirst {p : Action α} (hp : ListsNone h p) :
    Follows (S := effects) ListsFirst anyResult h p :=
  hp.mono (fun _ _ he hl => absurd hl he) fun _ _ h => h

theorem publish_listsNone (eventType roomID actorUserID targetUserID correlationID : String)
    (payload : Payload) :
    ListsNone h (publish eventType roomID actorUserID targetUserID correlationID payload) := by
  rw [← bind_ret (publish _ _ _ _ _ _)]
  simp [publish, bind_assoc, follows_fresh, follows_now, follows_store, follows_ask,
    follows_ofExcept, Effect.ListsSessions]

theorem presenceDo_listsNone (c : PresenceCall) : ListsNone h (s.presenceDo c) := by
  rw [presenceDo]
  split
  · simp [present, bind_assoc, follows_ask, follows_ofExcept, Effect.ListsSessions]
  · trivial

theorem save_listsNone (session : ListenerSession) :
    ListsNone h (store (.saveListenerSession session)) := by
  rw [← bind_ret (store _)]
  simp [follows_store, Effect.ListsSessions]

/-- A loop whose rounds list no sessions. -/
theorem forEach_listsNone {xs : List ListenerSession} {f : ListenerSession → Action Unit}
    (hf : ∀ x h, ListsNone h (f x)) : ListsNone h (forEach xs f) := by
  refine follows_forEach (fun _ => True) h trivial (fun x _ h _ => ?_) fun _ _ => trivial
  exact (hf x h).mono (fun _ _ he => he) fun _ r _ => by cases r <;> trivial

theorem program_listsFirst (s : Service) {cmd : Command} (hcmd : cmd.EndsListed) :
    Follows (S := effects) ListsFirst anyResult [] (s.program cmd) := by
  cases cmd with
  | removeParticipant c =>
    simp only [Service.program, removeParticipant, map_eq, bind_eq, bind_assoc, follows_store,
      follows_require, follows_now, implies_true, and_true]
    refine ⟨by simp [ListsFirst], fun room _ => ⟨by simp [ListsFirst, savedListenerSession],
      fun sessions => ⟨by simp [ListsFirst, Effect.ListsSessions], fun t => ?_⟩⟩⟩
    refine ListsNone.listsFirst (follows_bind_calls (forEach_listsNone fun session h => ?_)
      fun _ h => follows_bind_calls (publish_listsNone _ _ _ _ _ _) fun _ _ => trivial)
    exact follows_bind_calls (save_listsNone _) fun _ h => presenceDo_listsNone _
  | expireStaleListenerSessions cutoff limit correlationID =>
    simp only [Service.program, expireStaleListenerSessions, map_eq, bind_eq, pure_eq, bind_assoc,
      follows_store, follows_now, implies_true, and_true]
    refine ⟨by simp [ListsFirst], fun sessions => ⟨by simp [ListsFirst, Effect.ListsSessions],
      fun t => ?_⟩⟩
    refine ListsNone.listsFirst (follows_bind_calls (forEach_listsNone fun session h => ?_)
      fun _ _ => trivial)
    exact follows_bind_calls (save_listsNone _) fun _ h =>
      follows_bind_calls (presenceDo_listsNone _) fun _ h => publish_listsNone _ _ _ _ _ _
  | closeRoomSessions roomID endedAt correlationID =>
    simp only [Service.program, closeRoomSessions, map_eq, bind_eq, bind_assoc, follows_store,
      implies_true, and_true]
    refine ⟨by simp [ListsFirst], fun sessions => ?_⟩
    refine ListsNone.listsFirst (follows_bind_calls (forEach_listsNone fun session h => ?_)
      fun _ _ => trivial)
    exact follows_bind_calls (save_listsNone _) fun _ h => presenceDo_listsNone _
  | _ => cases hcmd

/-- **Sessions are listed before any is saved**, by each command of a run. -/
theorem run_listsFirst {I : Infra} {ms : List VoiceMove} {p : VoicePool}
    (h : (s.system I).run ms = some p) : Always (fun older e => e.cmd.EndsListed →
      ListsFirst (threadHistory e.thread older) e.exchange.call) p.trace := by
  refine System.run_always (M := s.system I) (Q := fun _ _ _ => True)
    (P := fun cmd h c => cmd.EndsListed → ListsFirst h c) (fun cmd => ?_) h
  by_cases hcmd : cmd.EndsListed
  · exact (program_listsFirst s hcmd).mono (fun _ _ hc _ => hc) fun _ _ h => h
  · exact follows_of_forall (fun _ _ hc => absurd hc hcmd) (fun _ _ => trivial) _ _

end Listing

/-! ## The sessions after a command -/

/-- A command that runs alone creates the session. -/
def CreatedNow (w : World) (k : String) (session : ListenerSession) (cmd : Command) : Prop :=
  ∃ c t room, cmd = .joinRoom c ∧ w.store.rooms.lookup c.roomID = some room ∧
    room.status = .live ∧ w.store.listenerSessions.lookup k = none ∧
    session = newListenerSession room c.userID k t

/-- A command that runs alone changes the session. -/
def ChangedNow (w : World) (k : String) (session : ListenerSession) (cmd : Command) : Prop :=
  ∃ session₀, w.store.listenerSessions.lookup k = some session₀ ∧
    SessionStep session₀ session cmd ∧
    (session₀.status = .active ∨ ∃ c, cmd = .leaveListener c)

namespace CommandRun

variable {s : Service} {I : Infra} {p q : VoicePool} {cmd : Command} {envs : List Env}
  {o : System.Outcome (s.system I) p (cmd, envs) q} (r : CommandRun s I p q (cmd, envs) o)

include r

theorem session_id {k : String} {session : ListenerSession}
    (h : p.state.store.listenerSessions.lookup k = some session) : session.id = k := by
  rw [lookup_listenerSessions r.replays_before] at h
  exact stored_session_id h

/-- A session that was read before any session was saved is the one from before. -/
theorem session_read {newer older : List VoiceEntry} (ht : o.entries = newer ++ older)
    (sessionID : String) (session : ListenerSession)
    (hr : ⟨.store (.getListenerSession sessionID), .ok session⟩ ∈ older.map (·.exchange))
    (hno : ∀ x ∈ older.map (·.exchange), savedListenerSession x = none) :
    p.state.store.listenerSessions.lookup sessionID = some session := by
  obtain ⟨e, he, hx⟩ := List.mem_map.mp hr
  exact o.read_before_writes
    (fun t w hw k => lookup_listenerSessions hw k) r.replays_before
    (sessions_coherent r.replays_after) ht he (readListenerSession_eq_some.mpr hx)
    fun e he => hno _ (List.mem_map_of_mem he)

/-- A session that was listed is one from before. -/
theorem session_listed (hcmd : cmd.EndsListed) {newer older : List VoiceEntry}
    (ht : o.entries = newer ++ older) {x : VoiceExchange} (hx : x ∈ older.map (·.exchange))
    (hlists : x.call.ListsSessions) {session : ListenerSession} (hs : session ∈ listedSessions x) :
    p.state.store.listenerSessions.lookup session.id = some session ∧ Lists session x.call := by
  obtain ⟨e, he, rfl⟩ := List.mem_map.mp hx
  obtain ⟨mid, rest, rfl⟩ := List.append_of_mem he
  have hown : ∀ f ∈ o.entries, f.thread = p.threads.length ∧ f.cmd = cmd :=
    fun f hf => ⟨(o.own f hf).1, (o.own f hf).2.1⟩
  obtain ⟨ms, hms⟩ := r.after
  have hq : q.trace = (newer ++ mid) ++ e :: (rest ++ p.trace) := by simp [o.trace_eq, ht]
  have hfirst := run_listsFirst hms
  have hrep := System.run_replays hms
  rw [hq] at hfirst hrep
  obtain ⟨w₁, w₀, h₀, hexec⟩ := hrep.of_append
  have hno : ∀ f ∈ rest, sessionSaves f = none := by
    intro f hf
    refine hfirst.at ?_ hlists _ (mem_threadHistory.mpr ⟨f, by simp [hf], ?_, rfl⟩)
    · rw [(hown e (by simp [ht])).2]
      exact hcmd
    · rw [(hown e (by simp [ht])).1, (hown f (by simp [ht, hf])).1]
  obtain ⟨k, hl⟩ := World.exec_listed hexec hs
  rw [System.view_until (fun t w hw k => lookup_listenerSessions hw k) r.replays_before h₀ hno]
    at hl
  rw [r.session_id hl]
  exact ⟨hl, World.exec_lists hexec hs⟩

theorem room_found {newer older : List VoiceEntry} (ht : o.entries = newer ++ older)
    {roomID : String} {room : Room}
    (hr : ⟨.store (.getRoom roomID), .ok room⟩ ∈ older.map (·.exchange)) : room.id = roomID := by
  obtain ⟨e, he, hx⟩ := List.mem_map.mp hr
  have hown := (o.own e (by simp [ht, he])).1
  exact room_read_id r.replays_after
    (mem_threadHistory.mpr ⟨e, by simp [o.trace_eq, ht, he], hown, hx⟩)

/-- `JoinRoom` stores its session under a key that held nothing. -/
theorem joined_first {newer older : List VoiceEntry} {e : VoiceEntry} {c : JoinRoomCommand}
    (hjoin : cmd = .joinRoom c) (ht : o.entries = newer ++ e :: older)
    {k : String} {session : ListenerSession} (hw : sessionSaves e = some (k, session)) :
    p.state.store.listenerSessions.lookup k = none := by
  obtain ⟨ms, hms⟩ := r.after
  have hcases := Evolves.cases (sessions_evolve hms)
    (fresh_draws prefixListenerSession (System.run_replays hms))
  have hq : q.trace = newer ++ e :: (older ++ p.trace) := by simp [o.trace_eq, ht]
  rw [hq] at hcases
  have hcmd : e.cmd = .joinRoom c := (o.own e (by simp [ht])).2.1.trans hjoin
  rcases hcases.at k session hw with ⟨hnone, -⟩ | ⟨session₀, -, hstep⟩
  · rw [lastWrite_append, Option.or_eq_none_iff] at hnone
    rw [lookup_listenerSessions r.replays_before]
    exact hnone.2
  · rw [hcmd] at hstep
    cases hstep

/-- **Where a session that is there after the command comes from.** -/
theorem session_cases {k : String} {session : ListenerSession}
    (h : q.state.store.listenerSessions.lookup k = some session) :
    CreatedNow p.state k session cmd ∨ ChangedNow p.state k session cmd ∨
      p.state.store.listenerSessions.lookup k = some session := by
  rcases o.written_or_kept (fun t w hw k => lookup_listenerSessions hw k)
    r.replays_before r.replays_after h with ⟨newer, e, older, ht, hw⟩ | hkept
  · obtain ⟨hx, rfl⟩ := savedListenerSession_eq_some.mp hw
    have hsave := r.asks_at ht
    rw [hx] at hsave
    have ht' : o.entries = (newer ++ [e]) ++ older := by simp [ht]
    cases cmd with
    | joinRoom c =>
      obtain ⟨t, sessionID, room, hh, hlive, rfl⟩ := hsave
      have hroom := r.room_read ht' c.roomID room (by simp [hh]) (by simp [hh, savedRoom])
      have hnone := r.joined_first rfl ht hw
      exact .inl ⟨c, t, room, rfl, hroom, hlive, hnone, rfl⟩
    | listenerHeartbeat c =>
      obtain ⟨t, session₀, hh, hr, hu, ha, rfl⟩ := hsave
      have hl := r.session_read ht' c.sessionID session₀ (by simp [hh])
        (by simp [hh, savedListenerSession])
      have hid := r.session_id hl
      exact .inr (.inl ⟨session₀, (hid ▸ hl :), ⟨hid, hr, hu, ha, t, rfl⟩, .inl ha⟩)
    | leaveListener c =>
      obtain ⟨t, session₀, hh, hr, hu, rfl⟩ := hsave
      have hl := r.session_read ht' c.sessionID session₀ (by simp [hh])
        (by simp [hh, savedListenerSession])
      have hid := r.session_id hl
      exact .inr (.inl ⟨session₀, (hid ▸ hl :), ⟨hid, hr, hu, t, rfl⟩, .inr ⟨c, rfl⟩⟩)
    | removeParticipant c =>
      obtain ⟨t, room, sessions, session₀, hread, hm, hlist, -, hs, rfl⟩ := hsave
      obtain ⟨hl, hlists⟩ := r.session_listed trivial ht' hlist trivial hs
      have hroom := r.room_found ht' hread
      exact .inr (.inl ⟨session₀, hl, ⟨hlists.1.trans hroom, hlists.2.1, hm.1, t, rfl⟩,
        .inl hlists.2.2⟩)
    | expireStaleListenerSessions cutoff limit correlationID =>
      obtain ⟨t, sessions, session₀, hlist, -, hs, rfl⟩ := hsave
      obtain ⟨hl, hlists⟩ := r.session_listed trivial ht' hlist trivial hs
      exact .inr (.inl ⟨session₀, hl, ⟨t, rfl⟩, .inl hlists.1⟩)
    | closeRoomSessions roomID endedAt correlationID =>
      obtain ⟨sessions, session₀, hlist, hs, rfl⟩ := hsave
      obtain ⟨hl, hlists⟩ := r.session_listed trivial ht' hlist trivial hs
      exact .inr (.inl ⟨session₀, hl, ⟨hlists.1, rfl⟩, .inl hlists.2⟩)
    | _ => cases hsave
  · exact .inr (.inr hkept)

end CommandRun

end WaveCast
