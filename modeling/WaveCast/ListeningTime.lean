import WaveCast.Reports
import WaveCast.SessionChanges
import WaveCast.WellFormed
import WaveCast.Alone

/-!
# The clock of a sequential run

A session ends at a clock reading of the command that ended it
(`CommandRun.left_reading`), and once it has an end it keeps one
(`session_later`). `ClockSteady` says that the clock of a run never goes back.
-/

namespace WaveCast

open Interaction WaveCast.Action Program Service

/-- The clock readings of a command, in order. The worker that closes the
sessions of a room reads the clock before it sends its command. -/
def readings : VoiceJob → List Time
  | (.closeRoomSessions _ endedAt _, envs) => endedAt :: envs.map (·.now)
  | (_, envs) => envs.map (·.now)

/-- The clock never goes back. -/
def ClockSteady (jobs : List VoiceJob) : Prop := (jobs.flatMap readings).Pairwise (· ≤ ·)

section Readings

variable {s : Service} {I : Infra} {p q : VoicePool} {cmd : Command} {envs : List Env}
  {t : Time} {k : String} {session₀ session : ListenerSession}

theorem mem_readings {env : Env} (h : env ∈ envs) : env.now ∈ readings (cmd, envs) := by
  have hnow : env.now ∈ envs.map (·.now) := List.mem_map_of_mem h
  cases cmd with
  | closeRoomSessions roomID endedAt correlationID => exact List.mem_cons_of_mem _ hnow
  | _ => exact hnow

/-- What a command exchanges with the clock is one of its readings. -/
theorem now_reading (o : System.Outcome (s.system I) p (cmd, envs) q)
    (h : ⟨.now, t⟩ ∈ o.history) : t ∈ readings (cmd, envs) := by
  obtain ⟨⟨i, cmd', env, x⟩, he, rfl⟩ := List.mem_map.mp h
  obtain ⟨w, w', hx⟩ := o.replays.executed he
  rcases World.exec_cases hx with ⟨-, -, hf, -⟩ | ⟨-, hx⟩
  · cases hf
  · have ht : env.now = t := (Prod.mk.inj (Option.some.inj hx)).1
    exact ht ▸ mem_readings (o.own _ he).2.2

theorem SessionStep.left (h : SessionStep session₀ session cmd) :
    session.leftAt = session₀.leftAt ∨ ∃ t, session.leftAt = some t := by
  rcases h.cases with ⟨t, rfl⟩ | ⟨status, leaveType, t, -, -, rfl⟩ | ⟨c, t, -, rfl⟩
  · exact .inl rfl
  · exact .inr ⟨t, rfl⟩
  · exact .inr ⟨t, rfl⟩

/-- A session is saved with the end that was stored, or that of a clock reading. -/
theorem SavesListenerSession.left {h : List VoiceExchange}
    (hs : SavesListenerSession h session cmd) (ht : session.leftAt = some t) :
    (∃ c, cmd = .listenerHeartbeat c) ∨ ⟨.now, t⟩ ∈ h ∨
      ∃ roomID correlationID, cmd = .closeRoomSessions roomID t correlationID := by
  cases cmd with
  | joinRoom c =>
    obtain ⟨t', id, room, -, -, rfl⟩ := hs
    cases ht
  | listenerHeartbeat c => exact .inl ⟨c, rfl⟩
  | leaveListener c =>
    obtain ⟨t', session₀, rfl, -, -, rfl⟩ := hs
    cases ht
    exact .inr (.inl (by simp))
  | removeParticipant c =>
    obtain ⟨t', room, sessions, session₀, -, -, -, hnow, -, rfl⟩ := hs
    cases ht
    exact .inr (.inl hnow)
  | expireStaleListenerSessions cutoff limit correlationID =>
    obtain ⟨t', sessions, session₀, -, hnow, -, rfl⟩ := hs
    cases ht
    exact .inr (.inl hnow)
  | closeRoomSessions roomID endedAt correlationID =>
    obtain ⟨sessions, session₀, -, -, rfl⟩ := hs
    cases ht
    exact .inr (.inr ⟨roomID, correlationID, rfl⟩)
  | _ => cases hs

/-- **The end of a session** was stored before the command, or is one of its
clock readings. -/
theorem CommandRun.left_reading {o : System.Outcome (s.system I) p (cmd, envs) q}
    (r : CommandRun s I p q (cmd, envs) o)
    (h : q.state.store.listenerSessions.lookup k = some session) (ht : session.leftAt = some t) :
    t ∈ readings (cmd, envs) ∨ ∃ session₀, p.state.store.listenerSessions.lookup k = some session₀ ∧
      session₀.leftAt = some t := by
  rcases o.written_or_kept (fun t w hw k => lookup_listenerSessions hw k)
    r.replays_before r.replays_after h with ⟨newer, e, older, hentries, hw⟩ | hkept
  · obtain ⟨hx, rfl⟩ := savedListenerSession_eq_some.mp hw
    have hsave := r.asks_at hentries
    rw [hx] at hsave
    rcases SavesListenerSession.left hsave ht with ⟨c, rfl⟩ | hnow | ⟨roomID, correlationID, rfl⟩
    · rcases r.session_cases h with ⟨c', t', room, hcmd, -⟩ | ⟨session₀, hl, hstep, -⟩ | hkept
      · cases hcmd
      · obtain ⟨-, -, -, -, t', hsession⟩ := hstep
        rw [hsession] at ht
        exact .inr ⟨session₀, hl, ht⟩
      · exact .inr ⟨session, hkept, ht⟩
    · refine .inl (now_reading o ?_)
      rw [System.Outcome.history, hentries]
      simp [hnow]
    · exact .inl List.mem_cons_self
  · exact .inr ⟨session, hkept, ht⟩

/-- **A session goes on** through a command, with the end it had or with one
that the command has given it. -/
theorem CommandRun.session_goes_on {o : System.Outcome (s.system I) p (cmd, envs) q}
    (r : CommandRun s I p q (cmd, envs) o)
    (h : p.state.store.listenerSessions.lookup k = some session₀) :
    ∃ session, q.state.store.listenerSessions.lookup k = some session ∧
      session.identity = session₀.identity ∧ (session.leftAt = session₀.leftAt ∨
        ∃ t ∈ readings (cmd, envs), session.leftAt = some t) := by
  have hstays : q.state.store.listenerSessions.lookup k ≠ none := by
    rw [lookup_listenerSessions r.replays_after, o.trace_eq]
    rw [lookup_listenerSessions r.replays_before] at h
    exact lastWrite_append_ne_none (by simp [h])
  obtain ⟨session, hl⟩ := Option.ne_none_iff_exists'.mp hstays
  refine ⟨session, hl, ?_⟩
  rcases r.session_cases hl with ⟨c, t, room, -, -, -, hnone, -⟩ | ⟨session₁, hl₁, hstep, -⟩ | hkept
  · cases hnone.symm.trans h
  · cases h.symm.trans hl₁
    refine ⟨hstep.identity_eq, ?_⟩
    rcases hstep.left with hsame | ⟨t, ht⟩
    · exact .inl hsame
    · rcases r.left_reading hl ht with hread | ⟨session₂, hl₂, ht₂⟩
      · exact .inr ⟨t, hread, ht⟩
      · cases h.symm.trans hl₂
        exact .inl (ht.trans ht₂.symm)
  · cases h.symm.trans hkept
    exact ⟨rfl, .inl rfl⟩

end Readings

/-! ## Runs -/

section Run

variable {s : Service} {I : Infra} {p q : VoicePool} {pre mid jobs : List VoiceJob}
  {t : Time} {k : String} {session₀ session : ListenerSession}

theorem ClockSteady.le {jobs' : List VoiceJob} {t' : Time} (h : ClockSteady (jobs ++ jobs'))
    (ht : t ∈ jobs.flatMap readings) (ht' : t' ∈ jobs'.flatMap readings) : t ≤ t' := by
  rw [ClockSteady, List.flatMap_append] at h
  exact (List.pairwise_append.mp h).2.2 t ht t' ht'

/-- The ends that are stored are clock readings of the run. -/
theorem serial_left (h : (s.system I).serial jobs = some p)
    (hl : p.state.store.listenerSessions.lookup k = some session) (ht : session.leftAt = some t) :
    t ∈ jobs.flatMap readings := by
  induction jobs using List.reverseRecOn generalizing p k session with
  | nil =>
    cases h
    cases (Finmap.lookup_empty k).symm.trans hl
  | append_singleton jobs job ih =>
    obtain ⟨p₀, hp₀, hjob⟩ := System.serial_concat.mp h
    obtain ⟨o, r⟩ := exists_commandRun hp₀ hjob
    rw [List.flatMap_append, List.mem_append]
    rcases r.left_reading hl ht with hread | ⟨session₀, hl₀, ht₀⟩
    · exact .inr (by simpa using hread)
    · exact .inl (ih hp₀ hl₀ ht₀)

/-- **A session goes on** through the rest of a run. -/
theorem session_later (hp : (s.system I).serial pre = some p)
    (hq : (s.system I).performAll mid p = some q)
    (hl : p.state.store.listenerSessions.lookup k = some session₀) :
    ∃ session, q.state.store.listenerSessions.lookup k = some session ∧
      session.identity = session₀.identity ∧ (session.leftAt = session₀.leftAt ∨
        ∃ t ∈ mid.flatMap readings, session.leftAt = some t) := by
  induction mid using List.reverseRecOn generalizing q with
  | nil =>
    cases hq
    exact ⟨session₀, hl, rfl, .inl rfl⟩
  | append_singleton mid job ih =>
    obtain ⟨p₁, hp₁, hjob⟩ := System.performAll_concat.mp hq
    obtain ⟨session₁, hl₁, hid₁, hleft₁⟩ := ih hp₁
    obtain ⟨o, r⟩ := exists_commandRun (System.serial_append hp hp₁) hjob
    obtain ⟨session, hl, hid, hleft⟩ := r.session_goes_on hl₁
    refine ⟨session, hl, hid.trans hid₁, ?_⟩
    simp only [List.flatMap_append, List.mem_append]
    rcases hleft with hsame | ⟨t, hread, ht⟩
    · rw [hsame]
      exact hleft₁.imp_right fun ⟨t, hread, ht⟩ => ⟨t, .inl hread, ht⟩
    · exact .inr ⟨t, .inr (by simpa using hread), ht⟩

/-- Participant sessions stay as they are. -/
theorem participant_later (hp : (s.system I).serial pre = some p)
    (hq : (s.system I).performAll mid p = some q) {session : ParticipantSession}
    (hl : p.state.store.participantSessions.lookup k = some session) :
    q.state.store.participantSessions.lookup k = some session := by
  obtain ⟨ms, n, hms, hn⟩ := System.performAll_take hp hq
  have hkeeps : Table.KeepsIdentity id p.state.store.participantSessions
      q.state.store.participantSessions :=
    evolves_keeps (fun w => w.store.participantSessions) (fun _ _ => lookup_participantSessions)
      hms hn (participants_evolve hms) fun _ _ _ hst => hst.elim
  obtain ⟨session', hl', rfl⟩ := hkeeps k session hl
  exact hl'

end Run

/-! ## Generated reports -/

/-- The report that a command saves, from what it has exchanged. -/
def SavesReport (h : List VoiceExchange) (report : RoomReport) (c : GenerateReportCommand) : Prop :=
  ∃ room stats id t,
    h = [⟨.now, t⟩, ⟨.newID prefixReport, id⟩, ⟨.store (.reportStats room.id), .ok stats⟩,
      ⟨.store (.getRoom c.roomID), .ok room⟩] ∧ report = newReport room stats id t

/-- `GenerateReport`, alone in `p`, generates the report, whether or not it can
be saved and published. -/
def Generates (s : Service) (I : Infra) (p : VoicePool) (c : GenerateReportCommand)
    (envs : List Env) (report : RoomReport) : Prop :=
  ∃ (q : VoicePool) (o : System.Outcome (s.system I) p (.generateReport c, envs) q)
    (answer : Except AppError Unit), (s.system I).perform (.generateReport c, envs) p = some q ∧
      ⟨.store (.saveReport report), answer⟩ ∈ o.history

/-- `GenerateReport`, alone in `p`, generates the report from the sessions that
`ReportStats` counts at `now`. -/
def GeneratesAt (s : Service) (I : Infra) (p : VoicePool) (c : GenerateReportCommand)
    (envs : List Env) (now : Time) (report : RoomReport) : Prop :=
  ∃ (q : VoicePool) (o : System.Outcome (s.system I) p (.generateReport c, envs) q)
    (answer : Except AppError Unit) (e : VoiceEntry),
    (s.system I).perform (.generateReport c, envs) p = some q ∧
    ⟨.store (.saveReport report), answer⟩ ∈ o.history ∧
    e ∈ o.entries ∧ e.exchange.call = .store (.reportStats c.roomID) ∧ e.env.now = now

section Generated

variable {s : Service} {I : Infra} {p : VoicePool} {pre : List VoiceJob}
  {c : GenerateReportCommand} {envs : List Env} {now : Time} {report : RoomReport}

/-- The protocol of `GenerateReport` for counting and saving. -/
def CountsAndSaves (c : GenerateReportCommand) (h : List VoiceExchange) : Effect → Prop
  | .store (.reportStats _) => h.length = 1
  | .store (.saveReport report) => SavesReport h report c
  | _ => True

theorem generateReport_saves (s : Service) (c : GenerateReportCommand) :
    Follows (S := effects) (CountsAndSaves c) anyResult [] (s.program (.generateReport c)) := by
  simp only [Service.program, generateReport, map_eq, bind_eq, bind_assoc, follows_store,
    follows_fresh, follows_require, follows_now, CountsAndSaves, implies_true, and_true, true_and]
  refine fun room _ => ⟨rfl, fun stats id t => ⟨⟨room, stats, id, t, rfl, rfl⟩, fun _ => ?_⟩⟩
  rw [← bind_ret (publish _ _ _ _ _ _)]
  simp [publish, bind_assoc, follows_fresh, follows_now, follows_store, follows_ask,
    follows_ofExcept, CountsAndSaves]

/-- The sessions are counted in `p`, and the command goes on to the report. -/
theorem Generates.counted (hp : (s.system I).serial pre = some p) {q : VoicePool}
    (hq : (s.system I).perform (.generateReport c, envs) p = some q)
    (o : System.Outcome (s.system I) p (.generateReport c, envs) q) {answer : Except AppError Unit}
    (hmem : ⟨.store (.saveReport report), answer⟩ ∈ o.history) :
    ∃ e ∈ o.entries, e.exchange.call = .store (.reportStats c.roomID) ∧
      ∀ e ∈ o.entries, e.exchange.call = .store (.reportStats c.roomID) → ∃ room id t,
        p.state.store.rooms.lookup c.roomID = some room ∧ room.id = c.roomID ∧
        report = newReport room (figures e.env.now p.state.store.listenerSessions
          p.state.store.participantSessions c.roomID) id t := by
  have hfollows := o.follows hq (generateReport_saves s c)
  obtain ⟨f, hf, hx⟩ := List.mem_map.mp hmem
  obtain ⟨newer, older, hentries⟩ := List.append_of_mem hf
  rw [System.Outcome.history] at hfollows
  have hsaves := hfollows
  rw [hentries, List.map_append, List.map_cons, hx] at hsaves
  obtain ⟨room, stats, id, t, hhist, rfl⟩ := hsaves.at
  -- the four calls before the report is saved; the first two read
  obtain ⟨e₄, older, rfl, -, hhist⟩ := List.map_eq_cons_iff.mp hhist
  obtain ⟨e₃, older, rfl, -, hhist⟩ := List.map_eq_cons_iff.mp hhist
  obtain ⟨e₂, older, rfl, hstats, hhist⟩ := List.map_eq_cons_iff.mp hhist
  obtain ⟨e₁, older, rfl, hroom, hhist⟩ := List.map_eq_cons_iff.mp hhist
  obtain rfl := List.map_eq_nil_iff.mp hhist
  rw [List.append_cons, List.append_cons, List.append_cons] at hentries
  have hrep := o.replays
  rw [hentries] at hrep
  obtain ⟨w₂, w₁, ⟨w₀, rfl, hexec₁⟩, hexec₂⟩ := hrep.of_append
  rw [hroom] at hexec₁
  rw [hstats] at hexec₂
  obtain rfl := World.exec_read (c := .getRoom c.roomID) trivial hexec₁
  obtain ⟨ms, hms⟩ := System.serial_isRun hp
  have hl := World.exec_getRoom hexec₁
  have hid : room.id = c.roomID := by
    rw [lookup_rooms (System.run_replays hms)] at hl
    exact stored_room_id hl
  obtain ⟨st, hstep, -⟩ := World.exec_store_ok hexec₂
  refine ⟨e₂, by simp [hentries], by rw [hstats, hid], fun e he hcounts => ?_⟩
  obtain ⟨newer', older', hentries'⟩ := List.append_of_mem he
  rw [hentries', List.map_append, List.map_cons] at hfollows
  have hone := hfollows.at
  rw [hcounts] at hone
  obtain ⟨x, rfl⟩ := List.length_eq_one_iff.mp ((List.length_map _).symm.trans hone)
  have hsame : [e₂, e₁] = [e, x] :=
    List.append_inj_right' (hentries.symm.trans hentries') rfl
  cases hsame
  exact ⟨room, id, t, hl, hid, by rw [Store.reportStats_eq_figures hstep, hid]⟩

/-- The figures of a report are those of the sessions that were stored, at a
clock reading of the command. -/
theorem Generates.figures (hp : (s.system I).serial pre = some p)
    (h : Generates s I p c envs report) :
    ∃ room id t, ∃ now ∈ readings (.generateReport c, envs), room.id = c.roomID ∧
      report = newReport room (WaveCast.figures now p.state.store.listenerSessions
        p.state.store.participantSessions c.roomID) id t := by
  obtain ⟨q, o, answer, hq, hmem⟩ := h
  obtain ⟨e, he, hcounts, hall⟩ := Generates.counted hp hq o hmem
  obtain ⟨room, id, t, -, hid, hreport⟩ := hall e he hcounts
  exact ⟨room, id, t, e.env.now, mem_readings (o.own e he).2.2, hid, hreport⟩

theorem Generates.roomID_eq (hp : (s.system I).serial pre = some p)
    (h : Generates s I p c envs report) : report.roomID = c.roomID := by
  obtain ⟨room, id, t, now, -, hid, rfl⟩ := h.figures hp
  exact hid

theorem GeneratesAt.figures (hp : (s.system I).serial pre = some p)
    (h : GeneratesAt s I p c envs now report) :
    ∃ room id t, p.state.store.rooms.lookup c.roomID = some room ∧
      report = newReport room (WaveCast.figures now p.state.store.listenerSessions
        p.state.store.participantSessions c.roomID) id t := by
  obtain ⟨q, o, answer, e, hq, hmem, he, hcounts, rfl⟩ := h
  obtain ⟨-, -, -, hall⟩ := Generates.counted hp hq o hmem
  obtain ⟨room, id, t, hl, -, hreport⟩ := hall e he hcounts
  exact ⟨room, id, t, hl, hreport⟩

end Generated

end WaveCast
