import WaveCast.Cumulative
import WaveCast.ClosedRooms

/-!
# Listening time after the end of a room

The worker that closes a finished room ends its sessions at its own clock, and a
report that comes before it counts open sessions up to the report. So a report
counts no more than the time up to the end of the room iff no command that
follows the end gives a session an end another second later, and the report
finds none open for that long (`listening_stops_iff`).
-/

namespace WaveCast

open Interaction WaveCast.Action Program Service

/-- The whole seconds of the room's sessions up to their ends, or up to
`endedAt` where this is earlier. -/
def secondsUntil (listeners : Table ListenerSession) (roomID : String) (now endedAt : Time) : Int :=
  listeners.total fun x =>
    if x.roomID = roomID then secondsBetween x.joinedAt (min (x.leftAt.getD now) endedAt) else 0

/-- A listener who joined at `joinedAt` is counted more seconds at `t` than at `endedAt`. -/
def AnotherSecond (joinedAt endedAt t : Time) : Prop :=
  secondsBetween joinedAt endedAt < secondsBetween joinedAt t

/-- What took the pool from `p` to `q` has given the session the end `t`. -/
structure GivesEnd (p q : VoicePool) (k : String) (session : ListenerSession) (t : Time) :
    Prop where
  before : p.state.store.listenerSessions.lookup k = some session
  new : session.leftAt ≠ some t
  after : ∃ session', q.state.store.listenerSessions.lookup k = some session' ∧
    session'.leftAt = some t

/-- No session of the room goes on for another second after `endedAt`, when the
room has been finished by `jobs`. -/
structure EndsInTime (s : Service) (I : Infra) (jobs : List VoiceJob) (p : VoicePool)
    (roomID : String) (now endedAt : Time) : Prop where
  /-- No command of the finished room ends a session that late. -/
  commands : ∀ pre job post p₀ p₁, jobs = pre ++ job :: post →
    (s.system I).serial pre = some p₀ → (s.system I).perform job p₀ = some p₁ →
    p₀.state.RoomFinished roomID → ∀ k session t, GivesEnd p₀ p₁ k session t →
      session.roomID = roomID → ¬ AnotherSecond session.joinedAt endedAt t
  /-- No session is left open that long, until it is counted at `now`. -/
  report : ∀ k session, p.state.store.listenerSessions.lookup k = some session →
    session.roomID = roomID → session.leftAt = none → ¬ AnotherSecond session.joinedAt endedAt now

section Seconds

variable {joinedAt now endedAt t t' : Time} {listeners : Table ListenerSession} {roomID : String}

theorem not_anotherSecond (h : t ≤ endedAt) : ¬ AnotherSecond joinedAt endedAt t :=
  not_lt.mpr (secondsBetween_mono h)

theorem AnotherSecond.later (h : AnotherSecond joinedAt endedAt t) (hle : t ≤ t') :
    AnotherSecond joinedAt endedAt t' :=
  h.trans_le (secondsBetween_mono hle)

theorem le_min_iff_not_anotherSecond :
    secondsBetween joinedAt t ≤ secondsBetween joinedAt (min t endedAt) ↔
      ¬ AnotherSecond joinedAt endedAt t := by
  rcases le_total t endedAt with hle | hle
  · rw [min_eq_left hle]
    exact iff_of_true le_rfl (not_anotherSecond hle)
  · rw [min_eq_right hle, AnotherSecond, not_lt]

/-- A sum that is nowhere less than another one is no more iff it is so everywhere. -/
theorem Table.total_le_iff {V : Type} {t : Table V} {f f' : V → Int} (h : ∀ v, f' v ≤ f v) :
    t.total f ≤ t.total f' ↔ ∀ k v, t.lookup k = some v → f v ≤ f' v := by
  have hle : ∀ k, (t.lookup k).elim 0 f' ≤ (t.lookup k).elim 0 f := by
    intro k
    cases t.lookup k with
    | none => exact le_rfl
    | some v => exact h v
  constructor
  · intro hsum k v hl
    by_contra hlt
    refine absurd hsum (not_le.mpr (Finset.sum_lt_sum (fun k _ => hle k) ⟨k, ?_, ?_⟩))
    · exact Finmap.mem_keys.mpr (Finmap.mem_of_lookup_eq_some hl)
    · rw [hl]
      exact not_le.mp hlt
  · intro hall
    refine Finset.sum_le_sum fun k _ => ?_
    cases hl : t.lookup k with
    | none => exact le_rfl
    | some v => exact hall k v hl

theorem total_le_secondsUntil_iff :
    (listeners.total fun x => if x.roomID = roomID then Store.listeningSeconds now x else 0) ≤
        secondsUntil listeners roomID now endedAt ↔
      ∀ k x, listeners.lookup k = some x → x.roomID = roomID →
        ¬ AnotherSecond x.joinedAt endedAt (x.leftAt.getD now) := by
  rw [secondsUntil, Table.total_le_iff]
  · refine forall₃_congr fun k x _ => ?_
    split
    · rename_i hroom
      rw [listeningSeconds_eq, le_min_iff_not_anotherSecond, imp_iff_right hroom]
    · simp [*]
  · intro x
    split
    · exact secondsBetween_mono (min_le_left _ _)
    · exact le_rfl

end Seconds

/-! ## Where the ends come from -/

section Ends

variable {s : Service} {I : Infra} {p q : VoicePool} {cmd : Command} {envs : List Env}
  {jobs post : List VoiceJob} {k : String} {room : Room} {session : ListenerSession} {t : Time}

/-- **The end of a room** was stored before the command, or is one of its clock
readings. -/
theorem CommandRun.ended_reading {o : System.Outcome (s.system I) p (cmd, envs) q}
    (r : CommandRun s I p q (cmd, envs) o) (h : q.state.store.rooms.lookup k = some room)
    (hf : room.status = .finished) (ht : room.endedAt = some t) :
    t ∈ readings (cmd, envs) ∨ ∃ room₀, p.state.store.rooms.lookup k = some room₀ ∧
      room₀.status = .finished ∧ room₀.endedAt = some t := by
  rcases r.room_cases h with ⟨-, c, -, hdraft⟩ | ⟨room₀, hl, hch, hsaved⟩ | hkept
  · cases hdraft.symm.trans hf
  · rcases hch.finished hf with ⟨c, rfl, -⟩ | ⟨hf₀, hat, -⟩
    · obtain ⟨e, he, hx⟩ := List.mem_map.mp hsaved
      obtain ⟨newer, older, hentries⟩ := List.append_of_mem he
      have hsave := r.asks_at hentries
      rw [hx] at hsave
      obtain ⟨t', room₁, hh, -, -, rfl⟩ := hsave
      cases ht
      refine .inl (now_reading o ?_)
      rw [System.Outcome.history, hentries]
      simp [hh]
    · exact .inr ⟨room₀, hl, hf₀, hat ▸ ht⟩
  · exact .inr ⟨room, hkept, hf, ht⟩

/-- A room that the rest of a run finishes ends at a clock reading of the rest. -/
theorem finished_later (hp : (s.system I).serial jobs = some p)
    (hq : (s.system I).performAll post p = some q)
    (h : q.state.store.rooms.lookup k = some room) (hf : room.status = .finished)
    (ht : room.endedAt = some t) : p.state.RoomFinished k ∨ t ∈ post.flatMap readings := by
  induction post using List.reverseRecOn generalizing q room with
  | nil =>
    cases hq
    exact .inl ⟨room, h, hf⟩
  | append_singleton post job ih =>
    obtain ⟨p₁, hp₁, hjob⟩ := System.performAll_concat.mp hq
    obtain ⟨o, r⟩ := exists_commandRun (System.serial_append hp hp₁) hjob
    rw [List.flatMap_append, List.mem_append]
    rcases r.ended_reading h hf ht with hread | ⟨room₁, hl₁, hf₁, ht₁⟩
    · exact .inr (.inr (by simpa using hread))
    · exact (ih hp₁ hl₁ hf₁ ht₁).imp_right .inl

/-- `FinishRoom` ends no session. -/
theorem CommandRun.finishes_no_session {o : System.Outcome (s.system I) p (cmd, envs) q}
    (r : CommandRun s I p q (cmd, envs) o) (hp : ¬ p.state.RoomFinished k)
    (hq : q.state.RoomFinished k) {k' : String} : ¬ GivesEnd p q k' session t := by
  rintro ⟨hbefore, hnew, session', hafter, ht⟩
  obtain ⟨room, hl, hf⟩ := hq
  have hfinish : ∃ c, cmd = .finishRoom c := by
    rcases r.room_cases hl with ⟨-, c, -, hdraft⟩ | ⟨room₀, hl₀, hch, -⟩ | hkept
    · cases hdraft.symm.trans hf
    · rcases hch.finished hf with ⟨c, hcmd, -⟩ | ⟨hf₀, -⟩
      · exact ⟨c, hcmd⟩
      · exact absurd ⟨room₀, hl₀, hf₀⟩ hp
    · exact absurd ⟨room, hkept, hf⟩ hp
  obtain ⟨c, rfl⟩ := hfinish
  rcases r.session_cases hafter with ⟨c', t', room', hcmd, -⟩ | ⟨session₀, -, hstep, -⟩ | hkept
  · cases hcmd
  · cases hstep
  · cases hbefore.symm.trans hkept
    exact hnew ht

/-- **An ended session was ended by one of the commands.** -/
theorem exists_ending (hp : (s.system I).serial jobs = some p)
    (hl : p.state.store.listenerSessions.lookup k = some session) (ht : session.leftAt = some t) :
    ∃ pre job post p₀ p₁ session₀, jobs = pre ++ job :: post ∧
      (s.system I).serial pre = some p₀ ∧ (s.system I).perform job p₀ = some p₁ ∧
      (s.system I).performAll post p₁ = some p ∧ GivesEnd p₀ p₁ k session₀ t ∧
      session₀.identity = session.identity := by
  induction jobs using List.reverseRecOn generalizing p session with
  | nil =>
    cases hp
    cases (Finmap.lookup_empty k).symm.trans hl
  | append_singleton jobs job ih =>
    obtain ⟨p₀, hp₀, hjob⟩ := System.serial_concat.mp hp
    obtain ⟨o, r⟩ := exists_commandRun hp₀ hjob
    cases hl₀ : p₀.state.store.listenerSessions.lookup k with
    | none =>
      -- a new session has no end
      rcases r.session_cases hl with ⟨c, t', room, -, -, -, -, rfl⟩ | ⟨session₀, hl', -⟩ | hl'
      · cases ht
      · cases hl₀.symm.trans hl'
      · cases hl₀.symm.trans hl'
    | some session₀ =>
      obtain ⟨session', hl', hid, -⟩ := r.session_goes_on hl₀
      cases hl.symm.trans hl'
      by_cases hsame : session₀.leftAt = some t
      · obtain ⟨pre, job', post, p₁, p₂, session₁, rfl, hpre, hjob', hpost, hends, hid'⟩ :=
          ih hp₀ hl₀ hsame
        exact ⟨pre, job', post ++ [job], p₁, p₂, session₁, by simp, hpre, hjob',
          System.performAll_concat.mpr ⟨p₀, hpost, hjob⟩, hends, hid'.trans hid.symm⟩
      · exact ⟨jobs, job, [], p₀, p, session₀, rfl, hp₀, hjob, rfl,
          ⟨hl₀, hsame, session, hl, ht⟩, hid.symm⟩

end Ends

/-- After a sequential run of `jobs`, a report is generated of a room that was
finished at `endedAt`. -/
structure LateReport (s : Service) (I : Infra) (jobs : List VoiceJob) (p : VoicePool)
    (c : GenerateReportCommand) (envs : List Env) (now : Time) (report : RoomReport)
    (endedAt : Time) : Prop where
  run : (s.system I).serial jobs = some p
  clock : ClockSteady (jobs ++ [(.generateReport c, envs)])
  finished : ∃ room, p.state.store.rooms.lookup c.roomID = some room ∧ room.status = .finished ∧
    room.endedAt = some endedAt
  generated : GeneratesAt s I p c envs now report

section Report

variable {s : Service} {I : Infra} {jobs : List VoiceJob} {p : VoicePool}
  {c : GenerateReportCommand} {envs : List Env} {now endedAt : Time} {report : RoomReport}

theorem ListenerSession.joinedAt_eq {session session' : ListenerSession}
    (h : session.identity = session'.identity) :
    session.roomID = session'.roomID ∧ session.joinedAt = session'.joinedAt := by
  simp only [ListenerSession.identity, Prod.mk.injEq] at h
  exact ⟨h.2.1, h.2.2.2.1⟩

theorem LateReport.clock_jobs (h : LateReport s I jobs p c envs now report endedAt) :
    ClockSteady jobs := by
  have hclock := h.clock
  rw [ClockSteady, List.flatMap_append] at hclock
  exact (List.pairwise_append.mp hclock).1

/-- An end that comes too late stays, or is put off further. -/
theorem EndsInTime.of_sessions (h : LateReport s I jobs p c envs now report endedAt)
    (hall : ∀ k x, p.state.store.listenerSessions.lookup k = some x → x.roomID = c.roomID →
      ¬ AnotherSecond x.joinedAt endedAt (x.leftAt.getD now)) :
    EndsInTime s I jobs p c.roomID now endedAt := by
  refine ⟨?_, fun k session hl hroom hopen => ?_⟩
  · rintro pre job post p₀ p₁ rfl hp₀ hjob - k session t
      ⟨hbefore, -, session', hafter, ht⟩ hroom hlate
    have hp₁ : (s.system I).serial (pre ++ [job]) = some p₁ :=
      System.serial_concat.mpr ⟨p₀, hp₀, hjob⟩
    have hpost : (s.system I).performAll post p₁ = some p := by
      have hrun := h.run
      rw [List.append_cons, System.serial, System.performAll_append,
        show (s.system I).performAll (pre ++ [job]) _ = some p₁ from hp₁] at hrun
      exact hrun
    have hclock : ClockSteady ((pre ++ [job]) ++ post) := by
      simpa using h.clock_jobs
    obtain ⟨o, r⟩ := exists_commandRun hp₀ hjob
    obtain ⟨session₁, hl₁, hid₁, -⟩ := r.session_goes_on hbefore
    cases hafter.symm.trans hl₁
    obtain ⟨x, hl, hid, hleft⟩ := session_later hp₁ hpost hafter
    obtain ⟨hroom', hjoined⟩ := ListenerSession.joinedAt_eq (hid.trans hid₁)
    refine hall k x hl (hroom'.trans hroom) ?_
    rw [hjoined]
    rcases hleft with hsame | ⟨t', hread, ht'⟩
    · rwa [hsame, ht]
    · rw [ht']
      exact hlate.later (hclock.le (serial_left hp₁ hafter ht) hread)
  · have := hall k session hl hroom
    rwa [hopen] at this

theorem EndsInTime.sessions (h : LateReport s I jobs p c envs now report endedAt)
    (hends : EndsInTime s I jobs p c.roomID now endedAt) {k : String} {x : ListenerSession}
    (hl : p.state.store.listenerSessions.lookup k = some x) (hroom : x.roomID = c.roomID) :
    ¬ AnotherSecond x.joinedAt endedAt (x.leftAt.getD now) := by
  cases ht : x.leftAt with
  | none => exact hends.report k x hl hroom ht
  | some t =>
    rw [Option.getD_some]
    obtain ⟨pre, job, post, p₀, p₁, session, rfl, hp₀, hjob, hpost, hend, hid⟩ :=
      exists_ending h.run hl ht
    obtain ⟨hroom', hjoined⟩ := ListenerSession.joinedAt_eq hid
    by_cases hf₀ : p₀.state.RoomFinished c.roomID
    · rw [← hjoined]
      exact hends.commands pre job post p₀ p₁ rfl hp₀ hjob hf₀ k session t hend
        (hroom'.trans hroom)
    · -- the room was finished later than the session ended
      obtain ⟨o, r⟩ := exists_commandRun hp₀ hjob
      have hf₁ : ¬ p₁.state.RoomFinished c.roomID := fun hf₁ =>
        r.finishes_no_session hf₀ hf₁ hend
      have hp₁ : (s.system I).serial (pre ++ [job]) = some p₁ :=
        System.serial_concat.mpr ⟨p₀, hp₀, hjob⟩
      obtain ⟨room, hlr, hf, hended⟩ := h.finished
      have hread := (finished_later hp₁ hpost hlr hf hended).resolve_left hf₁
      have hclock : ClockSteady ((pre ++ [job]) ++ post) := by
        simpa using h.clock_jobs
      obtain ⟨session', hafter, ht'⟩ := hend.after
      exact not_anotherSecond (hclock.le (serial_left hp₁ hafter ht') hread)

end Report

/-- **No time after the end of a room is counted** by a later report iff the
commands that follow the end, and the report, leave no session open for another
second. -/
theorem listening_stops_iff (s : Service) (I : Infra) (jobs : List VoiceJob) (p : VoicePool)
    (c : GenerateReportCommand) (envs : List Env) (now : Time) (report : RoomReport)
    (endedAt : Time) (h : LateReport s I jobs p c envs now report endedAt) :
    report.summary.totalListeningSeconds ≤
        secondsUntil p.state.store.listenerSessions c.roomID now endedAt ↔
      EndsInTime s I jobs p c.roomID now endedAt := by
  obtain ⟨room, id, t, -, rfl⟩ := h.generated.figures h.run
  refine total_le_secondsUntil_iff.trans ⟨fun hall => .of_sessions h hall, ?_⟩
  exact fun hends k x hl hroom => hends.sessions h hl hroom

/-! ## A guest who leaves, and one who stays -/

theorem Generates.at_time {s : Service} {I : Infra} {p : VoicePool} {pre : List VoiceJob}
    {c : GenerateReportCommand} {envs : List Env} {t : Time} {report : RoomReport}
    (hp : (s.system I).serial pre = some p) (h : Generates s I p c (callsAt t envs) report) :
    GeneratesAt s I p c (callsAt t envs) t report := by
  obtain ⟨q, o, answer, hq, hmem⟩ := h
  obtain ⟨e, he, hcounts, -⟩ := Generates.counted hp hq o hmem
  obtain ⟨env, -, henv⟩ := List.mem_map.mp (o.own e he).2.2
  exact ⟨q, o, answer, e, hq, hmem, he, hcounts, by rw [← henv]⟩

/-- The room is finished after ten seconds. -/
def finishedAfter (p : VoicePool) : Bool :=
  (p.state.store.rooms.lookup sampleRoom).any fun room =>
    room.status = .finished && room.endedAt = some (10 * second)

theorem lateReport_of_counts (jobs : List VoiceJob) (ok : VoicePool → Bool) {t : Time}
    {n m : Fin 100} {k : Int}
    (hclock : ClockSteady (jobs ++ [atTime t (ownerReports n m)]))
    (hok : ((sampleService.system (sampleInfra fun _ => false)).serial jobs).any (fun p =>
      finishedAfter p && ok p) = true)
    (h : ((sampleService.system (sampleInfra fun _ => false)).serial jobs).any (fun p =>
      !counts p k && ((sampleService.system (sampleInfra fun _ => false)).perform
        (atTime t (ownerReports n m)) p).any (counts · k)) = true) :
    ∃ p report, LateReport sampleService (sampleInfra fun _ => false) jobs p
      ⟨sampleRoom, "owner", ""⟩ (atTime t (ownerReports n m)).2 t report (10 * second) ∧
      report.summary.totalListeningSeconds = k ∧ ok p = true := by
  obtain ⟨p, report, hp, hgen, hk⟩ := generates_of_counts jobs h
  obtain ⟨p', hp', hfacts⟩ := (Option.any_eq_true _ _).mp hok
  cases hp.symm.trans hp'
  obtain ⟨hroom, hokp⟩ := Bool.and_eq_true_iff.mp hfacts
  obtain ⟨room, hl, hfacts⟩ := (Option.any_eq_true _ _).mp hroom
  obtain ⟨hf, hended⟩ := Bool.and_eq_true_iff.mp hfacts
  exact ⟨p, report, ⟨hp, hclock, ⟨room, hl, of_decide_eq_true hf, of_decide_eq_true hended⟩,
    hgen.at_time hp⟩, hk, hokp⟩

/-- The guest leaves, the room is finished and reported. -/
def guestLeavesFirst : List VoiceJob :=
  (openRoom ++ [guestJoins]).map (atTime 0) ++
    [atTime (5 * second) guestLeaves, atTime (10 * second) ownerFinishes]

/-- The room is finished, and closed a minute later. -/
def closedLate : List VoiceJob :=
  (openRoom ++ [guestJoins]).map (atTime 0) ++ [atTime (10 * second) ownerFinishes,
    atTime (70 * second) (.closeRoomSessions sampleRoom (70 * second) "",
      visiting [guestSession] ++ plain 2)]

theorem listening_stops_left : ∃ p report,
    LateReport sampleService (sampleInfra fun _ => false) guestLeavesFirst p
      ⟨sampleRoom, "owner", ""⟩ (atTime (60 * second) (ownerReports 9 10)).2 (60 * second) report
      (10 * second) ∧
    report.summary.totalListeningSeconds = 5 ∧ report.summary.totalListeningSeconds ≤
      secondsUntil p.state.store.listenerSessions sampleRoom (60 * second) (10 * second) := by
  obtain ⟨p, report, hlate, hfive, hends⟩ := lateReport_of_counts guestLeavesFirst
    (fun p => decide (∀ k ∈ p.state.store.listenerSessions.keys,
      ((p.state.store.listenerSessions.lookup k).all fun x =>
        x.leftAt.getD (60 * second) ≤ 10 * second) = true))
    (t := 60 * second) (n := 9) (m := 10) (k := 5)
    (by unfold ClockSteady; decide +kernel) (by decide +kernel) (by decide +kernel)
  refine ⟨p, report, hlate, hfive, (listening_stops_iff _ _ _ p _ _ _ report _ hlate).mpr ?_⟩
  refine .of_sessions hlate fun k x hl _ => not_anotherSecond ?_
  have hall := of_decide_eq_true hends k (Finmap.mem_keys.mpr (Finmap.mem_of_lookup_eq_some hl))
  rw [hl, Option.all_some] at hall
  exact of_decide_eq_true hall

/-- The minute between the end of the room and its closing is counted. -/
theorem listening_stops_fails :
    ¬ ∀ (s : Service) (I : Infra) (jobs : List VoiceJob) (p : VoicePool)
      (c : GenerateReportCommand) (envs : List Env) (now : Time) (report : RoomReport)
      (endedAt : Time), LateReport s I jobs p c envs now report endedAt →
      report.summary.totalListeningSeconds ≤
        secondsUntil p.state.store.listenerSessions c.roomID now endedAt := by
  intro hclaim
  obtain ⟨p, report, hlate, hseventy, hless⟩ := lateReport_of_counts closedLate
    (fun p => decide (secondsUntil p.state.store.listenerSessions sampleRoom (80 * second)
      (10 * second) < 70))
    (t := 80 * second) (n := 9) (m := 10) (k := 70)
    (by unfold ClockSteady; decide +kernel) (by decide +kernel) (by decide +kernel)
  have hle := hclaim _ _ _ p _ _ _ report _ hlate
  rw [hseventy] at hle
  exact absurd hle (not_le.mpr (of_decide_eq_true hless))

end WaveCast
