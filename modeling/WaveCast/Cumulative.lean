import WaveCast.ListeningTime
import WaveCast.Confinement

/-!
# Cumulative figures

Listeners, speakers, joins and listening time of a room only grow from one
report to the next (`reports_grow`). Sessions are never taken out and keep their
room and their user. Each one is counted up to its end, or up to the report
while it has none, and on a clock that never goes back this comes no earlier in
a later report (`session_ends_later`).
-/

namespace WaveCast

open Interaction WaveCast.Action Program Service

/-! ## Growing tables -/

namespace Table

variable {V : Type} {t t' : Table V}

theorem count_mono {f : V → Bool} (h : ∀ k v, t.lookup k = some v → f v = true →
    ∃ v', t'.lookup k = some v' ∧ f v' = true) : t.count f ≤ t'.count f := by
  refine Finset.card_le_card fun k hk => ?_
  obtain ⟨-, hany⟩ := Finset.mem_filter.mp hk
  obtain ⟨v, hl, hf⟩ := (Option.any_eq_true _ _).mp hany
  obtain ⟨v', hl', hf'⟩ := h k v hl hf
  refine Finset.mem_filter.mpr ⟨Finmap.mem_keys.mpr (Finmap.mem_of_lookup_eq_some hl'), ?_⟩
  exact (Option.any_eq_true _ _).mpr ⟨v', hl', hf'⟩

theorem distinct_mono {f : V → Bool} {g : V → String} (h : ∀ k v, t.lookup k = some v →
    f v = true → ∃ v', t'.lookup k = some v' ∧ f v' = true ∧ g v' = g v) :
    t.distinct f g ⊆ t'.distinct f g := by
  intro x hx
  obtain ⟨k, v, hl, hf, rfl⟩ := mem_distinct.mp hx
  obtain ⟨v', hl', hf', hg⟩ := h k v hl hf
  exact mem_distinct.mpr ⟨k, v', hl', hf', hg⟩

theorem total_mono {f f' : V → Int}
    (h : ∀ k v, t.lookup k = some v → ∃ v', t'.lookup k = some v' ∧ f v ≤ f' v')
    (hpos : ∀ v, 0 ≤ f' v) : t.total f ≤ t'.total f' := by
  have hkeys : t.keys ⊆ t'.keys := by
    intro k hk
    obtain ⟨v, hl⟩ := Finmap.mem_iff.mp (Finmap.mem_keys.mp hk)
    obtain ⟨v', hl', -⟩ := h k v hl
    exact Finmap.mem_keys.mpr (Finmap.mem_of_lookup_eq_some hl')
  calc t.total f ≤ ∑ k ∈ t.keys, (t'.lookup k).elim 0 f' := by
        refine Finset.sum_le_sum fun k hk => ?_
        obtain ⟨v, hl⟩ := Finmap.mem_iff.mp (Finmap.mem_keys.mp hk)
        obtain ⟨v', hl', hle⟩ := h k v hl
        rw [hl, hl']
        exact hle
    _ ≤ t'.total f' := by
        refine Finset.sum_le_sum_of_subset_of_nonneg hkeys fun k _ _ => ?_
        cases t'.lookup k with
        | none => exact le_rfl
        | some v => exact hpos v

end Table

/-! ## Two reports -/

/-- The figures that count over the whole time of a room. -/
structure ReportSummary.AtLeast (later earlier : ReportSummary) : Prop where
  uniqueListeners : earlier.uniqueListeners ≤ later.uniqueListeners
  uniqueSpeakers : earlier.uniqueSpeakers ≤ later.uniqueSpeakers
  totalJoinEvents : earlier.totalJoinEvents ≤ later.totalJoinEvents
  totalListeningSeconds : earlier.totalListeningSeconds ≤ later.totalListeningSeconds

section Figures

variable {now now' : Time} {listeners listeners' : Table ListenerSession}
  {participants participants' : Table ParticipantSession} {roomID : String}

/-- The figures grow when every session goes on and ends no earlier. -/
theorem figures_grow
    (hl : ∀ k x, listeners.lookup k = some x → ∃ x', listeners'.lookup k = some x' ∧
      x'.identity = x.identity ∧ x.leftAt.getD now ≤ x'.leftAt.getD now')
    (hp : ∀ k x, participants.lookup k = some x → participants'.lookup k = some x)
    (room room' : Room) (id id' : String) (t t' : Time) :
    (newReport room' (figures now' listeners' participants' roomID) id' t').summary.AtLeast
      (newReport room (figures now listeners participants roomID) id t).summary := by
  have hfields : ∀ {x x' : ListenerSession}, x'.identity = x.identity →
      x'.roomID = x.roomID ∧ x'.userID = x.userID ∧ x'.joinedAt = x.joinedAt := by
    intro x x' h
    simp only [ListenerSession.identity, Prod.mk.injEq] at h
    exact ⟨h.2.1, h.2.2.1, h.2.2.2.1⟩
  have husers : (listeners.distinct (·.roomID = roomID) (·.userID)).card ≤
      (listeners'.distinct (·.roomID = roomID) (·.userID)).card := by
    refine Finset.card_le_card (Table.distinct_mono fun k x hx hr => ?_)
    obtain ⟨x', hx', hid, -⟩ := hl k x hx
    obtain ⟨hroom, huser, -⟩ := hfields hid
    exact ⟨x', hx', by rwa [hroom], huser⟩
  have hspeakers : (participants.distinct
      (fun p => p.roomID = roomID && roleUsesLiveKit p.role) (·.userID)).card ≤
      (participants'.distinct
        (fun p => p.roomID = roomID && roleUsesLiveKit p.role) (·.userID)).card :=
    Finset.card_le_card (Table.distinct_mono fun k x hx hr => ⟨x, hp k x hx, hr, rfl⟩)
  have hjoins : listeners.count (·.roomID = roomID) ≤ listeners'.count (·.roomID = roomID) := by
    refine Table.count_mono fun k x hx hr => ?_
    obtain ⟨x', hx', hid, -⟩ := hl k x hx
    exact ⟨x', hx', by rwa [(hfields hid).1]⟩
  have hseconds : (listeners.total fun x =>
        if x.roomID = roomID then Store.listeningSeconds now x else 0) ≤
      listeners'.total fun x =>
        if x.roomID = roomID then Store.listeningSeconds now' x else 0 := by
    refine Table.total_mono (fun k x hx => ?_) fun x => ?_
    · obtain ⟨x', hx', hid, hend⟩ := hl k x hx
      obtain ⟨hroom, -, hjoined⟩ := hfields hid
      refine ⟨x', hx', ?_⟩
      rw [hroom]
      split
      · rw [listeningSeconds_eq, listeningSeconds_eq, hjoined]
        exact secondsBetween_mono hend
      · exact le_rfl
    · split
      · exact secondsBetween_nonneg _ _
      · exact le_rfl
  exact ⟨husers, hspeakers, hjoins, hseconds⟩

end Figures

/-- A sequential run of `jobs` generates `report`, and `report'` later on. -/
def GeneratesBoth (s : Service) (I : Infra) (jobs : List VoiceJob)
    (report report' : RoomReport) : Prop :=
  ∃ pre c envs mid c' envs' post p p',
    jobs = pre ++ (.generateReport c, envs) :: (mid ++ (.generateReport c', envs') :: post) ∧
    (s.system I).serial pre = some p ∧ Generates s I p c envs report ∧
    (s.system I).serial (pre ++ (.generateReport c, envs) :: mid) = some p' ∧
    Generates s I p' c' envs' report'

section Reports

variable {s : Service} {I : Infra} {p q : VoicePool} {c : GenerateReportCommand} {envs : List Env}

/-- Generating a report leaves the sessions as they are. -/
theorem generateReport_sessions {o : System.Outcome (s.system I) p (.generateReport c, envs) q}
    (r : CommandRun s I p q (.generateReport c, envs) o) {k : String} {session : ListenerSession}
    (hl : p.state.store.listenerSessions.lookup k = some session) :
    q.state.store.listenerSessions.lookup k = some session := by
  obtain ⟨session', hl', -⟩ := r.session_goes_on hl
  rcases r.session_cases hl' with ⟨c', t, room, hcmd, -⟩ | ⟨session₀, -, hstep, -⟩ | hkept
  · cases hcmd
  · cases hstep
  · cases hl.symm.trans hkept
    exact hl'

section Between

variable {pre mid post : List VoiceJob} {job : VoiceJob} {p' : VoicePool}
  (hclock : ClockSteady (pre ++ (.generateReport c, envs) :: (mid ++ job :: post)))
  (hp : (s.system I).serial pre = some p)
  (hq : (s.system I).perform (.generateReport c, envs) p = some q)
  (hp' : (s.system I).performAll mid q = some p')

include hclock hp hq hp'

/-- A session that was there at one report is there at a later one, where it
ends no earlier. -/
theorem session_ends_later {now now' : Time} (hnow : now ∈ readings (.generateReport c, envs))
    (hnow' : now' ∈ readings job) {k : String} {session : ListenerSession}
    (hl : p.state.store.listenerSessions.lookup k = some session) :
    ∃ session', p'.state.store.listenerSessions.lookup k = some session' ∧
      session'.identity = session.identity ∧
      session.leftAt.getD now ≤ session'.leftAt.getD now' := by
  have hclock' : ClockSteady ((pre ++ [(.generateReport c, envs)]) ++ (mid ++ job :: post)) := by
    simpa using hclock
  have hearlier : ∀ t, t ∈ pre.flatMap readings ∨ t = now →
      t ∈ (pre ++ [((.generateReport c, envs) : VoiceJob)]).flatMap readings := by
    rintro t (ht | rfl)
    · rw [List.flatMap_append]
      exact List.mem_append_left _ ht
    · simp [hnow]
  obtain ⟨o, r⟩ := exists_commandRun hp hq
  have hserial := System.serial_concat.mpr ⟨p, hp, hq⟩
  obtain ⟨session', hl', hid, hleft⟩ := session_later hserial hp' (generateReport_sessions r hl)
  refine ⟨session', hl', hid, ?_⟩
  rcases hleft with hsame | ⟨t, ht, hended⟩
  · rw [hsame]
    cases session.leftAt with
    | none => exact hclock'.le (hearlier now (.inr rfl)) (by simp [hnow'])
    | some a => exact le_rfl
  · rw [hended]
    have hlater : t ∈ (mid ++ job :: post).flatMap readings := by simp [ht]
    cases ha : session.leftAt with
    | none => exact hclock'.le (hearlier now (.inr rfl)) hlater
    | some a => exact hclock'.le (hearlier a (.inl (serial_left hp hl ha))) hlater

end Between

/-- **Cumulative figures never go backwards**, whatever commands come between
the two reports. -/
theorem reports_grow (s : Service) (I : Infra) (jobs : List VoiceJob) (hclock : ClockSteady jobs)
    (report report' : RoomReport) (h : GeneratesBoth s I jobs report report')
    (hroom : report.roomID = report'.roomID) : report'.summary.AtLeast report.summary := by
  obtain ⟨pre, c, envs, mid, c', envs', post, p, p', rfl, hp, hgen, hp', hgen'⟩ := h
  have hall : (s.system I).performAll ((.generateReport c, envs) :: mid) p = some p' := by
    rw [System.serial, System.performAll_append,
      show (s.system I).performAll pre _ = some p from hp] at hp'
    exact hp'
  obtain ⟨q, hq, hmid⟩ := Option.bind_eq_some_iff.mp hall
  have hsame : c.roomID = c'.roomID :=
    (hgen.roomID_eq hp).symm.trans (hroom.trans (hgen'.roomID_eq hp'))
  obtain ⟨room, id, t, now, hnow, -, rfl⟩ := hgen.figures hp
  obtain ⟨room', id', t', now', hnow', -, rfl⟩ := hgen'.figures hp'
  rw [← hsame]
  exact figures_grow (fun k session hl => session_ends_later hclock hp hq hmid hnow hnow' hl)
    (fun k session hl => participant_later hp hall hl) room room' id id' t t'

/-- A report that a command has stored was generated by it. -/
theorem generates_of_stored {pre : List VoiceJob} {roomID : String} {report : RoomReport}
    (hp : (s.system I).serial pre = some p)
    (hq : (s.system I).perform (.generateReport c, envs) p = some q)
    (hl : q.state.store.reportsByRoom.lookup roomID = some report)
    (hnew : p.state.store.reportsByRoom.lookup roomID ≠ some report) :
    Generates s I p c envs report := by
  obtain ⟨o, r⟩ := exists_commandRun hp hq
  rcases o.written_or_kept (fun t w hw k => lookup_reports hw k) r.replays_before r.replays_after hl
    with ⟨newer, e, older, hentries, hw⟩ | hkept
  · obtain ⟨hx, -⟩ := savedReport_eq_some.mp hw
    refine ⟨q, o, .ok (), hq, ?_⟩
    rw [System.Outcome.history, hentries]
    simp [hx]
  · exact absurd hkept hnew

end Reports

/-! ## A listener between two reports -/

def atTime (t : Time) (job : VoiceJob) : VoiceJob := (job.1, callsAt t job.2)

/-- The owner has a report generated while the guest's session is stored. -/
def ownerReports (n m : Fin 100) : VoiceJob :=
  (.generateReport ⟨sampleRoom, "owner", ""⟩,
    plain 1 ++ visiting [guestSession] ++ drawing n ++ plain 2 ++ publishing m)

/-- The guest listens for twenty seconds; reports are generated after ten and
after thirty. -/
def reportedTwice : List VoiceJob :=
  (openRoom ++ [guestJoins]).map (atTime 0) ++
    [atTime (10 * second) (ownerReports 7 8), atTime (20 * second) guestLeaves,
      atTime (30 * second) (ownerReports 9 10)]

/-- The report of the room counts `n` seconds. -/
def counts (p : VoicePool) (n : Int) : Bool :=
  (p.state.store.reportsByRoom.lookup sampleRoom).any (·.summary.totalListeningSeconds = n)

/-- The report that the job stores in the room is generated by it. -/
theorem generates_of_counts (pre : List VoiceJob) {t : Time} {n m : Fin 100} {k : Int}
    (h : ((sampleService.system (sampleInfra fun _ => false)).serial pre).any (fun p =>
      !counts p k && ((sampleService.system (sampleInfra fun _ => false)).perform
        (atTime t (ownerReports n m)) p).any (counts · k)) = true) :
    ∃ p report, (sampleService.system (sampleInfra fun _ => false)).serial pre = some p ∧
      Generates sampleService (sampleInfra fun _ => false) p ⟨sampleRoom, "owner", ""⟩
        (atTime t (ownerReports n m)).2 report ∧ report.summary.totalListeningSeconds = k := by
  obtain ⟨p, hp, hfacts⟩ := (Option.any_eq_true _ _).mp h
  obtain ⟨hold, hreport⟩ := Bool.and_eq_true_iff.mp hfacts
  obtain ⟨q, hq, hnew⟩ := (Option.any_eq_true _ _).mp hreport
  obtain ⟨report, hl, hk⟩ := (Option.any_eq_true _ _).mp hnew
  refine ⟨p, report, hp, generates_of_stored hp hq hl fun hl' => ?_, of_decide_eq_true hk⟩
  simp [counts, hl', of_decide_eq_true hk] at hold

theorem reports_grow_guest : ∃ report report',
    GeneratesBoth sampleService (sampleInfra fun _ => false) reportedTwice report report' ∧
      report.summary.totalListeningSeconds = 10 ∧ report'.summary.totalListeningSeconds = 20 ∧
      report'.summary.AtLeast report.summary := by
  obtain ⟨p, report, hp, hgen, hten⟩ := generates_of_counts (reportedTwice.take 3)
    (t := 10 * second) (n := 7) (m := 8) (k := 10) (by decide +kernel)
  obtain ⟨p', report', hp', hgen', htwenty⟩ := generates_of_counts (reportedTwice.take 5)
    (t := 30 * second) (n := 9) (m := 10) (k := 20) (by decide +kernel)
  have hboth : GeneratesBoth sampleService (sampleInfra fun _ => false) reportedTwice
      report report' :=
    ⟨_, _, _, [atTime (20 * second) guestLeaves], _, _, [], p, p', rfl, hp, hgen, hp', hgen'⟩
  have hclock : ClockSteady reportedTwice := by
    unfold ClockSteady
    decide +kernel
  have hroom : report.roomID = report'.roomID :=
    (hgen.roomID_eq hp).trans (hgen'.roomID_eq hp').symm
  exact ⟨report, report', hboth, hten, htwenty,
    reports_grow _ _ _ hclock report report' hboth hroom⟩

end WaveCast
