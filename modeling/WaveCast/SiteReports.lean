import WaveCast.Failures
import WaveCast.SiteJobs

/-!
# Reports on the site

A room gets one report, whoever asks for it: requests and workers, jobs that are
delivered again, jobs that were given up. A report job is only completed by the
worker that saved the report of the room, and the database has a report
whenever a job says so (`report_jobs_complete_once`).
-/

namespace WaveCast

open Interaction Documents WaveCast.Action Program Service Async

/-! ## The calls of the site are proper -/

section Proper

variable {S : Site} {redis : Redis.PresenceStore} {I : Infra}

/-- A call of the store that a process is about to make, the service is about to make. -/
theorem hosts_pending {c : StoreCall}
    {next : (Effect.store c).Answer → SiteAction (Option Api.Response)}
    {v : Option (Thread effects Command AppError Reply)} {b t : Backends} (hcovers : b.Covers t)
    (hhosts : Hosts S.service (Program.call (S := siteEffects) (.voice (.store c)) next) v) :
    ∃ cmd next' t', (S.service.deployment redis I).Alone v t
      (some ⟨cmd, Program.call (S := effects) (.store c) next'⟩) t' ∧ b.Covers t' := by
  generalize hp : Program.call (S := siteEffects) (.voice (.store c)) next = p at hhosts
  induction hhosts generalizing t with
  | ret a v => cases hp
  | @voice e next₀ cmd next' h =>
    cases hp
    exact ⟨cmd, next', t, .refl _ _, hcovers⟩
  | now h => cases hp
  | newID h => cases hp
  | jobs h => cases hp
  | @enqueued p cmd job next' h ih =>
    obtain ⟨cmd', next'', t', halone, hcovers'⟩ :=
      ih (t := { t with queue := t.queue ++ [job] }) { hcovers with } hp
    exact ⟨cmd', next'', t', .call (served (sampleEnv 0 [])) rfl halone, hcovers'⟩
  | start cmd h ih =>
    obtain ⟨cmd', next', t', halone, hcovers'⟩ := ih hcovers hp
    exact ⟨cmd', next', t', .start cmd halone, hcovers'⟩

/-- **Every call of the store** on the site is proper. -/
theorem site_proper (hset : ∀ d, 0 < d → 0 < redis.setTTL d)
    (hlive : 0 < S.service.cfg.listenerSessionTimeout) {ms : List SiteMove} {q : SitePool}
    (h : (S.system redis I).run ms = some q) {i : ℕ} {d : SiteCommand} {c : StoreCall}
    {next : (Effect.store c).Answer → SiteAction (Option Api.Response)}
    (hi : q.threads[i]? = some ⟨d, Program.call (S := siteEffects) (.voice (.store c)) next⟩) :
    (Effect.store c).Proper q.state.backends.store := by
  obtain ⟨ms₁, p, owned, hp, hholds⟩ := (S.hosting redis I).run_holds h
  have hcovers : q.state.backends.Covers p.state := hholds.state
  obtain ⟨cmd, next', t, halone, hcovers⟩ := hosts_pending hcovers (hholds.threads i _ hi)
  obtain ⟨ms₂, p', k, hp', rfl, hk⟩ := hholds.goesOn halone
  obtain ⟨j, -, hj⟩ := Option.bind_eq_some_iff.mp hk
  have hrun : (S.service.deployment redis I).run (ms₁ ++ ms₂) = some p' := by
    rw [System.run, System.runFrom_append,
      show (S.service.deployment redis I).runFrom ms₁ _ = some p from hp]
    exact hp'
  obtain ⟨ms₃, p₃, -, hp₃, hmatch⟩ := (S.service.inProcess redis I hset hlive).run hrun
  obtain ⟨next₃, hj₃, -⟩ := hmatch.thread hj
  rw [← hcovers.store]
  exact pending_proper hp₃ hmatch.states hlive hj₃

end Proper

/-! ## Reports of a room -/

/-- The database has a report of the room. -/
def MongoStore.Reported (g : MongoStore) (roomID : String) : Prop :=
  ∃ report, g.reports.Holds report ∧ report.roomID = roomID

/-- The entry has saved a report of the room. -/
def ReportsOn (roomID : String) (e : SiteEntry) : Prop :=
  ∃ report : RoomReport, e.exchange = onSite ⟨.store (.saveReport report), .ok ()⟩ ∧
    report.roomID = roomID

section Reported

variable {g g' : MongoStore} {now : Time} {order order' : List String} {roomID : String}

theorem MongoStore.saveReport_cases {report : RoomReport} {a : Except AppError Unit}
    (h : g.step now order order' (.saveReport report) = some (a, g')) :
    g' = g ∧ a ≠ .ok () ∨ g'.Reported report.roomID ∧
      ∀ roomID, g.Reported roomID → g'.Reported roomID := by
  simp only [MongoStore.step, Option.map_eq_some_iff] at h
  obtain ⟨r, hr, h⟩ := h
  cases r with
  | error e =>
    cases h
    exact .inl ⟨rfl, by simp [written]⟩
  | ok reports =>
    cases h
    obtain ⟨hno, rfl, hfilter⟩ := Collection.replaceOne_put hr
    have hsaved : MongoStore.Reported { g with reports := g.reports.put report hno }
        report.roomID := ⟨report, Collection.put_holds hno, rfl⟩
    refine .inr ⟨hsaved, ?_⟩
    rintro roomID ⟨old, hold, rfl⟩
    by_cases hid : old.id = report.id
    · rw [of_decide_eq_true (hfilter old hold hid)]
      exact hsaved
    · exact ⟨old, Collection.put_keeps hno hold hid, rfl⟩

theorem MongoStore.step_reported {c : StoreCall} {a : Except AppError c.Result}
    (h : g.step now order order' c = some (a, g')) (hr : g.Reported roomID) :
    g'.Reported roomID := by
  by_cases hc : ∃ report, c = .saveReport report
  · obtain ⟨report, rfl⟩ := hc
    rcases MongoStore.saveReport_cases h with ⟨rfl, -⟩ | ⟨-, hkeeps⟩
    · exact hr
    · exact hkeeps roomID hr
  · cases c <;> simp only [MongoStore.step, Option.map_eq_some_iff, Option.bind_eq_some_iff,
      Option.some.injEq, Prod.mk.injEq] at h
    case saveReport report => exact absurd ⟨report, rfl⟩ hc
    case reportStats => obtain ⟨_, -, _, -, -, rfl⟩ := h; exact hr
    case appendEvent => obtain ⟨-, rfl⟩ := h; exact hr
    all_goals
      obtain ⟨_, -, -, rfl⟩ := h
      exact hr

theorem Backends.exec_reported {redis : Redis.PresenceStore} {I : Infra} {env : ServerEnv}
    {b b' : Backends} {e : Effect} {a : e.Answer}
    (hx : Backends.exec redis I env e b = some (a, b')) (hr : b.store.Reported roomID) :
    b'.store.Reported roomID := by
  rw [Backends.exec] at hx
  split at hx
  · split at hx
    · obtain ⟨a, -, hx⟩ := Option.map_eq_some_iff.mp hx
      cases hx
      exact hr
    · cases hx
  · cases e with
    | store c =>
      obtain ⟨⟨r, g⟩, hg, hx⟩ := Option.map_eq_some_iff.mp hx
      cases hx
      exact MongoStore.step_reported hg hr
    | newID pfx =>
      simp only [Backends.perform] at hx
      split at hx
      · cases hx
      · cases hx
        exact hr
    | _ =>
      cases hx
      exact hr

end Reported

section Run

variable {S : Site} {redis : Redis.PresenceStore} {I : Infra} {ms : List SiteMove} {q : SitePool}
  {w : SiteWorld} {t : List SiteEntry}

/-- A report that was saved is in the database. -/
theorem reported_of_saved (hrep : (S.system redis I).Replays t w) {e : SiteEntry} (he : e ∈ t)
    {roomID : String} (hsaved : ReportsOn roomID e) : w.backends.store.Reported roomID := by
  refine System.replays_induction (I := fun t w => ∀ e ∈ t, ReportsOn roomID e →
    w.backends.store.Reported roomID) (by simp) ?_ hrep e he hsaved
  rintro ⟨i, d, env, ⟨call, a⟩⟩ older w₀ w - ih hx e' he' hsaved
  cases call with
  | voice e =>
    obtain ⟨b, hb, rfl⟩ := SiteWorld.exec_voice hx
    rcases List.mem_cons.mp he' with rfl | hold
    · obtain ⟨report, ⟨⟩, rfl⟩ := hsaved
      obtain ⟨g, hg, rfl⟩ := Backends.exec_stored hb
      rcases MongoStore.saveReport_cases hg with ⟨-, hno⟩ | ⟨hreported, -⟩
      · exact absurd rfl hno
      · exact hreported
    · exact Backends.exec_reported hb (ih e' hold hsaved)
  | jobs c =>
    change SiteWorld.exec redis I env (.jobs c) w₀ = some (a, w) at hx
    have hsame : w.backends = w₀.backends := by
      rcases SiteWorld.exec_jobs hx with ⟨-, rfl⟩ | ⟨found, jobs, -, -, rfl⟩
      · rfl
      · rfl
    rw [hsame]
    rcases List.mem_cons.mp he' with rfl | hold
    · obtain ⟨report, ⟨⟩, -⟩ := hsaved
    · exact ih e' hold hsaved

/-- **A room gets one report**, whoever asks for it. -/
theorem one_report (hset : ∀ d, 0 < d → 0 < redis.setTTL d)
    (hlive : 0 < S.service.cfg.listenerSessionTimeout) (h : (S.system redis I).run ms = some q) :
    q.trace.Pairwise fun e f => ∀ roomID, ¬ (ReportsOn roomID e ∧ ReportsOn roomID f) := by
  rw [← always_pairwise, always_iff]
  rintro newer ⟨i, d, env, x⟩ older ht f hf roomID ⟨⟨report, rfl, hroom⟩, hsaved⟩
  obtain ⟨ms', q', next, w, hq', rfl, hi, hx⟩ := System.run_made h ht
  have hproper := site_proper hset hlive hq' hi
  obtain ⟨b, hb, -⟩ := SiteWorld.exec_voice hx
  obtain ⟨g, hg, -⟩ := Backends.exec_stored hb
  obtain ⟨old, hold, hid⟩ := reported_of_saved (System.run_replays hq') hf hsaved
  have hnew : ∀ report', StoreCall.saveReport report = .saveReport report' →
      ∀ old, q'.state.backends.store.reports.Holds old → old.id ≠ report'.id := by
    rintro report' ⟨⟩
    exact hproper
  obtain ⟨-, ⟨text, herror⟩, -⟩ := MongoStore.rejects hnew ⟨old, hold, hid.trans hroom.symm⟩ hg
  cases herror

end Run

/-! ## Jobs keep what they are -/

/-- **One call** of the job store loses no job, and keeps the job that it gives out. -/
theorem JobStore.step_keeps {s s' : JobStore} {order : List String} {c : JobCall}
    {found : Option Job} (h : s.step order c = some (found, s')) :
    (∀ job, s.Holds job → ∃ job', s'.Holds job' ∧ job'.id = job.id ∧ SameJob job job') ∧
      ∀ job, found = some job → s'.Holds job := by
  have updated : ∀ (k : String) (u : Collection.Update asyncJobs),
      (∀ job, (u.run job).id = job.id ∧ SameJob job (u.run job)) → ∀ job, s.Holds job →
        ∃ job', (s.updateByID k u).Holds job' ∧ job'.id = job.id ∧ SameJob job job' := by
    intro k u hu job hjob
    refine ⟨_, Collection.updateByID_keeps k u hjob, ?_⟩
    split
    · exact hu job
    · exact ⟨rfl, .refl job⟩
  have kept : ∀ job, s.Holds job → ∃ job', s.Holds job' ∧ job'.id = job.id ∧ SameJob job job' :=
    fun job hjob => ⟨job, hjob, rfl, .refl job⟩
  cases c with
  | enqueue job =>
    rw [JobStore.step, JobStore.enqueue] at h
    cases hinsert : s.insertOne job with
    | error e =>
      cases e <;> simp only [hinsert] at h <;> cases h <;> exact ⟨kept, by simp⟩
    | ok inserted =>
      simp only [hinsert] at h
      cases h
      exact ⟨fun job' hjob' => ⟨job', Collection.insertOne_keeps hinsert hjob', rfl, .refl job'⟩,
        by simp⟩
  | claimNext workerID now visibilityTimeout =>
    rcases Collection.findOneAndUpdate_cases h with ⟨rfl, rfl, -⟩ | ⟨old, hold, -, rfl, rfl⟩
    · exact ⟨kept, by simp⟩
    · refine ⟨updated _ _ fun _ => ⟨rfl, rfl, rfl, rfl⟩, ?_⟩
      rintro job ⟨⟩
      have hheld := Collection.updateByID_keeps (asyncJobs.id old)
        (JobStore.setRunning workerID now visibilityTimeout) hold
      rwa [if_pos rfl] at hheld
  | complete jobID now =>
    cases h
    exact ⟨updated _ _ fun _ => ⟨rfl, rfl, rfl, rfl⟩, by simp⟩
  | retry jobID nextRun lastError now =>
    cases h
    exact ⟨updated _ _ fun _ => ⟨rfl, rfl, rfl, rfl⟩, by simp⟩
  | deadLetter jobID lastError now =>
    cases h
    exact ⟨updated _ _ fun _ => ⟨rfl, rfl, rfl, rfl⟩, by simp⟩

/-- A job is completed by `Complete` alone. -/
theorem JobStore.step_completed {s s' : JobStore} {order : List String} {c : JobCall}
    {found : Option Job} (h : s.step order c = some (found, s')) {job : Job} (hjob : s'.Holds job)
    (hdone : job.status = .completed) (hpending : c = .enqueue job → job.status = .pending) :
    s.Holds job ∨ ∃ now, c = .complete job.id now := by
  have open' : ∀ (k : String) (u : Collection.Update asyncJobs),
      (∀ job, (u.run job).status ≠ .completed) → (s.updateByID k u).Holds job → s.Holds job := by
    intro k u hu hheld
    rcases Collection.holds_updateByID hheld with hheld | ⟨old, -, -, rfl⟩
    · exact hheld
    · exact absurd hdone (hu old)
  cases c with
  | enqueue job' =>
    rw [JobStore.step, JobStore.enqueue] at h
    cases hinsert : s.insertOne job' with
    | error e =>
      cases e <;> simp only [hinsert] at h <;> cases h <;> exact .inl hjob
    | ok inserted =>
      simp only [hinsert] at h
      cases h
      rcases Collection.holds_insertOne hinsert hjob with rfl | hheld
      · rw [hpending rfl] at hdone
        cases hdone
      · exact .inl hheld
  | claimNext workerID now visibilityTimeout =>
    rcases Collection.findOneAndUpdate_cases h with ⟨rfl, rfl, -⟩ | ⟨old, -, -, rfl, rfl⟩
    · exact .inl hjob
    · exact .inl (open' _ _ (fun _ => by simp [JobStore.setRunning]) hjob)
  | complete jobID now =>
    cases h
    rcases Collection.holds_updateByID hjob with hheld | ⟨old, -, rfl, rfl⟩
    · exact .inl hheld
    · exact .inr ⟨now, rfl⟩
  | retry jobID nextRun lastError now =>
    cases h
    exact .inl (open' _ _ (fun _ => by simp [JobStore.setRetrying]) hjob)
  | deadLetter jobID lastError now =>
    cases h
    exact .inl (open' _ _ (fun _ => by simp [JobStore.setDeadLetter]) hjob)

section Run

variable {S : Site} {redis : Redis.PresenceStore} {I : Infra} {ms : List SiteMove} {q : SitePool}
  {w : SiteWorld} {t : List SiteEntry}

/-- A job that was claimed is in the queue under its id. -/
theorem claimed_held (hrep : (S.system redis I).Replays t w) {i : ℕ} {job : Job}
    (hclaims : Claims (threadHistory i t) job) :
    ∃ job', w.jobs.Holds job' ∧ job'.id = job.id ∧ SameJob job job' := by
  obtain ⟨workerID, now, visibilityTimeout, hin⟩ := hclaims
  obtain ⟨e, he, -, hx⟩ := mem_threadHistory.mp hin
  refine System.replays_induction (I := fun (t : List SiteEntry) (w : SiteWorld) => ∀ e ∈ t, ∀ c,
    e.exchange = ⟨.jobs c, .ok (some job)⟩ → ∃ job', w.jobs.Holds job' ∧ job'.id = job.id ∧
      SameJob job job') (by simp) ?_ hrep e he _ hx
  rintro ⟨i, d, env, ⟨call, a⟩⟩ older w₀ w - ih hx e' he' c' hx'
  cases call with
  | voice e =>
    obtain ⟨b, -, rfl⟩ := SiteWorld.exec_voice hx
    rcases List.mem_cons.mp he' with rfl | hold
    · cases hx'
    · exact ih e' hold c' hx'
  | jobs c =>
    change SiteWorld.exec redis I env (.jobs c) w₀ = some (a, w) at hx
    rcases SiteWorld.exec_jobs hx with ⟨rfl, rfl⟩ | ⟨found, jobs, rfl, hstep, rfl⟩
    · rcases List.mem_cons.mp he' with rfl | hold
      · cases hx'
      · exact ih e' hold c' hx'
    · obtain ⟨hkeeps, hfound⟩ := JobStore.step_keeps hstep
      rcases List.mem_cons.mp he' with rfl | hold
      · cases hx'
        exact ⟨job, hfound job rfl, rfl, .refl job⟩
      · obtain ⟨job₁, hheld, hid, hsame⟩ := ih e' hold c' hx'
        obtain ⟨job₂, hheld', hid', hsame'⟩ := hkeeps job₁ hheld
        exact ⟨job₂, hheld', hid'.trans hid, hsame'.type_eq.trans hsame.type_eq,
          hsame'.idempotencyKey_eq.trans hsame.idempotencyKey_eq,
          hsame'.payload_eq.trans hsame.payload_eq⟩

/-- A job is completed when a worker has said so. -/
theorem completed_by (h : (S.system redis I).run ms = some q) {job : Job}
    (hjob : q.state.jobs.Holds job) (hdone : job.status = .completed) :
    ∃ e ∈ q.trace, ∃ now, e.exchange = ⟨.jobs (.complete job.id now), .ok none⟩ := by
  have hasks := run_site_asks h
  have hrep := System.run_replays h
  generalize q.trace = t at hasks hrep
  generalize q.state = w at hjob hrep
  induction t generalizing w with
  | nil =>
    cases hrep
    cases hjob
  | cons e older ih =>
    obtain ⟨w₀, h₀, hx⟩ := hrep
    have before : w₀.jobs.Holds job → ∃ e' ∈ e :: older, ∃ now,
        e'.exchange = ⟨.jobs (.complete job.id now), .ok none⟩ := by
      intro hheld
      obtain ⟨e', he', hcompleted⟩ := ih hasks.2 w₀ hheld h₀
      exact ⟨e', List.mem_cons_of_mem _ he', hcompleted⟩
    have hnow := hasks.1
    obtain ⟨i, d, env, ⟨call, a⟩⟩ := e
    cases call with
    | voice e =>
      obtain ⟨b, -, rfl⟩ := SiteWorld.exec_voice hx
      exact before hjob
    | jobs c =>
      change SiteWorld.exec redis I env (.jobs c) w₀ = some (a, w) at hx
      rcases SiteWorld.exec_jobs hx with ⟨-, rfl⟩ | ⟨found, jobs, rfl, hstep, rfl⟩
      · exact before hjob
      · have hpending : c = .enqueue job → job.status = .pending := by
          rintro rfl
          cases hnow with
          | request _ _ _ _ hpending => exact hpending
          | scheduled _ _ hpending => exact hpending
        rcases JobStore.step_completed hstep hjob hdone hpending with hheld | ⟨now, rfl⟩
        · exact before hheld
        · cases hstep
          exact ⟨_, List.mem_cons_self, now, rfl⟩

/-- The worker that completes a report job has saved the report of the room. -/
theorem completed_reports (h : (S.system redis I).run ms = some q) {job : Job}
    (hjob : q.state.jobs.Holds job) (htype : job.type = jobGenerateRoomReport) {e : SiteEntry}
    (he : e ∈ q.trace) {now : Time}
    (hx : e.exchange = ⟨.jobs (.complete job.id now), .ok none⟩) :
    ∃ payload, decodePayload S.json job = .ok payload ∧
      ∃ f ∈ q.trace, f.thread = e.thread ∧ ReportsOn payload.roomID f := by
  obtain ⟨newer, older, ht⟩ := List.append_of_mem he
  have hasks := run_site_asks h
  rw [ht] at hasks
  have hasks := hasks.at
  rw [hx] at hasks
  change SiteAsks S _ _ (.jobs (.complete job.id now)) at hasks
  generalize hid : job.id = jobID at hasks
  have hsplit : q.trace = (newer ++ [e]) ++ older := by simp [ht]
  cases hasks with
  | @complete job' now hclaims hmade =>
    -- the job that was claimed is the one in the queue
    have hsub : threadHistory e.thread older ⊆ threadHistory e.thread q.trace := by
      intro x hx
      obtain ⟨f, hf, hthread, rfl⟩ := mem_threadHistory.mp hx
      exact mem_threadHistory.mpr ⟨f, by simp [ht, hf], hthread, rfl⟩
    obtain ⟨job₁, hheld, hid₁, hsame⟩ := claimed_held (System.run_replays h) (hclaims.mono hsub)
    have hsamejob : job₁ = job := by
      rw [Collection.Holds, show asyncJobs.id job₁ = job.id from hid₁.trans hid.symm] at hheld
      exact Option.some.inj (hheld.symm.trans hjob)
    subst hsamejob
    obtain ⟨hist, hh, payload, room, report, hpayload, hread, hsaved, hroom⟩ :=
      hmade (hsame.type_eq.symm.trans htype)
    have hdecode : decodePayload S.json job₁ = .ok payload := by
      rw [decodePayload, hsame.payload_eq]
      exact hpayload
    obtain ⟨g, g', _, _, _, hg⟩ := site_answered h hsplit (hh _ hread (by simp))
    obtain ⟨f, hf, hthread, hx⟩ := mem_threadHistory.mp (hh _ hsaved (by simp))
    exact ⟨payload, hdecode, f, by simp [ht, hf], hthread, report, hx,
      hroom.trans (MongoStore.getRoom_id hg)⟩

end Run

/-- **Report jobs complete once.** However the site runs, a room gets one report
at most; a report job is only completed by the worker that has saved this
report, and when it is, the database has it. -/
theorem report_jobs_complete_once (S : Site) (redis : Redis.PresenceStore) (I : Infra)
    (hset : ∀ d, 0 < d → 0 < redis.setTTL d) (hlive : 0 < S.service.cfg.listenerSessionTimeout)
    (ms : List SiteMove) (q : SitePool) (h : (S.system redis I).run ms = some q) :
    (q.trace.Pairwise fun e f => ∀ roomID, ¬ (ReportsOn roomID e ∧ ReportsOn roomID f)) ∧
      ∀ job, q.state.jobs.Holds job → job.type = jobGenerateRoomReport →
        (∀ e ∈ q.trace, ∀ now, e.exchange = ⟨.jobs (.complete job.id now), .ok none⟩ →
          ∃ payload, decodePayload S.json job = .ok payload ∧
            ∃ f ∈ q.trace, f.thread = e.thread ∧ ReportsOn payload.roomID f) ∧
        (job.status = .completed → ∃ payload, decodePayload S.json job = .ok payload ∧
          q.state.backends.store.Reported payload.roomID) := by
  refine ⟨one_report hset hlive h, fun job hjob htype => ⟨fun e he now hx => ?_, fun hdone => ?_⟩⟩
  · exact completed_reports h hjob htype he hx
  · obtain ⟨e, he, now, hx⟩ := completed_by h hjob hdone
    obtain ⟨payload, hpayload, f, hf, -, hsaved⟩ := completed_reports h hjob htype he hx
    exact ⟨payload, hpayload, reported_of_saved (System.run_replays h) hf hsaved⟩

theorem report_jobs_complete_once_finished :
    ∃ q, (sampleSite.system Redis.roundingStore (sampleInfra fun _ => false)).run
        (siteMoves 0 finishedSite) = some q ∧
      ∃ job, q.state.jobs.Holds job ∧ job.type = jobGenerateRoomReport ∧ job.status = .completed ∧
        ∃ payload, decodePayload plainJson job = .ok payload ∧
          q.state.backends.store.Reported payload.roomID := by
  have hrun : ((sampleSite.system Redis.roundingStore (sampleInfra fun _ => false)).run
      (siteMoves 0 finishedSite)).any (fun q =>
        (q.state.jobs.docs.lookup (newID prefixJob (sampleUlid 21))).any fun job =>
          decide (job.type = jobGenerateRoomReport) &&
            decide (job.status = .completed)) = true := by
    decide +kernel
  obtain ⟨q, hq, hjob⟩ := (Option.any_eq_true _ _).mp hrun
  obtain ⟨job, hlookup, hjob⟩ := (Option.any_eq_true _ _).mp hjob
  obtain ⟨htype, hdone⟩ := Bool.and_eq_true_iff.mp hjob
  have hheld := Collection.holds_of_lookup hlookup
  have hcompleted := (report_jobs_complete_once sampleSite Redis.roundingStore _ setTTL_pos
    sampleService_timeout _ q hq).2 job hheld (of_decide_eq_true htype)
  exact ⟨q, hq, job, hheld, of_decide_eq_true htype, of_decide_eq_true hdone,
    hcompleted.2 (of_decide_eq_true hdone)⟩

end WaveCast
