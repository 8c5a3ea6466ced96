import WaveCast.Attestation
import WaveCast.SiteSafety

/-!
# Jobs on the site

What the processes of the site ask for, from what they have exchanged
(`site_asks`), and where the jobs of the queue come from (`claimed_enqueued`).
Together they say that authority passes through the queue: whatever a worker
writes was commissioned by a moderator who finished the room, or by the
scheduler (`workers_commissioned`).
-/

namespace WaveCast

open Interaction Documents WaveCast.Action Program Service Async

/-! ## The protocols of a command -/

/-- What a command asks for, by all its protocols. -/
structure Vouches (s : Service) (cmd : Command) (h : List VoiceExchange) (e : Effect) : Prop where
  asks : Asks s cmd h e
  accounts : Accounts s cmd h e
  attests : Attests s cmd h e

theorem program_vouches (s : Service) (cmd : Command) :
    Follows (S := effects) (Vouches s cmd) anyResult [] (s.program cmd) :=
  (((program_asks s cmd).and (program_accounts s cmd)).and (program_attests s cmd)).mono
    (fun _ _ h => ⟨h.1.1, h.1.2, h.2⟩) fun _ _ _ => trivial

/-- The method behind a command keeps the protocols of the command. -/
theorem vouches_of_program {α : Type} {s : Service} {p : Action α} (f : α → Reply) (cmd : Command)
    (hp : s.program cmd = p.bind fun a => .ret (f a)) :
    Follows (S := effects) (Vouches s cmd) anyResult [] p := by
  have hvouches := program_vouches s cmd
  rw [hp, follows_bind] at hvouches
  exact hvouches.mono (fun _ _ h => h) fun _ _ _ => trivial

/-! ## The handlers -/

/-- The commands that the handler of a job runs. -/
inductive RunsFor (json : Json) (job : Job) : Command → Prop
  | close {payload : RoomJobPayload} (endedAt : Time) (htype : job.type = jobCloseRoomSessions)
      (hpayload : decodePayload json job = .ok payload) :
      RunsFor json job (.closeRoomSessions payload.roomID endedAt job.idempotencyKey)
  /-- The job names no actor: the owner acts. -/
  | room {payload : RoomJobPayload} (htype : job.type = jobGenerateRoomReport)
      (hpayload : decodePayload json job = .ok payload) (hactor : payload.actorUserID = "") :
      RunsFor json job (.getRoom payload.roomID)
  | report {payload : RoomJobPayload} (actorID : String)
      (htype : job.type = jobGenerateRoomReport)
      (hpayload : decodePayload json job = .ok payload)
      (hactor : payload.actorUserID ≠ "" → actorID = payload.actorUserID) :
      RunsFor json job (.generateReport ⟨payload.roomID, actorID, job.idempotencyKey⟩)
  | expire (cutoff : Time) (htype : job.type = jobExpireListenerSession) :
      RunsFor json job (.expireStaleListenerSessions cutoff 250 job.idempotencyKey)

/-- The protocol of a handler: the clock, and what its commands ask for. -/
def HandlerVouches (r : Registry) (job : Job) (h : List VoiceExchange) (e : Effect) : Prop :=
  e = .now ∨ ∃ cmd h₁ h₀, RunsFor r.json job cmd ∧ h = h₁ ++ h₀ ∧ Vouches r.service cmd h₁ e

/-- The report the job asks for was saved. -/
def ReportMade (json : Json) (job : Job) (h : List VoiceExchange) : Prop :=
  ∃ payload room report, decodePayload json job = .ok payload ∧
    ⟨.store (.getRoom payload.roomID), .ok room⟩ ∈ h ∧
    ⟨.store (.saveReport report), .ok ()⟩ ∈ h ∧ report.roomID = room.id

/-- A handler of report jobs only ends well when it has made the report. -/
def Handled (json : Json) (job : Job) (h : List VoiceExchange) (r : Except AppError Unit) : Prop :=
  r = .ok () → job.type = jobGenerateRoomReport → ReportMade json job h

section Handlers

variable {α : Type} {r : Registry} {job : Job}

/-- A command that runs behind others. -/
theorem handlerVouches_command {p : Action α} (f : α → Reply) (cmd : Command)
    (hp : r.service.program cmd = p.bind fun a => .ret (f a)) (hruns : RunsFor r.json job cmd)
    {Q : List VoiceExchange → Except AppError α → Prop}
    (hQ : Follows (S := effects) (fun _ _ => True) Q [] p) (h₀ : List VoiceExchange) :
    Follows (S := effects) (HandlerVouches r job)
      (fun h result => ∃ h₁, h = h₁ ++ h₀ ∧ Q h₁ result) h₀ p := by
  have hall := ((vouches_of_program f cmd hp).and hQ).after h₀
  refine hall.mono ?_ ?_
  · rintro h e ⟨h₁, rfl, hvouches, -⟩
    exact .inr ⟨cmd, h₁, h₀, hruns, rfl, hvouches⟩
  · rintro h result ⟨h₁, rfl, -, hq⟩
    exact ⟨h₁, rfl, hq⟩

theorem generateReport_made (c : GenerateReportCommand) :
    Follows (S := effects) (fun _ _ => True) (fun h result => ∀ report, result = .ok report →
      ∃ room, ⟨.store (.getRoom c.roomID), .ok room⟩ ∈ h ∧
        ⟨.store (.saveReport report), .ok ()⟩ ∈ h ∧ report.roomID = room.id) []
      (generateReport c) := by
  simp [generateReport, publish, bind_assoc, follows_store, follows_require, follows_fresh,
    follows_now, follows_publishCall, newReport]

theorem closeRoomSessions_vouches (htype : job.type = jobCloseRoomSessions) :
    Follows (S := effects) (HandlerVouches r job) (Handled r.json job) []
      (r.closeRoomSessions job) := by
  rw [Registry.closeRoomSessions, bind_eq, follows_ofExcept]
  refine ⟨fun payload hpayload => ?_, by simp [Handled]⟩
  refine ⟨.inl rfl, fun endedAt => ?_⟩
  refine (handlerVouches_command (fun _ => .done) (.closeRoomSessions payload.roomID endedAt
    job.idempotencyKey) rfl (.close endedAt htype hpayload) (Q := fun _ _ => True)
    (follows_of_forall (fun _ _ => trivial) (fun _ _ => trivial) _ _) _).mono (fun _ _ h => h) ?_
  rintro h result - - hreport
  rw [htype] at hreport
  exact absurd hreport (by decide)

theorem expireStaleListenerSessions_vouches (htype : job.type = jobExpireListenerSession) :
    Follows (S := effects) (HandlerVouches r job) (Handled r.json job) []
      (r.expireStaleListenerSessions job) := by
  rw [Registry.expireStaleListenerSessions]
  refine ⟨.inl rfl, fun t => ?_⟩
  change Follows (S := effects) _ _ _ ((r.service.expireStaleListenerSessions _ 250 _).bind _)
  rw [follows_bind]
  refine (handlerVouches_command .expired (.expireStaleListenerSessions (t - r.timeout) 250
    job.idempotencyKey) rfl (.expire _ htype) (Q := fun _ _ => True)
    (follows_of_forall (fun _ _ => trivial) (fun _ _ => trivial) _ _) _).mono (fun _ _ h => h) ?_
  have hother : ∀ h result, Handled r.json job h result := fun h result _ hreport => by
    rw [htype] at hreport
    exact absurd hreport (by decide)
  rintro h (e | n) -
  · exact hother h _
  · exact hother h _

theorem generateRoomReport_vouches (htype : job.type = jobGenerateRoomReport) :
    Follows (S := effects) (HandlerVouches r job) (Handled r.json job) []
      (r.generateRoomReport job) := by
  rw [Registry.generateRoomReport, bind_eq, follows_ofExcept]
  refine ⟨fun payload hpayload => ?_, by simp [Handled]⟩
  have hreport : ∀ actorID h₀, (payload.actorUserID ≠ "" → actorID = payload.actorUserID) →
      Follows (S := effects) (HandlerVouches r job) (Handled r.json job) h₀
        ((generateReport ⟨payload.roomID, actorID, job.idempotencyKey⟩).bind fun _ => .ret ()) := by
    intro actorID h₀ hactor
    rw [follows_bind]
    refine (handlerVouches_command .report (.generateReport ⟨payload.roomID, actorID,
      job.idempotencyKey⟩) rfl (.report actorID htype hpayload hactor)
      (generateReport_made _) h₀).mono (fun _ _ h => h) ?_
    rintro h (e | report) ⟨h₁, rfl, hmade⟩
    · simp [bindPost, Handled]
    · obtain ⟨room, hread, hsaved, hroom⟩ := hmade report rfl
      exact fun _ _ => ⟨payload, room, report, hpayload, by simp [hread], by simp [hsaved], hroom⟩
  dsimp only [bind_eq, pure_eq]
  split
  · rename_i hactor
    rw [follows_bind]
    refine (handlerVouches_command .room (.getRoom payload.roomID) rfl
      (.room htype hpayload hactor) (Q := fun _ _ => True)
      (follows_of_forall (fun _ _ => trivial) (fun _ _ => trivial) _ _) []).mono
      (fun _ _ h => h) ?_
    rintro h (e | room) -
    · simp [bindPost, Handled]
    · exact hreport room.ownerID h fun hne => absurd hactor hne
  · exact hreport _ [] fun _ => rfl

/-- **Every handler** keeps its protocol. -/
theorem handler_vouches {handler : Handler} (hfound : r.handlers job.type = some handler) :
    Follows (S := effects) (HandlerVouches r job) (Handled r.json job) [] (handler job) := by
  rcases r.handler_cases hfound with ⟨htype, rfl⟩ | ⟨htype, rfl⟩ | ⟨htype, rfl⟩ |
    ⟨htype, rfl⟩
  · exact closeRoomSessions_vouches htype
  · exact generateRoomReport_vouches htype
  · exact expireStaleListenerSessions_vouches htype
  · exact fun _ hreport => absurd hreport htype

end Handlers

/-! ## The processes -/

/-- An exchange of the service, as its process makes it. -/
def onSite (x : VoiceExchange) : SiteExchange := ⟨.voice x.call, x.answer⟩

/-- What the service has exchanged, but for its jobs, its process has exchanged. -/
def Recorded (h : List VoiceExchange) (H : List SiteExchange) : Prop :=
  ∀ x ∈ h, (∀ job, x.call ≠ .enqueue job) → onSite x ∈ H

/-- The process has claimed the job. -/
def Claims (H : List SiteExchange) (job : Job) : Prop :=
  ∃ workerID now visibilityTimeout,
    ⟨.jobs (.claimNext workerID now visibilityTimeout), .ok (some job)⟩ ∈ H

/-- The commands of the service that a process runs. -/
def Site.Runs (S : Site) (H : List SiteExchange) : SiteCommand → Command → Prop
  | .serve r, cmd => r.handler.command = .ok cmd
  | .processOnce _, cmd => ∃ job, Claims H job ∧ RunsFor S.json job cmd
  | .tick _, _ => False

/-- What a process asks for, from what it has exchanged. -/
inductive SiteAsks (S : Site) (d : SiteCommand) (H : List SiteExchange) : SiteEffect → Prop
  | command {cmd : Command} {h : List VoiceExchange} {e : Effect} (hruns : S.Runs H d cmd)
      (hh : Recorded h H) (hvouches : Vouches S.service cmd h e) : SiteAsks S d H (.voice e)
  | now : SiteAsks S d H (.voice .now)
  | newID : SiteAsks S d H (.voice (.newID prefixJob))
  /-- A command enqueues the job. -/
  | request {cmd : Command} {h : List VoiceExchange} {request : JobRequest} {job : Job}
      (hruns : S.Runs H d cmd) (hh : Recorded h H)
      (hvouches : Vouches S.service cmd h (.enqueue request))
      (hcarries : Carries S.json job request) (hpending : job.status = .pending) :
      SiteAsks S d H (.jobs (.enqueue job))
  | scheduled {t : Time} {job : Job} (hd : d = .tick t)
      (htype : job.type = jobExpireListenerSession) (hpending : job.status = .pending) :
      SiteAsks S d H (.jobs (.enqueue job))
  | claim (workerID : String) (now : Time) (visibilityTimeout : Duration) :
      SiteAsks S d H (.jobs (.claimNext workerID now visibilityTimeout))
  | complete {job : Job} (now : Time) (hclaims : Claims H job)
      (hmade : job.type = jobGenerateRoomReport → ∃ h, Recorded h H ∧ ReportMade S.json job h) :
      SiteAsks S d H (.jobs (.complete job.id now))
  | retry {job : Job} (nextRun : Time) (lastError : String) (now : Time) (hclaims : Claims H job) :
      SiteAsks S d H (.jobs (.retry job.id nextRun lastError now))
  | deadLetter {job : Job} (lastError : String) (now : Time) (hclaims : Claims H job) :
      SiteAsks S d H (.jobs (.deadLetter job.id lastError now))

section Processes

variable {S : Site} {d : SiteCommand} {H H' : List SiteExchange} {h : List VoiceExchange}
  {job : Job} {β : Type}

theorem Recorded.cons {e : Effect} {a : e.Answer} (hh : Recorded h H) (hsub : H ⊆ H')
    (hnew : (∀ job, e ≠ .enqueue job) → onSite ⟨e, a⟩ ∈ H') : Recorded (⟨e, a⟩ :: h) H' := by
  intro x hx hquiet
  rcases List.mem_cons.mp hx with rfl | hx
  · exact hnew hquiet
  · exact hsub (hh x hx hquiet)

theorem Claims.mono (hclaims : Claims H job) (hsub : H ⊆ H') : Claims H' job := by
  obtain ⟨workerID, now, visibilityTimeout, hin⟩ := hclaims
  exact ⟨workerID, now, visibilityTimeout, hsub hin⟩

theorem Site.Runs.mono {cmd : Command} (hruns : S.Runs H d cmd) (hsub : H ⊆ H') :
    S.Runs H' d cmd := by
  cases d with
  | serve r => exact hruns
  | processOnce workerID =>
    obtain ⟨job, hclaims, hruns⟩ := hruns
    exact ⟨job, hclaims.mono hsub, hruns⟩
  | tick t => exact hruns

theorem follows_enqueue {q : Queue} {jobType idempotencyKey : String}
    {payload : Except AppError String} {respond : Except AppError Unit → β}
    {Q : List SiteExchange → Except Empty β → Prop}
    (hjob : ∀ H' job, H ⊆ H' → job.type = jobType → job.idempotencyKey = idempotencyKey →
      payload = .ok job.payload → job.status = .pending → SiteAsks S d H' (.jobs (.enqueue job)))
    (hQ : ∀ H' b, H ⊆ H' → Q H' (.ok b)) :
    Follows (S := siteEffects) (SiteAsks S d) Q H
      ((q.enqueue jobType idempotencyKey payload).linked Site.enqueueCall respond) := by
  cases payload with
  | error e => exact hQ H _ (List.Subset.refl H)
  | ok raw =>
    refine ⟨.now, fun t => ⟨.newID, fun id => ⟨?_, fun r => ?_⟩⟩⟩
    · exact hjob _ _ (fun x hx => by simp [hx]) rfl rfl rfl rfl
    · cases r with
      | error e => exact hQ _ _ fun x hx => by simp [hx]
      | ok _ => exact hQ _ _ fun x hx => by simp [hx]

/-- **One call of the service.** The process makes it, or enqueues its job. -/
theorem follows_serviceCall {e : Effect}
    (hvoice : (∀ request, e ≠ .enqueue request) → SiteAsks S d H (.voice e))
    (henqueue : ∀ request, e = .enqueue request → ∀ H' job, H ⊆ H' → Carries S.json job request →
      job.status = .pending → SiteAsks S d H' (.jobs (.enqueue job))) :
    Follows (S := siteEffects) (SiteAsks S d) (fun H' r => ∀ a, r = .ok a → H ⊆ H' ∧
      ((∀ request, e ≠ .enqueue request) → onSite ⟨e, a⟩ ∈ H')) H (S.serviceCall e) := by
  cases e with
  | enqueue request =>
    refine follows_enqueue ?_ ?_
    · exact fun H' job hsub htype hkey hpayload =>
        henqueue request rfl H' job hsub ⟨htype, hkey, hpayload⟩
    · exact fun H' b hsub a _ => ⟨hsub, fun hquiet => absurd rfl (hquiet request)⟩
  | _ =>
    refine ⟨hvoice (by simp), fun a => ?_⟩
    rintro _ ⟨⟩
    exact ⟨fun x hx => by simp [hx], fun _ => List.mem_cons_self⟩

/-- **A program of the service** in a process that runs its commands. -/
theorem follows_service {α : Type} {P : List VoiceExchange → Effect → Prop}
    {Q : List VoiceExchange → Except AppError α → Prop}
    {Q' : List SiteExchange → Except Empty β → Prop} {respond : Except AppError α → β}
    (hvoice : ∀ h H' e, H ⊆ H' → Recorded h H' → P h e → SiteAsks S d H' (.voice e))
    (henqueue : ∀ h H' request, H ⊆ H' → Recorded h H' → P h (.enqueue request) →
      ∀ H'' job, H' ⊆ H'' → Carries S.json job request → job.status = .pending →
        SiteAsks S d H'' (.jobs (.enqueue job)))
    (hend : ∀ h H' r, H ⊆ H' → Recorded h H' → Q h r → Q' H' (.ok (respond r))) {p : Action α}
    (hp : Follows (S := effects) P Q [] p) :
    Follows (S := siteEffects) (SiteAsks S d) Q' H (p.linked S.serviceCall respond) := by
  refine follows_linked (fun h H' => H ⊆ H' ∧ Recorded h H') ?_ ?_ hp
    ⟨List.Subset.refl H, by simp [Recorded]⟩
  · rintro e h H' ⟨hsub, hh⟩ hasks
    refine (follows_serviceCall (fun _ => hvoice h H' e hsub hh hasks) ?_).mono
      (fun _ _ hc => hc) ?_
    · rintro request rfl
      exact henqueue h H' request hsub hh hasks
    · rintro H'' (e | a) hr
      · exact e.elim
      · obtain ⟨hsub', hnew⟩ := hr a rfl
        exact ⟨List.Subset.trans hsub hsub', hh.cons hsub' hnew⟩
  · rintro h H' r ⟨hsub, hh⟩ hq
    exact hend h H' r hsub hh hq

theorem serve_asks (S : Site) (r : Api.Request) :
    Follows (S := siteEffects) (SiteAsks S (.serve r)) (fun _ _ => True) [] (S.serve r) := by
  rw [Site.serve]
  split
  · trivial
  · rename_i cmd hcmd
    refine follows_service ?_ ?_ (fun _ _ _ _ _ _ => trivial) (program_vouches S.service cmd)
    · exact fun h H' e _ hh hvouches => .command hcmd hh hvouches
    · exact fun h H' request _ hh hvouches H'' job hsub hcarries hpending =>
        .request hcmd (fun x hx hquiet => hsub (hh x hx hquiet)) hvouches hcarries hpending

/-- A claimed job is handled as its handler asks. -/
theorem handle_asks {workerID : String} (hclaims : Claims H job) :
    Follows (S := siteEffects) (SiteAsks S (.processOnce workerID)) (fun H' r => H ⊆ H' ∧
      (r = .ok none → job.type = jobGenerateRoomReport →
        ∃ h, Recorded h H' ∧ ReportMade S.json job h)) H (S.handle job) := by
  rw [Site.handle]
  split
  · rename_i handler hfound
    refine follows_service ?_ ?_ ?_ (handler_vouches hfound)
    · rintro h H' e hsub hh (rfl | ⟨cmd, h₁, h₀, hruns, rfl, hvouches⟩)
      · exact .now
      · exact .command ⟨job, hclaims.mono hsub, hruns⟩ (fun x hx => hh x (by simp [hx])) hvouches
    · rintro h H' request hsub hh (hno | ⟨cmd, h₁, h₀, hruns, rfl, hvouches⟩)
        H'' job' hsub' hcarries hpending
      · cases hno
      · exact .request ⟨job, hclaims.mono (List.Subset.trans hsub hsub'), hruns⟩
          (fun x hx hquiet => hsub' (hh x (by simp [hx]) hquiet)) hvouches hcarries hpending
    · rintro h H' (e | _) hsub hh hhandled
      · exact ⟨hsub, by simp [Site.errorText]⟩
      · exact ⟨hsub, fun _ htype => ⟨h, hh, hhandled rfl htype⟩⟩
  · rename_i hnone
    refine ⟨List.Subset.refl H, fun _ htype => ?_⟩
    rw [htype, Registry.handlers_generateRoomReport] at hnone
    cases hnone

theorem fail_asks {r : Runner} {message : String} {handle : Job → SiteAction (Option String)}
    {respond : Except AppError Unit → β} (hclaims : Claims H job) :
    Follows (S := siteEffects) (SiteAsks S d) (fun _ _ => True) H
      ((r.fail job message).linked (Site.queueCall handle) respond) := by
  rw [Runner.fail]
  refine ⟨.now, fun t => ?_⟩
  have hclaims : Claims (⟨.voice .now, t⟩ :: H) job := hclaims.mono fun x hx => by simp [hx]
  dsimp only
  split
  · exact ⟨.deadLetter message t hclaims, fun _ => trivial⟩
  · exact ⟨.retry _ message t hclaims, fun _ => trivial⟩

theorem processOnce_asks (S : Site) (workerID : String) :
    Follows (S := siteEffects) (SiteAsks S (.processOnce workerID)) (fun _ _ => True) []
      (S.processOnce workerID) := by
  rw [Site.processOnce, Runner.processOnce]
  refine ⟨.now, fun t => ⟨.claim _ _ _, fun claimed => ?_⟩⟩
  rcases claimed with e | _ | job
  · trivial
  · trivial
  · have hclaims : Claims [⟨.jobs (.claimNext workerID t S.queue.cfg.visibilityTimeout),
        .ok (some job)⟩, ⟨.voice .now, t⟩] job := ⟨_, _, _, List.mem_cons_self⟩
    dsimp only [ret_bind]
    split
    · exact fail_asks hclaims
    · rw [bind_eq, Async.ask, perform_bind, linked, follows_bind]
      refine (handle_asks hclaims).mono (fun _ _ hc => hc) ?_
      rintro H' (e | _ | message) ⟨hsub, hdone⟩
      · exact e.elim
      · refine ⟨.now, fun t' => ⟨.complete t' (hclaims.mono fun x hx => ?_) fun htype => ?_,
          fun _ => trivial⟩⟩
        · exact List.mem_cons_of_mem _ (hsub hx)
        · obtain ⟨h, hh, hmade⟩ := hdone rfl htype
          exact ⟨h, fun x hx hquiet => List.mem_cons_of_mem _ (hh x hx hquiet), hmade⟩
      · exact fail_asks (hclaims.mono hsub)

/-- **Every process of the site** keeps its protocol, whatever answers it gets. -/
theorem site_asks (S : Site) (d : SiteCommand) :
    Follows (S := siteEffects) (SiteAsks S d) (fun _ _ => True) [] (S.program d) := by
  cases d with
  | serve r => exact serve_asks S r
  | processOnce workerID => exact processOnce_asks S workerID
  | tick t =>
    refine follows_enqueue ?_ fun _ _ _ => trivial
    exact fun H' job _ htype _ _ hpending => .scheduled rfl htype hpending

end Processes

/-! ## What stands behind a job -/

/-- A moderator had the room stored as finished. -/
def FinishedBy (t : List SiteEntry) (roomID actorUserID : String) : Prop :=
  ∃ e ∈ t, ∃ r c room, e.cmd = .serve r ∧ r.handler.command = .ok (.finishRoom c) ∧
    e.exchange = onSite ⟨.store (.saveRoom room), .ok ()⟩ ∧ room.id = roomID ∧
    room.status = .finished ∧ room.Moderates actorUserID ∧ c.actorUserID = actorUserID

/-- The scheduler ticked, or a moderator finished the room. -/
inductive Commission (json : Json) (t : List SiteEntry) (job : Job) : Prop
  | tick {e : SiteEntry} {now : Time} (he : e ∈ t) (hcmd : e.cmd = .tick now)
      (htype : job.type = jobExpireListenerSession)
  | finish {roomID actorUserID : String} (hfinished : FinishedBy t roomID actorUserID)
      (hcarries : Carries json job (closeSessionsJob roomID actorUserID) ∨
        Carries json job (generateReportJob roomID actorUserID))

/-- The same job, whatever became of it. -/
structure SameJob (job job' : Job) : Prop where
  type_eq : job'.type = job.type
  idempotencyKey_eq : job'.idempotencyKey = job.idempotencyKey
  payload_eq : job'.payload = job.payload

theorem SameJob.refl (job : Job) : SameJob job job := ⟨rfl, rfl, rfl⟩

section Commissions

variable {json : Json} {t t' : List SiteEntry} {job job' : Job}

theorem FinishedBy.mono {roomID actorUserID : String} (h : FinishedBy t roomID actorUserID)
    (hsub : t ⊆ t') : FinishedBy t' roomID actorUserID := by
  obtain ⟨e, he, h⟩ := h
  exact ⟨e, hsub he, h⟩

theorem Commission.mono (h : Commission json t job) (hsub : t ⊆ t') : Commission json t' job := by
  cases h with
  | tick he hcmd htype => exact .tick (hsub he) hcmd htype
  | finish hfinished hcarries => exact .finish (hfinished.mono hsub) hcarries

theorem Commission.same (h : Commission json t job) (hsame : SameJob job job') :
    Commission json t job' := by
  have carries : ∀ request, Carries json job request → Carries json job' request := fun _ hc =>
    ⟨hsame.type_eq.trans hc.type_eq, hsame.idempotencyKey_eq.trans hc.idempotencyKey_eq,
      hsame.payload_eq ▸ hc.payload_eq⟩
  cases h with
  | tick he hcmd htype => exact .tick he hcmd (hsame.type_eq.trans htype)
  | finish hfinished hcarries =>
    exact .finish hfinished (hcarries.imp (carries _) (carries _))

end Commissions

/-- **One call** of the job store: a job that it holds or gives out was there before. -/
theorem JobStore.step_jobs {s s' : JobStore} {order : List String} {c : JobCall}
    {found : Option Job} (h : s.step order c = some (found, s')) :
    (∀ job, s'.Holds job → c = .enqueue job ∨ ∃ old, s.Holds old ∧ SameJob old job) ∧
      ∀ job, found = some job → ∃ old, s.Holds old ∧ SameJob old job := by
  have updated : ∀ (k : String) (u : Collection.Update asyncJobs),
      (∀ job, SameJob job (u.run job)) →
        ∀ job, (s.updateByID k u).Holds job → ∃ old, s.Holds old ∧ SameJob old job := by
    intro k u hu job hjob
    rcases Collection.holds_updateByID hjob with hheld | ⟨old, hheld, -, rfl⟩
    · exact ⟨job, hheld, .refl job⟩
    · exact ⟨old, hheld, hu old⟩
  have kept : ∀ job, s.Holds job → c = .enqueue job ∨ ∃ old, s.Holds old ∧ SameJob old job :=
    fun job hjob => .inr ⟨job, hjob, .refl job⟩
  cases c with
  | enqueue job =>
    refine ⟨fun job' hjob' => ?_, ?_⟩
    · rw [JobStore.step, JobStore.enqueue] at h
      cases hinsert : s.insertOne job with
      | error e =>
        cases e <;> simp only [hinsert] at h <;> cases h <;> exact kept job' hjob'
      | ok inserted =>
        simp only [hinsert] at h
        cases h
        rcases Collection.holds_insertOne hinsert hjob' with rfl | hheld
        · exact .inl rfl
        · exact kept job' hheld
    · rw [JobStore.step] at h
      split at h <;> cases h <;> simp
  | claimNext workerID now visibilityTimeout =>
    rcases Collection.findOneAndUpdate_cases h with ⟨rfl, rfl, -⟩ | ⟨old, hold, -, rfl, rfl⟩
    · exact ⟨kept, by simp⟩
    · refine ⟨fun job hjob => .inr (updated _ _ (fun _ => ⟨rfl, rfl, rfl⟩) job hjob), ?_⟩
      rintro job ⟨⟩
      exact ⟨old, hold, ⟨rfl, rfl, rfl⟩⟩
  | complete jobID now =>
    cases h
    exact ⟨fun job hjob => .inr (updated _ _ (fun _ => ⟨rfl, rfl, rfl⟩) job hjob), by simp⟩
  | retry jobID nextRun lastError now =>
    cases h
    exact ⟨fun job hjob => .inr (updated _ _ (fun _ => ⟨rfl, rfl, rfl⟩) job hjob), by simp⟩
  | deadLetter jobID lastError now =>
    cases h
    exact ⟨fun job hjob => .inr (updated _ _ (fun _ => ⟨rfl, rfl, rfl⟩) job hjob), by simp⟩

/-! ## What a worker writes -/

section Writes

variable {s : Service} {h : List VoiceExchange} {c : StoreCall}

theorem closeRoomSessions_writes {roomID : String} {endedAt : Time} {correlationID : String}
    (hv : Vouches s (.closeRoomSessions roomID endedAt correlationID) h (.store c))
    (hc : ¬ c.IsRead) :
    ∃ sessions session, ⟨.store (.listActiveListenerSessions roomID), .ok sessions⟩ ∈ h ∧
      session ∈ sessions ∧
      c = .saveListenerSession (endedSession session .left "room_finished" endedAt) := by
  cases c with
  | saveListenerSession session =>
    obtain ⟨sessions, session₀, hl, hmem, rfl⟩ := hv.asks
    exact ⟨sessions, session₀, hl, hmem, rfl⟩
  | saveRoom | saveSpeakerRequest | saveSpeakingBlock => exact hv.asks.elim
  | saveParticipantSession | saveRecording => exact hv.accounts.elim
  | saveReport report =>
    obtain ⟨⟨_, hcmd⟩, -⟩ := hv.attests
    cases hcmd
  | appendEvent event =>
    obtain ⟨n, t, id, h₀, -, -, hn, -⟩ := hv.attests
    exact hn.elim
  | _ => exact absurd trivial hc

theorem expireStaleListenerSessions_writes {cutoff : Time} {limit : Int} {correlationID : String}
    (hv : Vouches s (.expireStaleListenerSessions cutoff limit correlationID) h (.store c))
    (hc : ¬ c.IsRead) :
    (∃ session : ListenerSession, session.status = .expired ∧ c = .saveListenerSession session) ∨
      ∃ event, event.eventType = eventListenerSessionExpired ∧ c = .appendEvent event := by
  cases c with
  | saveListenerSession session =>
    obtain ⟨t, sessions, session₀, -, -, -, rfl⟩ := hv.asks
    exact .inl ⟨_, rfl, rfl⟩
  | saveRoom | saveSpeakerRequest | saveSpeakingBlock => exact hv.asks.elim
  | saveParticipantSession | saveRecording => exact hv.accounts.elim
  | saveReport report =>
    obtain ⟨⟨_, hcmd⟩, -⟩ := hv.attests
    cases hcmd
  | appendEvent event =>
    obtain ⟨n, t, id, h₀, -, -, ⟨session, -, rfl⟩, rfl⟩ := hv.attests
    exact .inr ⟨_, rfl, rfl⟩
  | _ => exact absurd trivial hc

theorem generateReport_writes {cmd : GenerateReportCommand}
    (hv : Vouches s (.generateReport cmd) h (.store c)) (hc : ¬ c.IsRead) :
    ∃ room, ⟨.store (.getRoom cmd.roomID), .ok room⟩ ∈ h ∧
      ((∃ report, report.roomID = room.id ∧ c = .saveReport report) ∨
        ∃ event, event.eventType = eventReportCompleted ∧ event.roomID = room.id ∧
          event.actorUserID = cmd.actorUserID ∧ c = .appendEvent event) := by
  cases c with
  | saveReport report =>
    obtain ⟨roomID, hscope, room, hread, hroom⟩ := hv.accounts
    cases hscope
    exact ⟨room, hread, .inl ⟨report, hroom, rfl⟩⟩
  | appendEvent event =>
    obtain ⟨n, t, id, h₀, rfl, -, ⟨report, ⟨room, hread, -, hroom⟩, rfl⟩, rfl⟩ := hv.attests
    exact ⟨room, by simp [hread], .inr ⟨_, rfl, hroom.symm, rfl, rfl⟩⟩
  | saveRoom | saveListenerSession | saveSpeakerRequest | saveSpeakingBlock => exact hv.asks.elim
  | saveParticipantSession | saveRecording => exact hv.accounts.elim
  | _ => exact absurd trivial hc

theorem getRoom_writes {roomID : String} (hv : Vouches s (.getRoom roomID) h (.store c)) :
    c.IsRead := by
  cases c with
  | saveReport report =>
    obtain ⟨⟨_, hcmd⟩, -⟩ := hv.attests
    cases hcmd
  | appendEvent event =>
    obtain ⟨n, t, id, h₀, -, -, hn, -⟩ := hv.attests
    exact hn.elim
  | saveRoom | saveListenerSession | saveSpeakerRequest | saveSpeakingBlock => exact hv.asks.elim
  | saveParticipantSession | saveRecording => exact hv.accounts.elim
  | _ => trivial

end Writes

/-! ## Runs of the site -/

section Run

variable {S : Site} {redis : Redis.PresenceStore} {I : Infra} {ms : List SiteMove} {q : SitePool}
  {env : ServerEnv} {w w' : SiteWorld}

theorem SiteWorld.exec_voice {e : Effect} {a : e.Answer}
    (hx : SiteWorld.exec redis I env (.voice e) w = some (a, w')) :
    ∃ b, Backends.exec redis I env e w.backends = some (a, b) ∧ w' = { w with backends := b } := by
  obtain ⟨⟨a, b⟩, hb, hx⟩ := Option.map_eq_some_iff.mp hx
  cases hx
  exact ⟨b, hb, rfl⟩

theorem SiteWorld.exec_jobs {c : JobCall} {a : Except AppError (Option Job)}
    (hx : SiteWorld.exec redis I env (.jobs c) w = some (a, w')) :
    a = .error unavailable ∧ w' = w ∨ ∃ found jobs, a = .ok found ∧
      w.jobs.step env.order c = some (found, jobs) ∧ w' = { w with jobs := jobs } := by
  rw [SiteWorld.exec] at hx
  split at hx
  · cases hx
    exact .inl ⟨rfl, rfl⟩
  · obtain ⟨⟨found, jobs⟩, hstep, hx⟩ := Option.map_eq_some_iff.mp hx
    cases hx
    exact .inr ⟨found, jobs, rfl, hstep, rfl⟩

theorem run_site_asks (h : (S.system redis I).run ms = some q) :
    Always (fun older e => SiteAsks S e.cmd (threadHistory e.thread older) e.exchange.call)
      q.trace :=
  System.run_always (site_asks S) h

/-- The entries of a thread carry one command. -/
theorem same_command (h : (S.system redis I).run ms = some q) {e e' : SiteEntry}
    (he : e ∈ q.trace) (he' : e' ∈ q.trace) (hthread : e.thread = e'.thread) : e.cmd = e'.cmd := by
  obtain ⟨rest, hrest⟩ := System.run_threads h e he
  obtain ⟨rest', hrest'⟩ := System.run_threads h e' he'
  rw [hthread, hrest'] at hrest
  exact (congrArg Thread.cmd (Option.some.inj hrest)).symm

/-- **What is enqueued** is commissioned. -/
theorem enqueued_commission (h : (S.system redis I).run ms = some q) {newer older : List SiteEntry}
    {e : SiteEntry} (ht : q.trace = newer ++ e :: older) {job : Job}
    (hcall : e.exchange.call = .jobs (.enqueue job)) : Commission S.json (e :: older) job := by
  have hall := run_site_asks h
  rw [ht] at hall
  have hasks := hall.at
  rw [hcall] at hasks
  cases hasks with
  | scheduled hd htype _ => exact .tick List.mem_cons_self hd htype
  | @request cmd hist request _ hruns hh hvouches hcarries _ =>
    have henqueues : EnqueuesJob hist request cmd := hvouches.asks
    cases cmd with
    | finishRoom c =>
      obtain ⟨t, room, -, -, hsaved, hjob⟩ := henqueues
      obtain ⟨r, hcmd, hr⟩ : ∃ r, e.cmd = .serve r ∧ r.handler.command = .ok (.finishRoom c) := by
        cases hcmd : e.cmd <;> rw [hcmd] at hruns
        · exact ⟨_, rfl, hruns⟩
        · obtain ⟨job', -, hruns⟩ := hruns
          cases hruns
        · exact hruns.elim
      -- the request had checked the actor before it stored the room
      obtain ⟨mid, f, rest, hold, hthread, hx⟩ := exists_read (hh _ hsaved (by simp))
      have hsplit : q.trace = (newer ++ e :: mid) ++ f :: rest := by simp [ht, hold]
      have hf : f.cmd = .serve r := by
        rw [← hcmd]
        exact same_command h (by simp [hsplit]) (by simp [ht]) hthread
      have hasks := run_site_asks h
      rw [hsplit] at hasks
      have hasks := hasks.at
      rw [hx, hf] at hasks
      change SiteAsks S _ _ (.voice (.store (.saveRoom (finishedRoom room c t)))) at hasks
      cases hasks with
      | @command cmd' hist' _ hruns' hh' hvouches' =>
        cases hr.symm.trans hruns'
        obtain ⟨t', room', -, hm, -, hsame⟩ := hvouches'.asks
        have hm : (finishedRoom room c t).Moderates c.actorUserID := by
          rw [hsame]
          exact hm
        have hfinished : FinishedBy older room.id c.actorUserID :=
          ⟨f, by simp [hold], r, c, finishedRoom room c t, hf, hr, hx, rfl, rfl, hm, rfl⟩
        refine .finish (hfinished.mono (List.subset_cons_self _ _)) ?_
        rcases hjob with rfl | rfl
        · exact .inl hcarries
        · exact .inr hcarries
    | _ => exact henqueues.elim

/-- **Every job of the queue** is commissioned, and so is every job that is claimed. -/
theorem jobs_commissioned (h : (S.system redis I).run ms = some q) :
    (∀ job, q.state.jobs.Holds job → Commission S.json q.trace job) ∧
      Always (fun older e => ∀ c job, e.exchange = ⟨.jobs c, .ok (some job)⟩ →
        Commission S.json older job) q.trace := by
  have henqueued : Always (fun older e => ∀ job, e.exchange.call = .jobs (.enqueue job) →
      Commission S.json (e :: older) job) q.trace :=
    (always_iff _).mpr fun newer e older ht job hcall => enqueued_commission h ht hcall
  have hrep := System.run_replays h
  generalize q.trace = t at henqueued hrep
  generalize q.state = w at hrep
  induction t generalizing w with
  | nil =>
    cases hrep
    refine ⟨fun job hjob => ?_, trivial⟩
    cases hjob
  | cons e older ih =>
    obtain ⟨w₀, h₀, hx⟩ := hrep
    obtain ⟨hheld, hclaimed⟩ := ih henqueued.2 w₀ h₀
    have hnew := henqueued.1
    have held : ∀ job, w₀.jobs.Holds job → Commission S.json (e :: older) job := fun job hjob =>
      (hheld job hjob).mono (List.subset_cons_self e older)
    obtain ⟨i, d, env, ⟨call, a⟩⟩ := e
    cases call with
    | voice e =>
      obtain ⟨b, -, rfl⟩ := SiteWorld.exec_voice hx
      exact ⟨held, by rintro c job ⟨⟩, hclaimed⟩
    | jobs c =>
      change SiteWorld.exec redis I env (.jobs c) w₀ = some (a, w) at hx
      rcases SiteWorld.exec_jobs hx with ⟨ha, rfl⟩ | ⟨found, jobs, ha, hstep, rfl⟩
      · refine ⟨held, ?_, hclaimed⟩
        rintro c job ⟨⟩
        cases ha
      · obtain ⟨hjobs, hfound⟩ := JobStore.step_jobs hstep
        refine ⟨fun job hjob => ?_, ?_, hclaimed⟩
        · rcases hjobs job hjob with rfl | ⟨old, hold, hsame⟩
          · exact hnew job rfl
          · exact (held old hold).same hsame
        · rintro c' job ⟨⟩
          cases ha
          obtain ⟨old, hold, hsame⟩ := hfound job rfl
          exact (hheld old hold).same hsame

theorem claimed_commission (h : (S.system redis I).run ms = some q) {newer older : List SiteEntry}
    (ht : q.trace = newer ++ older) {i : ℕ} {job : Job}
    (hclaims : Claims (threadHistory i older) job) : Commission S.json older job := by
  obtain ⟨workerID, now, visibilityTimeout, hin⟩ := hclaims
  obtain ⟨mid, f, rest, rfl, -, hx⟩ := exists_read hin
  have hall := (jobs_commissioned h).2
  rw [ht, ← List.append_assoc] at hall
  exact (hall.at _ job hx).mono fun x hx => by simp [hx]

/-! ## What the databases answer -/

theorem Backends.exec_stored {b b' : Backends} {c : StoreCall} {x : c.Result}
    (hx : Backends.exec redis I env (.store c) b = some (.ok x, b')) :
    ∃ g, b.store.step env.now env.order env.order' c = some (.ok x, g) ∧
      b' = { b with store := g } := by
  rw [Backends.exec] at hx
  split at hx
  · split at hx
    · cases hx
    · cases hx
  · obtain ⟨⟨r, g⟩, hg, hx⟩ := Option.map_eq_some_iff.mp hx
    cases hx
    exact ⟨g, hg, rfl⟩

/-- What a process of a run was answered, the server has answered. -/
theorem site_answered (h : (S.system redis I).run ms = some q) {i : ℕ}
    {newer older : List SiteEntry} (ht : q.trace = newer ++ older) {c : StoreCall} {x : c.Result}
    (hin : onSite ⟨.store c, .ok x⟩ ∈ threadHistory i older) :
    ∃ (g g' : MongoStore) (now : Time) (order order' : List String),
      g.step now order order' c = some (.ok x, g') := by
  obtain ⟨e, he, -, hx⟩ := mem_threadHistory.mp hin
  obtain ⟨w, w', hexec⟩ := (System.run_replays h).executed (by simp [ht, he] : e ∈ q.trace)
  rw [hx] at hexec
  obtain ⟨b, hb, -⟩ := SiteWorld.exec_voice hexec
  obtain ⟨g, hg, -⟩ := Backends.exec_stored hb
  exact ⟨_, g, _, _, _, hg⟩

theorem MongoStore.getRoom_id {g g' : MongoStore} {now : Time} {order order' : List String}
    {roomID : String} {room : Room}
    (h : g.step now order order' (.getRoom roomID) = some (.ok room, g')) : room.id = roomID := by
  simp only [MongoStore.step, MongoStore.findOne, Option.map_map, Option.map_eq_some_iff] at h
  obtain ⟨found, hfound, h⟩ := h
  cases found with
  | none => cases h
  | some room' =>
    cases h
    exact of_decide_eq_true (Collection.findOne_eq_some hfound).2

theorem MongoStore.listed_room {g g' : MongoStore} {now : Time} {order order' : List String}
    {roomID : String} {sessions : List ListenerSession}
    (h : g.step now order order' (.listActiveListenerSessions roomID) = some (.ok sessions, g')) :
    ∀ session ∈ sessions, session.roomID = roomID := by
  simp only [MongoStore.step, Option.map_eq_some_iff] at h
  obtain ⟨found, hfound, h⟩ := h
  cases h
  obtain ⟨all, -, rfl⟩ := Option.map_eq_some_iff.mp hfound
  intro session hmem
  simpa using (Bool.and_eq_true_iff.mp (List.mem_filter.mp hmem).2).1

/-! ## What a worker does -/

/-- A write that is commissioned: sessions of a finished room have left, sessions
have expired, a finished room has a report, and the events say so. -/
inductive Commissioned (t : List SiteEntry) : StoreCall → Prop
  | left {session : ListenerSession} {actorUserID : String} (hstatus : session.status = .left)
      (hfinished : FinishedBy t session.roomID actorUserID) :
      Commissioned t (.saveListenerSession session)
  | expired {session : ListenerSession} {e : SiteEntry} {now : Time}
      (hstatus : session.status = .expired) (he : e ∈ t) (hcmd : e.cmd = .tick now) :
      Commissioned t (.saveListenerSession session)
  | expiry {event : VoiceEvent} {e : SiteEntry} {now : Time}
      (htype : event.eventType = eventListenerSessionExpired) (he : e ∈ t)
      (hcmd : e.cmd = .tick now) : Commissioned t (.appendEvent event)
  | report {report : RoomReport} {actorUserID : String}
      (hfinished : FinishedBy t report.roomID actorUserID) : Commissioned t (.saveReport report)
  | reported {event : VoiceEvent} (htype : event.eventType = eventReportCompleted)
      (hfinished : FinishedBy t event.roomID event.actorUserID) :
      Commissioned t (.appendEvent event)

/-- The payload of a commissioned job. -/
theorem Commission.finished {json : Json} (hjson : json.RoundTrips) {t : List SiteEntry} {job : Job}
    (h : Commission json t job)
    (htype : job.type = jobCloseRoomSessions ∨ job.type = jobGenerateRoomReport)
    {payload : RoomJobPayload} (hpayload : decodePayload json job = .ok payload) :
    FinishedBy t payload.roomID payload.actorUserID := by
  cases h with
  | tick he hcmd hexpire =>
    rw [hexpire] at htype
    exact absurd htype (by decide)
  | @finish roomID actorUserID hfinished hcarries =>
    have hroom : payload = ⟨roomID, actorUserID⟩ := by
      rcases hcarries with hc | hc
      · exact Except.ok.inj (hpayload.symm.trans (decodePayload_eq hjson hc))
      · exact Except.ok.inj (hpayload.symm.trans (decodePayload_eq hjson hc))
    rw [hroom]
    exact hfinished

theorem FinishedBy.actor {t : List SiteEntry} {roomID actorUserID : String}
    (h : FinishedBy t roomID actorUserID) : actorUserID ≠ "" := by
  obtain ⟨e, -, r, c, room, -, -, -, -, -, hm, -⟩ := h
  exact hm.1

/-- **Workers do what they are commissioned to.** However the site runs, a
worker only writes to the store to close a room that a moderator has finished,
to report on it in the name of this moderator, or to let sessions expire after
the scheduler has ticked. -/
theorem workers_commissioned (S : Site) (hjson : S.json.RoundTrips) (redis : Redis.PresenceStore)
    (I : Infra) (ms : List SiteMove) (q : SitePool) (h : (S.system redis I).run ms = some q) :
    Always (fun older e => ∀ workerID c, e.cmd = .processOnce workerID →
      e.exchange.call = .voice (.store c) → ¬ c.IsRead → Commissioned older c) q.trace := by
  rw [always_iff]
  intro newer e older ht workerID c hcmd hcall hwrite
  have hasks := run_site_asks h
  rw [ht] at hasks
  have hasks := hasks.at
  rw [hcall, hcmd] at hasks
  have hsplit : q.trace = (newer ++ [e]) ++ older := by simp [ht]
  cases hasks with
  | @command cmd hist _ hruns hh hvouches =>
    obtain ⟨job, hclaims, hruns⟩ := hruns
    have hcommission := claimed_commission h hsplit hclaims
    have answered : ∀ {c : StoreCall} {x : c.Result}, ⟨.store c, .ok x⟩ ∈ hist →
        ∃ (g g' : MongoStore) (now : Time) (order order' : List String),
          g.step now order order' c = some (.ok x, g') := fun hin =>
      site_answered h hsplit (hh _ hin (by simp))
    cases hruns with
    | @close payload endedAt htype hpayload =>
      have hfinished := hcommission.finished hjson (.inl htype) hpayload
      obtain ⟨sessions, session, hlist, hmem, rfl⟩ := closeRoomSessions_writes hvouches hwrite
      obtain ⟨g, g', _, _, _, hg⟩ := answered hlist
      have hroom : (endedSession session .left "room_finished" endedAt).roomID = payload.roomID :=
        MongoStore.listed_room hg session hmem
      rw [← hroom] at hfinished
      exact .left rfl hfinished
    | room htype hpayload hactor => exact absurd (getRoom_writes hvouches) hwrite
    | @report payload actorID htype hpayload hactor =>
      have hfinished := hcommission.finished hjson (.inr htype) hpayload
      obtain rfl := hactor hfinished.actor
      obtain ⟨room, hread, hwrites⟩ := generateReport_writes hvouches hwrite
      obtain ⟨g, g', _, _, _, hg⟩ := answered hread
      have hroom : room.id = payload.roomID := MongoStore.getRoom_id hg
      rcases hwrites with ⟨report, hid, rfl⟩ | ⟨event, htype, hid, hactor, rfl⟩
      · exact .report (hid ▸ hroom ▸ hfinished)
      · exact .reported htype (hactor ▸ hid ▸ hroom ▸ hfinished)
    | expire cutoff htype =>
      cases hcommission with
      | tick he hcmd' =>
        rcases expireStaleListenerSessions_writes hvouches hwrite with ⟨session, hs, rfl⟩ |
          ⟨event, hevent, rfl⟩
        · exact .expired hs he hcmd'
        · exact .expiry hevent he hcmd'
      | finish hfinished hcarries =>
        rcases hcarries with hc | hc
        · exact absurd (hc.type_eq.symm.trans htype)
            (show jobCloseRoomSessions ≠ jobExpireListenerSession by decide)
        · exact absurd (hc.type_eq.symm.trans htype)
            (show jobGenerateRoomReport ≠ jobExpireListenerSession by decide)

end Run

/-- A worker has saved a session that has left. -/
def closesSession (e : SiteEntry) : Bool :=
  match e.cmd, e.exchange.call with
  | .processOnce _, .voice (.store (.saveListenerSession session)) => session.status = .left
  | _, _ => false

theorem workers_commissioned_finished :
    ∃ q, (sampleSite.system Redis.roundingStore (sampleInfra fun _ => false)).run
        (siteMoves 0 finishedSite) = some q ∧ (∃ e ∈ q.trace, closesSession e = true) ∧
      Always (fun older e => ∀ workerID c, e.cmd = .processOnce workerID →
        e.exchange.call = .voice (.store c) → ¬ c.IsRead → Commissioned older c) q.trace := by
  have hrun : ((sampleSite.system Redis.roundingStore (sampleInfra fun _ => false)).run
      (siteMoves 0 finishedSite)).any (fun q => q.trace.any closesSession) = true := by
    decide +kernel
  obtain ⟨q, hq, hcloses⟩ := (Option.any_eq_true _ _).mp hrun
  exact ⟨q, hq, List.any_eq_true.mp hcloses,
    workers_commissioned sampleSite plainJson_roundTrips _ _ _ q hq⟩

end WaveCast
