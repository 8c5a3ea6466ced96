import WaveCast.Api.Requests
import WaveCast.Consumable
import WaveCast.Site

/-!
# The site runs the service

Whatever interleaves on the whole site, and whatever fails or is given up, its
databases go through a run of the deployed service: a request is a command of
it, and a worker runs one command after another (`Site.hosting`). So what holds
of the databases in every run of the deployment holds of them on the site, with
all its workers and its scheduler (`site_safe`).
-/

namespace WaveCast

open Interaction WaveCast.Action Program Service Async

/-! ## Nobody looks at what becomes of a job -/

/-- The same answer, unless it is about a job that was to be enqueued. -/
def SameUnlessJob (e : Effect) (a a' : e.Answer) : Prop := (∀ job, e ≠ .enqueue job) → a = a'

section Heedless

variable {α β : Type} {s : Service}

/-- The programs go on alike, whatever becomes of the jobs. -/
abbrev Heedless (p p' : Action α) : Prop := Related (S := effects) SameUnlessJob Eq p p'

theorem heedless_of_quiet {p : Action α} {h : List VoiceExchange}
    {Q : List VoiceExchange → Except AppError α → Prop}
    (hp : Follows (S := effects) (fun _ e => ∀ job, e ≠ .enqueue job) Q h p) : Heedless p p :=
  Related.self (fun _ => rfl) (hp.mono (fun _ _ he _ _ ha => ha he) fun _ _ hr => hr)

theorem heedless_ask {e : Effect} (he : ∀ job, e ≠ .enqueue job) :
    Heedless (ask e) (ask e) := by
  refine .call (S := effects) e fun a a' ha => ?_
  obtain rfl := ha he
  exact .ret a

theorem heedless_ofExcept (r : Except AppError α) : Heedless (ofExcept r) (ofExcept r) := by
  cases r with
  | ok a => exact .ret a
  | error e => exact .fail rfl

theorem heedless_store (c : StoreCall) : Heedless (store c) (store c) :=
  (heedless_ask (by simp)).bind fun a => heedless_ofExcept a

theorem heedless_publish {eventType roomID actorUserID targetUserID correlationID : String}
    {payload : Payload} :
    Heedless (publish eventType roomID actorUserID targetUserID correlationID payload)
      (publish eventType roomID actorUserID targetUserID correlationID payload) := by
  rw [publish]
  refine (heedless_ask (by simp)).bind fun eventID => (heedless_ask (by simp)).bind fun t => ?_
  refine (heedless_store _).bind fun _ => (heedless_ask (by simp)).bind fun a => ?_
  exact heedless_ofExcept a

theorem heedless_enqueueBestEffort {jobType idempotencyKey : String} {payload : RoomJobPayload} :
    Heedless (s.enqueueBestEffort jobType idempotencyKey payload)
      (s.enqueueBestEffort jobType idempotencyKey payload) := by
  rw [enqueueBestEffort]
  split
  · exact .call (S := effects) _ fun _ _ _ => .ret ()
  · exact .ret ()

/-- Only `FinishRoom` enqueues jobs. -/
theorem asks_quiet {cmd : Command} (hcmd : ∀ c, cmd ≠ .finishRoom c) {h : List VoiceExchange}
    {e : Effect} (ha : Asks s cmd h e) (job : JobRequest) : e ≠ .enqueue job := by
  rintro rfl
  cases cmd with
  | finishRoom c => exact hcmd c rfl
  | _ => exact ha

theorem finishRoom_heedless (c : FinishRoomCommand) :
    Heedless (s.finishRoom c) (s.finishRoom c) := by
  rw [finishRoom]
  refine (heedless_store _).bind fun room => (Related.require fun _ => rfl).bind fun _ => ?_
  refine (Related.require fun _ => rfl).bind fun _ => (heedless_ask (by simp)).bind fun t => ?_
  refine (heedless_store _).bind fun _ => heedless_publish.bind fun _ => ?_
  exact heedless_enqueueBestEffort.bind fun _ => heedless_enqueueBestEffort.bind fun _ => .ret _

/-- **No command** looks at what becomes of its jobs. -/
theorem program_heedless (s : Service) (cmd : Command) :
    Heedless (s.program cmd) (s.program cmd) := by
  by_cases hcmd : ∃ c, cmd = .finishRoom c
  · obtain ⟨c, rfl⟩ := hcmd
    exact (finishRoom_heedless c).bind fun room => .ret _
  · refine heedless_of_quiet ((program_asks s cmd).mono ?_ fun _ _ h => h)
    exact fun h e ha => asks_quiet (fun c hc => hcmd ⟨c, hc⟩) ha

/-- The method behind a command that enqueues nothing. -/
theorem heedless_of_program {p : Action α} (f : α → Reply) (cmd : Command)
    (hp : s.program cmd = p.bind fun a => .ret (f a)) (hcmd : ∀ c, cmd ≠ .finishRoom c) :
    Heedless p p := by
  have hasks := program_asks s cmd
  rw [hp, follows_bind] at hasks
  exact heedless_of_quiet (hasks.mono (fun _ _ ha => asks_quiet hcmd ha) fun _ _ h => h)

end Heedless

/-! ## The threads of the site -/

/-- The program goes on with the thread of the service, and with commands of the
service after it. -/
inductive Hosts (s : Service) {α : Type} :
    SiteAction α → Option (Thread effects Command AppError Reply) → Prop
  | ret (a : α) (v : Option (Thread effects Command AppError Reply)) : Hosts s (.ret a) v
  | voice {e : Effect} {next : e.Answer → SiteAction α} {cmd : Command}
      {next' : e.Answer → Action Reply} (h : ∀ a, Hosts s (next a) (some ⟨cmd, next' a⟩)) :
      Hosts s (.call (.voice e) next) (some ⟨cmd, .call e next'⟩)
  /-- A worker reads the clock. -/
  | now {next : Time → SiteAction α} {v : Option (Thread effects Command AppError Reply)}
      (h : ∀ t, Hosts s (next t) v) : Hosts s (.call (.voice .now) next) v
  /-- A job gets an id. -/
  | newID {pfx : String} {next : String → SiteAction α}
      {v : Option (Thread effects Command AppError Reply)} (h : ∀ id, Hosts s (next id) v) :
      Hosts s (.call (.voice (.newID pfx)) next) v
  | jobs {c : JobCall} {next : Except AppError (Option Job) → SiteAction α}
      {v : Option (Thread effects Command AppError Reply)} (h : ∀ a, Hosts s (next a) v) :
      Hosts s (.call (.jobs c) next) v
  /-- The job of a command was enqueued. -/
  | enqueued {p : SiteAction α} {cmd : Command} {job : JobRequest}
      {next : Except AppError Unit → Action Reply}
      (h : Hosts s p (some ⟨cmd, next (.ok ())⟩)) :
      Hosts s p (some ⟨cmd, .call (.enqueue job) next⟩)
  | start {p : SiteAction α} {v : Option (Thread effects Command AppError Reply)} (cmd : Command)
      (h : Hosts s p (some ⟨cmd, s.program cmd⟩)) : Hosts s p v

section Hosts

variable {S : Site} {α β γ δ : Type}

theorem hosts_enqueue {q : Queue} {jobType idempotencyKey : String}
    {payload : Except AppError String} {respond : Except AppError Unit → β}
    {g : β → SiteAction α} {v : Option (Thread effects Command AppError Reply)}
    (hg : ∀ b, Hosts S.service (g b) v) :
    Hosts S.service
      (((q.enqueue jobType idempotencyKey payload).linked Site.enqueueCall respond).bind g) v := by
  cases payload with
  | error e => exact hg _
  | ok raw =>
    refine .now fun t => .newID fun id => .jobs fun r => ?_
    cases r with
    | ok _ => exact hg _
    | error e => exact hg _

/-- **A program of the service** is hosted by the command it belongs to. -/
theorem hosts_linked {p p' : Action β} (hp : Heedless p p') {g : β → Action γ}
    {respond : Except AppError γ → δ} {k : δ → SiteAction α} (f : β → Reply) (cmd : Command)
    (herror : ∀ e v, Hosts S.service (k (respond (.error e))) v)
    (hg : ∀ b v, Hosts S.service (((g b).linked S.serviceCall respond).bind k) v) :
    Hosts S.service (((p.bind g).linked S.serviceCall respond).bind k)
      (some ⟨cmd, p'.bind fun b => .ret (f b)⟩) := by
  induction hp with
  | ret b => exact hg b _
  | fail he => exact herror _ _
  | call e h ih =>
    cases e with
    | enqueue request =>
      refine .enqueued ?_
      rw [call_bind, linked, Site.serviceCall, bind_assoc]
      exact hosts_enqueue fun r => ih r (.ok ()) fun he => absurd rfl (he request)
    | _ => exact .voice fun a => ih a a fun _ => rfl

/-- A process may start a command at any time. -/
theorem hosts_command {p : Action β} (f : β → Reply) (cmd : Command)
    (hp : S.service.program cmd = p.bind fun b => .ret (f b)) (hcmd : ∀ c, cmd ≠ .finishRoom c)
    {g : β → Action γ} {respond : Except AppError γ → δ} {k : δ → SiteAction α}
    (herror : ∀ e v, Hosts S.service (k (respond (.error e))) v)
    (hg : ∀ b v, Hosts S.service (((g b).linked S.serviceCall respond).bind k) v)
    (v : Option (Thread effects Command AppError Reply)) :
    Hosts S.service (((p.bind g).linked S.serviceCall respond).bind k) v := by
  refine .start cmd ?_
  rw [hp]
  exact hosts_linked (heedless_of_program f cmd hp hcmd) f cmd herror hg

theorem hosts_generateReport {c : GenerateReportCommand} {k : Option String → SiteAction α}
    (hk : ∀ o v, Hosts S.service (k o) v) (v : Option (Thread effects Command AppError Reply)) :
    Hosts S.service ((((generateReport c).bind fun _ => .ret ()).linked S.serviceCall
      Site.errorText).bind k) v := by
  refine hosts_command .report (.generateReport c) rfl (by simp) ?_ ?_ v
  · exact fun e v => hk _ v
  · exact fun report v => hk none v

/-- **A handler** is hosted, whatever the worker did before. -/
theorem hosts_handle {job : Job} {k : Option String → SiteAction α}
    (hk : ∀ o v, Hosts S.service (k o) v) (v : Option (Thread effects Command AppError Reply)) :
    Hosts S.service ((S.handle job).bind k) v := by
  rw [Site.handle]
  split
  · rename_i handler hfound
    rcases S.registry.handler_cases hfound with ⟨-, rfl⟩ | ⟨-, rfl⟩ | ⟨-, rfl⟩ | ⟨-, rfl⟩
    · rw [Registry.closeRoomSessions]
      cases decodePayload S.registry.json job with
      | error e => exact hk _ v
      | ok payload =>
        refine .now fun endedAt => ?_
        change Hosts S.service (((S.service.closeRoomSessions payload.roomID endedAt
          job.idempotencyKey).linked S.serviceCall Site.errorText).bind k) v
        rw [← bind_ret (Service.closeRoomSessions _ _ _ _)]
        refine hosts_command (fun _ => .done) (.closeRoomSessions payload.roomID endedAt _) rfl
          (by simp) ?_ ?_ v
        · exact fun e v => hk _ v
        · exact fun _ v => hk none v
    · rw [Registry.generateRoomReport]
      cases decodePayload S.registry.json job with
      | error e => exact hk _ v
      | ok payload =>
        rw [ofExcept_ok, bind_eq, ret_bind]
        split
        · refine hosts_command .room (.getRoom payload.roomID) rfl (by simp) ?_ ?_ v
          · exact fun e v => hk _ v
          · exact fun room v => hosts_generateReport hk v
        · exact hosts_generateReport hk v
    · rw [Registry.expireStaleListenerSessions]
      refine .now fun t => ?_
      refine hosts_command .expired (.expireStaleListenerSessions _ 250 job.idempotencyKey) rfl
        (by simp) ?_ ?_ v
      · exact fun e v => hk _ v
      · exact fun n v => hk none v
    · exact hk _ v
  · exact hk none v

theorem hosts_fail {r : Runner} {job : Job} {message : String}
    (v : Option (Thread effects Command AppError Reply)) :
    Hosts S.service ((r.fail job message).linked (Site.queueCall S.handle) fun _ =>
      (none : Option Api.Response)) v := by
  rw [Runner.fail]
  refine .now fun t => ?_
  dsimp only
  split
  · refine .jobs fun a => ?_
    exact .ret none v
  · refine .jobs fun a => ?_
    exact .ret none v

theorem hosts_processOnce (workerID : String) : Hosts S.service (S.processOnce workerID) none := by
  rw [Site.processOnce, Runner.processOnce]
  refine .now fun t => .jobs fun claimed => ?_
  match claimed with
  | .error e => exact .ret none none
  | .ok none => exact .ret none none
  | .ok (some job) =>
    dsimp only [ret_bind]
    split
    · exact hosts_fail none
    · rw [bind_eq, Async.ask, perform_bind, linked]
      refine hosts_handle (fun o v => ?_) none
      cases o with
      | some message => exact hosts_fail v
      | none => exact .now fun t => .jobs fun r => .ret none v

/-- **Every process of the site** runs commands of the service, one after another. -/
theorem hosts_program (cmd : SiteCommand) : Hosts S.service (S.program cmd) none := by
  cases cmd with
  | serve r =>
    rw [Site.program, Site.serve]
    split
    · exact .ret _ none
    · rename_i cmd hcmd
      refine .start cmd ?_
      have hlinked : Hosts S.service ((((S.service.program cmd).bind .ret).linked S.serviceCall
          fun o => some (r.respond o)).bind .ret)
          (some ⟨cmd, (S.service.program cmd).bind fun b => .ret b⟩) :=
        hosts_linked (program_heedless S.service cmd) id cmd (fun e v => .ret _ v)
          fun b v => .ret _ v
      rwa [bind_ret, bind_ret] at hlinked
  | processOnce workerID => exact hosts_processOnce workerID
  | tick t =>
    rw [Site.program, Site.tick, ← bind_ret (linked _ _ _)]
    exact hosts_enqueue fun b => .ret b none

end Hosts

/-! ## The databases of the site -/

/-- The same databases. The site has another queue, and has drawn more ULIDs. -/
structure Backends.Covers (b t : Backends) : Prop where
  store : t.store = b.store
  presence : t.presence = b.presence
  bus : t.bus = b.bus
  issued : t.issued ⊆ b.issued

section Databases

variable {S : Site} {redis : Redis.PresenceStore} {I : Infra} {env : ServerEnv}

/-- A call of the service on the site can be made in the deployment of the service. -/
theorem Backends.Covers.exec {b b' t : Backends} (h : b.Covers t) {e : Effect} {a : e.Answer}
    (hx : Backends.exec redis I env e b = some (a, b')) :
    ∃ t', Backends.exec redis I env e t = some (a, t') ∧ b'.Covers t' := by
  rw [Backends.exec] at hx
  split at hx
  · rename_i hfails
    split at hx
    · rename_i hmay
      obtain ⟨a, ha, hx⟩ := Option.map_eq_some_iff.mp hx
      cases hx
      exact ⟨t, by rw [Backends.exec, if_pos hfails, if_pos hmay, ha]; rfl, h⟩
    · cases hx
  · rename_i hfails
    have done : ∀ t', Backends.perform redis I env e t = some (a, t') → b'.Covers t' →
        ∃ t', Backends.exec redis I env e t = some (a, t') ∧ b'.Covers t' := fun t' hp hb =>
      ⟨t', by rw [Backends.exec, if_neg hfails]; exact hp, hb⟩
    cases e with
    | newID pfx =>
      simp only [Backends.perform] at hx
      split at hx
      · cases hx
      · rename_i hulid
        cases hx
        have hulid' : env.ulid ∉ t.issued := fun hin => hulid (h.issued hin)
        refine done { t with issued := env.ulid :: t.issued }
          (by simp [Backends.perform, hulid']) ?_
        exact { h with issued := List.cons_subset_cons _ h.issued }
    | store c =>
      obtain ⟨⟨r, g⟩, hg, hx⟩ := Option.map_eq_some_iff.mp hx
      cases hx
      refine done { t with store := g } ?_ { h with store := rfl }
      rw [Backends.perform, h.store, hg]
      rfl
    | presence c =>
      cases hx
      refine done
        { t with presence := (Redis.step redis env.serverNow env.lastSeen c b.presence).2 }
        ?_ { h with presence := rfl }
      rw [Backends.perform, h.presence]
    | publish event =>
      cases hx
      exact done { t with bus := t.bus ++ [event] } rfl { h with bus := by rw [h.bus] }
    | enqueue job =>
      cases hx
      exact done { t with queue := t.queue ++ [job] } rfl { h with }
    | _ =>
      cases hx
      exact done t rfl h

/-- A worker reads the clock, or gives a job an id. -/
theorem Backends.Covers.aside {b b' t : Backends} (h : b.Covers t) {e : Effect} {a : e.Answer}
    (he : e = .now ∨ ∃ pfx, e = .newID pfx)
    (hx : Backends.exec redis I env e b = some (a, b')) : b'.Covers t := by
  rw [Backends.exec] at hx
  split at hx
  · split at hx
    · obtain ⟨a, -, hx⟩ := Option.map_eq_some_iff.mp hx
      cases hx
      exact h
    · cases hx
  · rcases he with rfl | ⟨pfx, rfl⟩
    · cases hx
      exact h
    · simp only [Backends.perform] at hx
      split at hx
      · cases hx
      · cases hx
        exact { h with issued := fun u hu => List.mem_cons_of_mem _ (h.issued hu) }

/-- The site as a host of the service. -/
def Site.hosting (S : Site) (redis : Redis.PresenceStore) (I : Infra) :
    Hosting (S.system redis I) (S.service.deployment redis I) where
  states w t := w.backends.Covers t
  hosts := Hosts S.service
  init := ⟨rfl, rfl, rfl, fun _ h => h⟩
  programs := hosts_program
  call := by
    intro env c next a w w' v t hhosts hcovers hx
    generalize hp : Program.call c next = p at hhosts
    induction hhosts generalizing t with
    | ret b v => cases hp
    | @voice e next₀ cmd next' h =>
      cases hp
      obtain ⟨⟨a, b⟩, hb, hx⟩ := Option.map_eq_some_iff.mp hx
      cases hx
      obtain ⟨t', ht, hcovers'⟩ := hcovers.exec hb
      exact ⟨_, t', .call env ht (.refl _ _), h a, hcovers'⟩
    | @now next₀ v h =>
      cases hp
      obtain ⟨⟨a, b⟩, hb, hx⟩ := Option.map_eq_some_iff.mp hx
      cases hx
      exact ⟨v, t, .refl _ _, h a, hcovers.aside (.inl rfl) hb⟩
    | @newID pfx next₀ v h =>
      cases hp
      obtain ⟨⟨a, b⟩, hb, hx⟩ := Option.map_eq_some_iff.mp hx
      cases hx
      exact ⟨v, t, .refl _ _, h a, hcovers.aside (.inr ⟨pfx, rfl⟩) hb⟩
    | @jobs call next₀ v h =>
      cases hp
      refine ⟨v, t, .refl _ _, h a, ?_⟩
      change SiteWorld.exec redis I env (.jobs call) w = some (a, w') at hx
      rw [SiteWorld.exec] at hx
      split at hx
      · cases hx
        exact hcovers
      · obtain ⟨r, -, hx⟩ := Option.map_eq_some_iff.mp hx
        cases hx
        exact hcovers
    | @enqueued p cmd job next' h ih =>
      obtain ⟨v', t', halone, hhosts, hcovers'⟩ :=
        ih (t := { t with queue := t.queue ++ [job] }) { hcovers with } hp
      refine ⟨v', t', .call (served (sampleEnv 0 [])) ?_ halone, hhosts, hcovers'⟩
      rfl
    | start cmd h ih =>
      obtain ⟨v', t', halone, hhosts, hcovers'⟩ := ih hcovers hp
      exact ⟨v', t', .start cmd halone, hhosts, hcovers'⟩

theorem Backends.Covers.sound {b t : Backends} (h : b.Covers t) (ht : t.Sound) : b.Sound where
  documents := h.store ▸ ht.documents
  loggedOnce := h.store ▸ ht.loggedOnce
  publishedOnce := h.bus ▸ ht.publishedOnce
  published_logged := by
    rw [← h.store, ← h.bus]
    exact ht.published_logged
  consistent := h.store ▸ ht.consistent

end Databases

/-- **The whole site keeps its databases sound.** However its requests, workers
and ticks interleave, whatever fails and wherever a process stops, the databases
are those of a run of the deployed service, and what they hold fits together. -/
theorem site_safe (S : Site) (redis : Redis.PresenceStore) (I : Infra)
    (hset : ∀ d, 0 < d → 0 < redis.setTTL d) (hlive : 0 < S.service.cfg.listenerSessionTimeout)
    (ms : List SiteMove) (q : SitePool) (h : (S.system redis I).run ms = some q) :
    q.state.backends.Sound ∧ ∃ ms' p, (S.service.deployment redis I).run ms' = some p ∧
      q.state.backends.Covers p.state := by
  obtain ⟨ms', p, hp, hcovers⟩ := (S.hosting redis I).run h
  have hcovers : q.state.backends.Covers p.state := hcovers
  obtain ⟨ms₁, q₁, -, hq₁, hmatch⟩ := (S.service.inProcess redis I hset hlive).run hp
  have hb : Backs p.state q₁.state := hmatch.states
  exact ⟨hcovers.sound (hb.sound hq₁), ms', p, hp, hcovers⟩

def sampleSite : Site where
  service := sampleService
  queue := newQueue ⟨0, 0, 0, 0, 0, true, 0⟩
  json := plainJson
  formatSecond t := toString t
  scheduledAt t := .ok (toString t)

/-- The moves of processes that run one after the other, from thread `i` on. -/
def siteMoves (i : ℕ) : List (SiteCommand × List Env) → List SiteMove
  | [] => []
  | (cmd, envs) :: cmds =>
      .start cmd :: envs.map (fun env => .call i (served env)) ++ siteMoves (i + 1) cmds

def sampleJobs : List String := [newID prefixJob (sampleUlid 20), newID prefixJob (sampleUlid 21)]

/-- A guest listens until the owner finishes the room, and then a worker runs its jobs. -/
def finishedSite : List (SiteCommand × List Env) :=
  let inRoom := visiting [sampleRoom]
  let ofGuest := visiting [guestSession]
  [(.serve (Api.requestOf "owner" "create" (.createRoom (.decoded ⟨"title", "", [], []⟩))),
      plain 1 ++ drawing 0 ++ drawing 1 ++ plain 1 ++ publishing 2),
   (.serve (Api.requestOf "owner" "start" (.startRoom sampleRoom (.decoded ⟨"", ""⟩))),
      inRoom ++ plain 1 ++ inRoom ++ publishing 3),
   (.serve (Api.requestOf "guest" "join" (.joinRoom sampleRoom (.decoded ⟨"", "", ""⟩))),
      inRoom ++ plain 2 ++ drawing 4 ++ plain 2 ++ publishing 5),
   (.serve (Api.requestOf "owner" "finish" (.finishRoom sampleRoom (.decoded ⟨"", ""⟩))),
      inRoom ++ plain 1 ++ inRoom ++ publishing 8 ++ plain 1 ++ drawing 20 ++ plain 2 ++
        drawing 21 ++ plain 1),
   (.processOnce "worker",
      plain 1 ++ visiting sampleJobs ++ plain 1 ++ ofGuest ++ ofGuest ++ plain 3),
   (.processOnce "worker",
      plain 1 ++ visiting sampleJobs ++ inRoom ++ ofGuest ++ drawing 30 ++ plain 2 ++
        publishing 31 ++ plain 2)]

theorem site_safe_finished :
    ∃ q, (sampleSite.system Redis.roundingStore (sampleInfra fun _ => false)).run
        (siteMoves 0 finishedSite) = some q ∧
      q.state.backends.store.events.length = 5 ∧ q.state.backends.Sound := by
  have hrun : ((sampleSite.system Redis.roundingStore (sampleInfra fun _ => false)).run
      (siteMoves 0 finishedSite)).any (fun q =>
        q.state.backends.store.events.length = 5) = true := by decide +kernel
  obtain ⟨q, hq, hevents⟩ := (Option.any_eq_true _ _).mp hrun
  exact ⟨q, hq, of_decide_eq_true hevents,
    (site_safe _ _ _ setTTL_pos sampleService_timeout _ q hq).1⟩

end WaveCast
