import WaveCast.Api.Requests
import WaveCast.Failures

/-!
# Internal errors

A request is answered with the status 500 exactly when one of its calls failed
other than `Enqueue`, which is best effort, and makes no call after that one
(`internal_error_iff`). On MongoDB and Redis, as long as they can be reached,
that is exactly when it saves a report for a room that has one
(`production_internal_error_iff`).
-/

namespace WaveCast

open Interaction Gateway Program

namespace Api

/-! ## Responses -/

theorem httpStatus_internal {e : AppError} : e.httpStatus = 500 ↔ ∃ text, e = .external text := by
  cases e <;> simp [AppError.httpStatus]

theorem decodeJSON_status {α : Type} [Inhabited α] {r : Request} {body : Body α} {b : Response}
    (h : r.decodeJSON body = .error b) : b.status = 400 := by
  cases body with
  | invalid message => cases h; rfl
  | _ => cases h

/-- Neither what is answered without the service nor a result is an internal error. -/
structure Handler.Ordinary (k : Handler) : Prop where
  atOnce : ∀ b, k.command = .error b → b.status ≠ 500
  status : k.status ≠ 500

theorem atOnce_ordinary {b : Response} (h : b.status ≠ 500) : (atOnce b).Ordinary where
  atOnce b' hb := by
    cases hb
    exact h
  status := h

theorem pass_ordinary {c : Command} {status : ℕ} (h : status ≠ 500) :
    (pass (.ok c) status).Ordinary where
  atOnce b hb := by cases hb
  status := h

section Decoded

variable {α : Type} [Inhabited α] {r : Request} {body : Body α} {f : α → Command}

theorem decoded_ordinary {status : ℕ} (h : status ≠ 500) {content : Reply → Content} :
    Handler.Ordinary ⟨(r.decodeJSON body).map f, status, content⟩ where
  atOnce b hb := by
    cases hd : r.decodeJSON body with
    | ok req =>
      rw [hd] at hb
      cases hb
    | error b' =>
      rw [hd] at hb
      cases hb
      rw [decodeJSON_status hd]
      decide
  status := h

end Decoded

theorem handler_ordinary (r : Request) : r.handler.Ordinary := by
  rw [Request.handler]
  cases r.endpoint with
  | health | ready | notImplementedEvent | acceptedWebhook =>
    exact atOnce_ordinary (by simp [Request.writeStatus])
  | getRoom | activeCounts | listenerStream | listRecordings | getReport | recordingPlaybackURL
  | realtimeToken => exact pass_ordinary (by decide)
  | refreshPlaybackURL => exact ⟨fun b hb => (by cases hb), by simp [refreshPlaybackURL]⟩
  | _ => exact decoded_ordinary (by decide)

theorem respond_internal {r : Request} {o : Except AppError Reply} :
    (r.respond o).status = 500 ↔ Internal o := by
  cases o with
  | ok reply => exact iff_of_false (handler_ordinary r).status (not_internal_ok reply)
  | error e => exact httpStatus_internal.trans internal_error.symm

/-! ## Runs -/

/-- The response to a request tells whether a call it made has failed. -/
theorem answered_internal {E σ : Type} {M : System effects Command E AppError Reply σ}
    (hM : ∀ cmd, Candid (M.program cmd)) {ms : List (Move Request E)}
    {q : Pool effects Request E Empty Response σ} (h : (M.behind gateway).run ms = some q) {i : ℕ}
    {r : Request} {b : Response} (hi : q.threads[i]? = some ⟨r, .ret b⟩) :
    b.status = 500 ↔ ∃ x ∈ threadHistory i q.trace, Internal (outcome x) := by
  obtain ⟨p, hp, hfronts⟩ := behind_run idle h
  rcases hfronts.answered hi with hcmd | ⟨c, o, hcmd, hi', rfl⟩
  · refine iff_of_false ((handler_ordinary r).atOnce b hcmd) ?_
    -- a request that is answered at once makes no call
    rintro ⟨x, hx, -⟩
    obtain ⟨e, he, rfl, -⟩ := mem_threadHistory.mp hx
    obtain ⟨rest, hrest⟩ := System.run_threads h e he
    rw [hi] at hrest
    obtain ⟨e', -, hpass⟩ := passes_of_mem hfronts.trace he
    cases hpass with
    | mk i hc env x =>
      cases hrest
      rw [hcmd] at hc
      cases hc
  · have htells : Tells (threadHistory i p.trace) o := by
      have hfollows := (System.run_obeys (fun cmd => (hM cmd).follows [] clean_nil) hp).1 i c _ hi'
      cases o <;> exact hfollows
    rw [passes_history hfronts.trace]
    refine respond_internal.trans (htells.trans ?_)
    simp only [Clean, not_forall, not_not, exists_prop]

/-- A request makes its calls while none has failed. -/
theorem asked_clean {E σ : Type} {M : System effects Command E AppError Reply σ}
    (hM : ∀ cmd, Candid (M.program cmd)) {ms : List (Move Request E)}
    {q : Pool effects Request E Empty Response σ} (h : (M.behind gateway).run ms = some q)
    {newer older : List (Entry effects Request E)} {e : Entry effects Request E}
    (ht : q.trace = newer ++ e :: older) : Clean (threadHistory e.thread older) := by
  obtain ⟨n, q', hq', htrace⟩ := System.run_prefix h ht
  obtain ⟨p, hp, hfronts⟩ := behind_run idle hq'
  have hclean := System.run_always (fun cmd => (hM cmd).follows [] clean_nil) hp
  have hpasses := hfronts.trace
  rw [htrace] at hpasses
  obtain ⟨e', older', hpass, holder, hp'⟩ := List.forall₂_cons_left_iff.mp hpasses
  rw [hp'] at hclean
  rw [passes_history holder]
  cases hpass with
  | mk i hc env x => exact hclean.1

/-- **When the API answers 500.** On the in-process backends, in every
interleaving: exactly when a call of the request failed, other than `Enqueue`.
The request makes no call after that one. -/
theorem internal_error_iff (s : Service) (I : Infra) (ms : List ApiMove) (q : ApiPool)
    (h : (s.api I).run ms = some q) (i : ℕ) (r : Request) (b : Response)
    (hi : q.threads[i]? = some ⟨r, .ret b⟩) :
    (b.status = 500 ↔ ∃ e ∈ q.trace, e.thread = i ∧ e.env.fails = true ∧
      ∀ job, e.exchange.call ≠ .enqueue job) ∧
    ∀ newer e older, q.trace = newer ++ e :: older → e.thread = i → ∀ f ∈ older, f.thread = i →
      f.env.fails = true → ∃ job, f.exchange.call = .enqueue job := by
  have hfailed : ∀ e ∈ q.trace, Internal (outcome e.exchange) ↔
      e.env.fails = true ∧ ∀ job, e.exchange.call ≠ .enqueue job := by
    intro e he
    obtain ⟨newer, older, ht⟩ := List.append_of_mem he
    obtain ⟨_, _, _, _, -, -, -, hx⟩ := System.run_made h ht
    exact World.exec_internal hx
  constructor
  · rw [answered_internal (program_candid s) h hi]
    constructor
    · rintro ⟨x, hx, hinternal⟩
      obtain ⟨e, he, hthread, rfl⟩ := mem_threadHistory.mp hx
      exact ⟨e, he, hthread, (hfailed e he).mp hinternal⟩
    · rintro ⟨e, he, hthread, hcall⟩
      exact ⟨e.exchange, mem_threadHistory.mpr ⟨e, he, hthread, rfl⟩, (hfailed e he).mpr hcall⟩
  · rintro newer e older ht rfl f hf hthread hfails
    by_contra! hcall
    have hinternal := (hfailed f (by simp [ht, hf])).mpr ⟨hfails, hcall⟩
    exact asked_clean (program_candid s) h ht f.exchange
      (mem_threadHistory.mpr ⟨f, hf, hthread, rfl⟩) hinternal

/-- The response to request `i`. -/
def responseTo {E σ : Type} (i : ℕ) (q : Pool effects Request E Empty Response σ) :
    Option Response :=
  match q.threads[i]? with
  | some ⟨_, .ret b⟩ => some b
  | _ => none

theorem responseTo_eq_some {E σ : Type} {i : ℕ} {q : Pool effects Request E Empty Response σ}
    {b : Response} (h : responseTo i q = some b) : ∃ r, q.threads[i]? = some ⟨r, .ret b⟩ := by
  rw [responseTo] at h
  split at h
  · rename_i r b' hi
    cases h
    exact ⟨r, hi⟩
  · cases h

/-- A room is created, and the bus does not take the event. -/
def unannounced : List (Request × List Env) :=
  [(requestOf "owner" "first" (.createRoom (.decoded ⟨"title", "", [], []⟩)),
      plain 1 ++ drawing 0 ++ drawing 1 ++ plain 1 ++ drawing 2 ++ plain 2 ++ [failingEnv])]

/-- The failed call is the last one. -/
theorem internal_error_iff_unannounced :
    ∃ q e older, (sampleService.api (sampleInfra fun _ => true)).run (requestMoves 0 unannounced) =
        some q ∧ (responseTo 0 q).any (·.status = 500) = true ∧
      q.trace = e :: older ∧ e.env.fails = true := by
  have hrun : ((sampleService.api (sampleInfra fun _ => true)).run (requestMoves 0 unannounced)).any
      (fun q => (responseTo 0 q).any (·.status = 500) && q.trace.all (·.thread = 0)) = true := by
    decide +kernel
  obtain ⟨q, hq, hfacts⟩ := (Option.any_eq_true _ _).mp hrun
  obtain ⟨hanswered, hthreads⟩ := Bool.and_eq_true_iff.mp hfacts
  obtain ⟨b, hb, hstatus⟩ := (Option.any_eq_true _ _).mp hanswered
  obtain ⟨r, hi⟩ := responseTo_eq_some hb
  obtain ⟨herror, hlast⟩ := internal_error_iff _ _ _ q hq 0 r b hi
  obtain ⟨e, he, hthread, hfails, hcall⟩ := herror.mp (of_decide_eq_true hstatus)
  obtain ⟨newer, older, ht⟩ := List.append_of_mem he
  cases newer with
  | nil => exact ⟨q, e, older, hq, hanswered, ht, hfails⟩
  | cons f newer =>
    have hf : f.thread = 0 := of_decide_eq_true (List.all_eq_true.mp hthreads f (by simp [ht]))
    obtain ⟨job, hjob⟩ := hlast [] f (newer ++ e :: older) ht hf e (by simp) hthread hfails
    exact absurd hjob (hcall job)

end Api

/-! ## On MongoDB and Redis -/

/-- The API on MongoDB and Redis. -/
def Service.deployedApi (s : Service) (redis : Redis.PresenceStore) (I : Infra) :
    System effects Api.Request ServerEnv Empty Api.Response Backends :=
  (s.deployment redis I).behind Api.gateway

namespace Api

/-- **When the API answers 500 on MongoDB and Redis**, as long as they can be
reached, and the bus and LiveKit as well: exactly when the request saves a report
for a room that has one. -/
theorem production_internal_error_iff (s : Service) (redis : Redis.PresenceStore) (I : Infra)
    (hset : ∀ d, 0 < d → 0 < redis.setTTL d) (hlive : 0 < s.cfg.listenerSessionTimeout)
    (ms : List (Move Request ServerEnv))
    (q : Pool effects Request ServerEnv Empty Response Backends)
    (h : (s.deployedApi redis I.reliable).run ms = some q) (i : ℕ) (r : Request)
    (b : Response) (hi : q.threads[i]? = some ⟨r, .ret b⟩) :
    b.status = 500 ↔ ∃ newer e older report, q.trace = newer ++ e :: older ∧ e.thread = i ∧
      e.exchange.call = .store (.saveReport report) ∧ ReportSaved older report.roomID := by
  have hfailed : ∀ {newer e older}, q.trace = newer ++ e :: older →
      (Internal (outcome e.exchange) ↔ ∃ report, e.exchange.call = .store (.saveReport report) ∧
        ReportSaved older report.roomID) := by
    intro newer e older ht
    obtain ⟨ms₁, q₁, next, b₁, hq₁, rfl, hpending, hx⟩ := System.run_made h ht
    obtain ⟨p₁, hp₁, hfronts⟩ := behind_run idle hq₁
    obtain ⟨t, hi', hserves⟩ := hfronts.thread hpending
    obtain ⟨cmd, next', -, rfl, -⟩ := hserves.calls
    have hsaved : ∀ roomID, ReportSaved q₁.trace roomID ↔ ReportSaved p₁.trace roomID :=
      fun roomID => passes_exists hfronts.trace (SavesReportOf roomID)
    simp only [hsaved]
    have hx : Backends.exec redis I.reliable e.env e.exchange.call p₁.state =
        some (e.exchange.answer, b₁) := by
      rw [hfronts.state]
      exact hx
    exact production_failed hset hlive hp₁ hi' hx
  rw [answered_internal (program_candid s) h hi]
  constructor
  · rintro ⟨x, hx, hinternal⟩
    obtain ⟨e, he, hthread, rfl⟩ := mem_threadHistory.mp hx
    obtain ⟨newer, older, ht⟩ := List.append_of_mem he
    obtain ⟨report, hcall, hsaved⟩ := (hfailed ht).mp hinternal
    exact ⟨newer, e, older, report, ht, hthread, hcall, hsaved⟩
  · rintro ⟨newer, e, older, report, ht, hthread, hcall, hsaved⟩
    refine ⟨e.exchange, mem_threadHistory.mpr ⟨e, by simp [ht], hthread, rfl⟩, ?_⟩
    exact (hfailed ht).mpr ⟨report, hcall, hsaved⟩

/-- The report of a room is asked for twice. -/
def askedTwice : List (Move Request ServerEnv) :=
  let inRoom := visiting [sampleRoom]
  let generate (requestID : String) : Request :=
    requestOf "owner" requestID (.generateReport sampleRoom (.decoded ⟨"", ""⟩))
  let requests : List (Request × List Env) :=
    [(requestOf "owner" "first" (.createRoom (.decoded ⟨"title", "", [], []⟩)),
        plain 1 ++ drawing 0 ++ drawing 1 ++ plain 1 ++ publishing 2),
     (generate "second", inRoom ++ plain 1 ++ drawing 3 ++ plain 2 ++ publishing 4),
     (generate "third",
        inRoom ++ plain 1 ++ drawing 5 ++ plain 1 ++
          visiting [newID prefixReport (sampleUlid 3)])]
  (requestMoves 0 requests).map fun
    | .start r => .start r
    | .call i env => .call i (served env)

theorem production_internal_error_iff_reports :
    ∃ q, (sampleService.deployedApi Redis.roundingStore (sampleInfra fun _ => true).reliable).run
        askedTwice = some q ∧
      ∃ newer e older, q.trace = newer ++ e :: older ∧ ∃ roomID, ReportSaved older roomID := by
  have hrun : ((sampleService.deployedApi Redis.roundingStore
      (sampleInfra fun _ => true).reliable).run askedTwice).any
        (fun q => (responseTo 2 q).any fun b => b.status = 500) = true := by decide +kernel
  obtain ⟨q, hq, hanswered⟩ := (Option.any_eq_true _ _).mp hrun
  obtain ⟨b, hb, hstatus⟩ := (Option.any_eq_true _ _).mp hanswered
  obtain ⟨r, hi⟩ := responseTo_eq_some hb
  obtain ⟨newer, e, older, report, ht, -, -, hsaved⟩ := (production_internal_error_iff _ _ _
    setTTL_pos sampleService_timeout _ q hq 2 r b hi).mp (of_decide_eq_true hstatus)
  exact ⟨q, hq, newer, e, older, ht, report.roomID, hsaved⟩

end Api

end WaveCast
