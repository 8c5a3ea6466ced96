import WaveCast.LostUpdates
import WaveCast.Sequential

/-!
# Finishing a room

`FinishRoom` saves the room, publishes an event and enqueues the jobs that
clean the room up, in this order. A sequential run in which only the bus can
fail leaves every finished room cleaned up, or to be cleaned up by finishing it
again, iff the bus never fails while a room is finished
(`finish_cleans_up_iff`).
-/

namespace WaveCast

open Interaction

variable {s : Service} {I : Infra}

/-- The jobs a call put into the queue. -/
def enqueued : VoiceExchange → List JobRequest
  | ⟨.enqueue job, .ok _⟩ => [job]
  | _ => []

theorem World.exec_queue {env : Env} {e : Effect} {a : e.Answer} {w w' : World}
    (h : World.exec I env e w = some (a, w')) : w'.queue = w.queue ++ enqueued ⟨e, a⟩ := by
  rcases World.exec_cases h with ⟨-, -, hf, rfl⟩ | ⟨-, h⟩
  · cases e <;> simp only [World.failure, Option.some.injEq, reduceCtorEq] at hf <;>
      (subst hf; simp [enqueued])
  · cases e with
    | newID pfx =>
      simp only [World.perform] at h
      split at h
      · cases h
      · cases h; simp [enqueued]
    | store c =>
      obtain ⟨_, -, he⟩ := Option.map_eq_some_iff.mp h
      cases he; simp [enqueued]
    | _ => cases h; simp [enqueued]

theorem mem_queue {t : List VoiceEntry} {w w₀ : World} (h : (s.system I).ReplaysFrom w₀ t w)
    (job : JobRequest) :
    job ∈ w.queue ↔ job ∈ w₀.queue ∨ ∃ e ∈ t, e.exchange = ⟨.enqueue job, .ok ()⟩ := by
  induction t generalizing w with
  | nil => cases h; simp
  | cons e older ih =>
    obtain ⟨w₁, h₁, he⟩ := h
    rw [World.exec_queue he, List.mem_append, ih h₁]
    have hnew : job ∈ enqueued e.exchange ↔ e.exchange = ⟨.enqueue job, .ok ()⟩ := by
      unfold enqueued
      split
      · rename_i job' _ heq
        rw [heq, List.mem_singleton]
        exact ⟨fun h => h ▸ rfl, fun h => by cases h; rfl⟩
      · rename_i hno
        simp only [List.not_mem_nil, false_iff]
        exact hno job ()
    simp only [List.mem_cons, exists_eq_or_imp]
    rw [show (⟨e.exchange.call, e.exchange.answer⟩ : VoiceExchange) = e.exchange from rfl, hnew]
    exact or_assoc.trans (or_congr_right or_comm)

/-- Only the bus can fail. -/
def OnlyBusFails (I : Infra) : Prop :=
  ∀ e, I.mayFail e = true → ∃ event, e = .publish event

/-- Both jobs that clean the room up are in the queue. -/
def CleanedUp (w : World) (roomID : String) : Prop :=
  (∃ actor, closeSessionsJob roomID actor ∈ w.queue) ∧
    ∃ actor, generateReportJob roomID actor ∈ w.queue

/-- Every finished room is cleaned up, or will be when whoever finished it
finishes it again and nothing fails. -/
def FinishCleansUp (s : Service) (I : Infra) (p : VoicePool) : Prop :=
  ∀ roomID room, p.state.store.rooms.lookup roomID = some room → room.status = .finished →
    CleanedUp p.state roomID ∨
    ∃ c envs q, c.roomID = roomID ∧ c.actorUserID = room.endedBy ∧
      (∀ env ∈ envs, env.fails = false) ∧
      (s.system I).perform (.finishRoom c, envs) p = some q ∧ CleanedUp q.state roomID

/-- The bus accepts every event that `FinishRoom` publishes. -/
def NoFinishLost (t : List VoiceEntry) : Prop :=
  ∀ e ∈ t, ∀ c event, e.cmd = .finishRoom c → e.exchange.call = .publish event →
    e.env.fails = false

section Step

variable {p q : VoicePool} {cmd : Command} {envs : List Env}
  {o : System.Outcome (s.system I) p (cmd, envs) q}

/-- A room that was there before a command is there after it, and still
finished if it was. -/
theorem finished_kept (r : CommandRun s I p q (cmd, envs) o) {k : String} {room : Room}
    (hp : p.state.store.rooms.lookup k = some room) (hf : room.status = .finished) :
    ∃ room', q.state.store.rooms.lookup k = some room' ∧ room'.status = .finished := by
  have hview := o.view_eq (fun t w hw k => lookup_rooms hw k) r.replays_before r.replays_after k
  rw [hp] at hview
  cases hq : q.state.store.rooms.lookup k with
  | none =>
    rw [hq] at hview
    cases hw : lastWrite roomSaves k o.entries <;> simp [hw] at hview
  | some room' =>
    refine ⟨room', rfl, ?_⟩
    rcases r.room_cases hq with ⟨hnone, -⟩ | ⟨room₀, hp', hch, -⟩ | hp'
    · rw [hp] at hnone; cases hnone
    · rw [hp] at hp'
      cases hp'
      exact hch.status_finished hf
    · rw [hp] at hp'
      cases hp'
      exact hf

/-- `FinishRoom` saves the room it was given as finished, which was not
finished before. -/
theorem finish_saves (r : CommandRun s I p q (cmd, envs) o) {c : FinishRoomCommand}
    (hcmd : cmd = .finishRoom c) {room : Room}
    (hsave : ⟨.store (.saveRoom room), .ok ()⟩ ∈ o.history) :
    room.id = c.roomID ∧ room.status = .finished ∧
      ∃ room₀, p.state.store.rooms.lookup c.roomID = some room₀ ∧ room₀.status ≠ .finished := by
  subst hcmd
  obtain ⟨e, he, hx⟩ := List.mem_map.mp hsave
  obtain ⟨newer, older, ht⟩ := List.append_of_mem he
  have hsaves := r.asks_at ht
  rw [hx] at hsaves
  obtain ⟨t, room₀, hh, -, hst, rfl⟩ := hsaves
  have ht' : o.entries = (newer ++ [e]) ++ older := by simp [ht]
  have hroom := r.room_read ht' c.roomID room₀ (by simp [hh]) (by simp [hh, savedRoom])
  refine ⟨(r.room_id hroom : room₀.id = c.roomID), rfl, room₀, hroom, ?_⟩
  rcases hst with hst | hst <;> simp [hst]

/-- After `FinishRoom` has saved the room, the room is stored as finished. -/
theorem finish_stored (r : CommandRun s I p q (cmd, envs) o) {c : FinishRoomCommand}
    (hcmd : cmd = .finishRoom c) {room : Room}
    (hsave : ⟨.store (.saveRoom room), .ok ()⟩ ∈ o.history) :
    ∃ room', q.state.store.rooms.lookup c.roomID = some room' ∧ room'.status = .finished := by
  obtain ⟨e, he, hx⟩ := List.mem_map.mp hsave
  have hid := (finish_saves r hcmd hsave).1
  have hwrite : lastWrite roomSaves c.roomID o.entries ≠ none := by
    intro hnone
    exact lastWrite_eq_none.mp hnone e he room (savedRoom_eq_some.mpr ⟨hx, hid.symm⟩)
  obtain ⟨room', hlast⟩ := Option.ne_none_iff_exists'.mp hwrite
  have hview := o.view_eq (fun t w hw k => lookup_rooms hw k) r.replays_before r.replays_after
    c.roomID
  rw [hlast] at hview
  refine ⟨room', hview, ?_⟩
  obtain ⟨e', he', hw'⟩ := exists_write_of_lastWrite hlast
  have hsave' : ⟨.store (.saveRoom room'), .ok ()⟩ ∈ o.history := by
    rw [← (savedRoom_eq_some.mp hw').1]
    exact List.mem_map_of_mem he'
  exact (finish_saves r hcmd hsave').2.1

/-- A job that cleans a room up is older than the command, or the command has
just finished the room. -/
theorem job_cases (r : CommandRun s I p q (cmd, envs) o) {roomID actor : String}
    (h : closeSessionsJob roomID actor ∈ q.state.queue) :
    closeSessionsJob roomID actor ∈ p.state.queue ∨
    ∃ c room, cmd = .finishRoom c ∧ c.roomID = roomID ∧
      ⟨.store (.saveRoom room), .ok ()⟩ ∈ o.history := by
  rcases (mem_queue o.replays _).mp h with hold | ⟨e, he, hx⟩
  · exact .inl hold
  · obtain ⟨newer, older, ht⟩ := List.append_of_mem he
    have hjob := r.asks_at ht
    rw [hx] at hjob
    cases cmd with
    | finishRoom c =>
      obtain ⟨t, room₀, -, -, hsave, heq⟩ := hjob
      have hsave' : ⟨.store (.saveRoom (finishedRoom room₀ c t)), .ok ()⟩ ∈ o.history := by
        obtain ⟨f, hf, hfx⟩ := List.mem_map.mp hsave
        exact List.mem_map.mpr ⟨f, by simp [ht, hf], hfx⟩
      have hid : room₀.id = c.roomID := (finish_saves r rfl hsave').1
      have hroomID : room₀.id = roomID := by
        rcases heq with heq | heq
        · exact (congrArg (fun j : JobRequest => j.payload.roomID) heq).symm
        · exact (congrArg (fun j : JobRequest => j.payload.roomID) heq).symm
      exact .inr ⟨c, _, rfl, hid.symm.trans hroomID, hsave'⟩
    | _ => cases hjob

end Step

/-- Only finished rooms are cleaned up. -/
def OnlyFinishedCleaned (p : VoicePool) : Prop :=
  ∀ roomID actor, closeSessionsJob roomID actor ∈ p.state.queue →
    ∃ room, p.state.store.rooms.lookup roomID = some room ∧ room.status = .finished

theorem onlyFinishedCleaned_step {p q : VoicePool} {cmd : Command} {envs : List Env}
    {o : System.Outcome (s.system I) p (cmd, envs) q} (r : CommandRun s I p q (cmd, envs) o)
    (hp : OnlyFinishedCleaned p) : OnlyFinishedCleaned q := by
  intro roomID actor hjob
  rcases job_cases r hjob with hold | ⟨c, room, hcmd, rfl, hsave⟩
  · obtain ⟨room, hroom, hf⟩ := hp roomID actor hold
    exact finished_kept r hroom hf
  · exact finish_stored r hcmd hsave

theorem only_finished_cleaned {jobs : List VoiceJob} {p : VoicePool}
    (h : (s.system I).serial jobs = some p) : OnlyFinishedCleaned p := by
  have hok : (s.system I).SerialOk (fun _ _ => True) jobs := fun _ _ _ _ _ _ => trivial
  refine System.serial_induction (I := OnlyFinishedCleaned) ?_ ?_ hok h
  · intro roomID actor hjob
    cases hjob
  · rintro pre p ⟨cmd, envs⟩ q hp hinv - hq
    obtain ⟨o, r⟩ := exists_commandRun hp hq
    exact onlyFinishedCleaned_step r hinv

/-- Every finished room is cleaned up. -/
def FinishedCleaned (p : VoicePool) : Prop :=
  ∀ roomID room, p.state.store.rooms.lookup roomID = some room → room.status = .finished →
    CleanedUp p.state roomID

section Step

variable {p q : VoicePool} {cmd : Command} {envs : List Env}
  {o : System.Outcome (s.system I) p (cmd, envs) q}

theorem CleanedUp.kept (o : System.Outcome (s.system I) p (cmd, envs) q) {roomID : String}
    (h : CleanedUp p.state roomID) : CleanedUp q.state roomID := by
  obtain ⟨⟨actor, h₁⟩, actor', h₂⟩ := h
  exact ⟨⟨actor, (mem_queue o.replays _).mpr (.inl h₁)⟩,
    actor', (mem_queue o.replays _).mpr (.inl h₂)⟩

/-- Where only the bus fails, a job that is enqueued gets into the queue. -/
theorem enqueue_accepted (hI : OnlyBusFails I) {job : JobRequest} {a : Except AppError Unit}
    (h : ⟨.enqueue job, a⟩ ∈ o.history) : job ∈ q.state.queue := by
  obtain ⟨⟨i, c, env, x⟩, he, rfl⟩ := List.mem_map.mp h
  obtain ⟨w, w', hx⟩ := o.replays.executed he
  have ha : a = .ok () := by
    rcases World.exec_cases hx with ⟨-, hmay, -⟩ | ⟨-, hx⟩
    · obtain ⟨event, hev⟩ := hI _ hmay
      cases hev
    · cases hx
      rfl
  subst ha
  exact (mem_queue o.replays _).mpr (.inr ⟨_, he, rfl⟩)

/-- Where only the bus fails, an event is lost where the bus fails. -/
theorem bus_fails_of_publishFailed (hI : OnlyBusFails I) (h : PublishFailed o.history) :
    ∃ e ∈ o.entries, (∃ event, e.exchange.call = .publish event) ∧ e.env.fails = true := by
  obtain ⟨event, err, hmem⟩ := h
  rcases hmem with hmem | hmem
  · obtain ⟨⟨i, c, env, x⟩, he, rfl⟩ := List.mem_map.mp hmem
    obtain ⟨w, w', hx⟩ := o.replays.executed he
    rcases World.exec_cases hx with ⟨-, hmay, -⟩ | ⟨-, hx⟩
    · obtain ⟨event', hev⟩ := hI _ hmay
      cases hev
    · cases hx
  · obtain ⟨⟨i, c, env, x⟩, he, rfl⟩ := List.mem_map.mp hmem
    obtain ⟨w, w', hx⟩ := o.replays.executed he
    rcases World.exec_cases hx with ⟨hf, -⟩ | ⟨-, hx⟩
    · exact ⟨_, he, ⟨event, rfl⟩, hf⟩
    · cases hx

theorem finishedCleaned_step (hs : s.hasJobQueue = true) (hI : OnlyBusFails I)
    (r : CommandRun s I p q (cmd, envs) o) (hok : NoFinishLost o.entries)
    (hp : FinishedCleaned p) : FinishedCleaned q := by
  intro roomID room hroom hf
  rcases r.room_cases hroom with ⟨-, -, -, hdraft⟩ | ⟨room₀, hroom₀, hch, hsave⟩ | hkept
  · rw [hf] at hdraft
    cases hdraft
  · rcases hch.finished hf with ⟨c, rfl, -⟩ | ⟨hf₀, -⟩
    · have hid : room.id = roomID := hch.id_eq.trans (r.room_id hroom₀)
      rcases r.returns.2 room hsave with ⟨hlost, -⟩ | ⟨-, hjobs⟩
      · obtain ⟨e, he, ⟨event, hcall⟩, hfails⟩ := bus_fails_of_publishFailed hI hlost
        rw [hok e he c event (o.own e he).2.1 hcall] at hfails
        cases hfails
      · obtain ⟨a, a', h₁, h₂⟩ := hjobs hs
        rw [hid] at h₁ h₂
        exact ⟨⟨_, enqueue_accepted hI h₁⟩, _, enqueue_accepted hI h₂⟩
    · exact (hp roomID room₀ hroom₀ hf₀).kept o
  · exact (hp roomID room hkept hf).kept o

/-- When the bus fails while a room is finished, the room is finished, but not
cleaned up, and finishing it again does not clean it up. -/
theorem not_finishCleansUp (r : CommandRun s I p q (cmd, envs) o) {pre : List VoiceJob}
    (hpre : (s.system I).serial (pre ++ [(cmd, envs)]) = some q) (hp : OnlyFinishedCleaned p)
    {e : VoiceEntry} (he : e ∈ o.entries) {c : FinishRoomCommand} {event : VoiceEvent}
    (hcmd : e.cmd = .finishRoom c) (hcall : e.exchange.call = .publish event)
    (hfails : e.env.fails = true) : ¬ FinishCleansUp s I q := by
  obtain ⟨i, cmd', env, ⟨call, a⟩⟩ := e
  obtain rfl : call = _ := hcall
  obtain rfl : cmd = .finishRoom c := (o.own _ he).2.1.symm.trans hcmd
  obtain ⟨w, w', hx⟩ := o.replays.executed he
  have ha : a = .error unavailable := by
    rcases World.exec_cases hx with ⟨-, -, hf, -⟩ | ⟨hf, -⟩
    · exact (Option.some.inj hf).symm
    · rw [hfails] at hf; cases hf
  subst ha
  have hlost : PublishFailed o.history := ⟨event, _, .inr (List.mem_map.mpr ⟨_, he, rfl⟩)⟩
  obtain ⟨room, hsave⟩ := r.returns.1 event _ (List.mem_map.mpr ⟨_, he, rfl⟩)
  have hnojob : ∀ job a, ⟨.enqueue job, a⟩ ∉ o.history := by
    rcases r.returns.2 room hsave with ⟨-, hno⟩ | ⟨hno, -⟩
    · exact hno
    · exact absurd hlost hno
  obtain ⟨-, -, room₀, hroom₀, hopen⟩ := finish_saves r rfl hsave
  obtain ⟨room', hroom', hf⟩ := finish_stored r rfl hsave
  -- the job is in no queue: it would be for a room that was finished before
  have hdirty : ∀ actor, closeSessionsJob c.roomID actor ∉ q.state.queue := by
    intro actor hjob
    rcases (mem_queue o.replays _).mp hjob with hold | ⟨f, hf', hfx⟩
    · obtain ⟨room₁, hroom₁, hf₁⟩ := hp _ actor hold
      rw [hroom₀] at hroom₁
      cases hroom₁
      exact hopen hf₁
    · have hmem : f.exchange ∈ o.history := List.mem_map_of_mem hf'
      rw [hfx] at hmem
      exact hnojob _ _ hmem
  intro hclean
  rcases hclean c.roomID room' hroom' hf with ⟨⟨actor, hjob⟩, -⟩ |
    ⟨c', envs', q', hc', -, -, hq', ⟨actor, hjob⟩, -⟩
  · exact hdirty actor hjob
  · obtain ⟨o', r'⟩ := exists_commandRun hpre hq'
    rcases job_cases r' hjob with hold | ⟨c'', room'', hc'', hid, hsave''⟩
    · exact hdirty actor hold
    · cases hc''
      obtain ⟨-, -, room₂, hroom₂, hopen₂⟩ := finish_saves r' rfl hsave''
      rw [hid, hroom'] at hroom₂
      cases hroom₂
      exact hopen₂ hf

end Step

/-- If the bus accepts every event of `FinishRoom`, every finished room is cleaned up. -/
theorem finished_cleaned (hs : s.hasJobQueue = true) (hI : OnlyBusFails I) {jobs : List VoiceJob}
    {p : VoicePool} (h : (s.system I).serial jobs = some p) (hok : NoFinishLost p.trace) :
    FinishedCleaned p := by
  induction jobs using List.reverseRecOn generalizing p with
  | nil =>
    cases h
    intro roomID room hroom
    cases hroom
  | append_singleton jobs job ih =>
    obtain ⟨cmd, envs⟩ := job
    obtain ⟨p₀, hp₀, hq⟩ := System.serial_concat.mp h
    obtain ⟨o, r⟩ := exists_commandRun hp₀ hq
    rw [o.trace_eq] at hok
    exact finishedCleaned_step hs hI r (fun e he => hok e (by simp [he]))
      (ih hp₀ fun e he => hok e (by simp [he]))

/-- If the bus fails while a room is finished, some state of the run is not
cleaned up. -/
theorem exists_not_cleaned {jobs : List VoiceJob} {p : VoicePool}
    (h : (s.system I).serial jobs = some p) (hlost : ¬ NoFinishLost p.trace) :
    ∃ pre post q, jobs = pre ++ post ∧ (s.system I).serial pre = some q ∧
      ¬ FinishCleansUp s I q := by
  induction jobs using List.reverseRecOn generalizing p with
  | nil =>
    cases h
    exact absurd (fun e he => by cases he) hlost
  | append_singleton jobs job ih =>
    have hserial := h
    obtain ⟨cmd, envs⟩ := job
    obtain ⟨p₀, hp₀, hq⟩ := System.serial_concat.mp h
    obtain ⟨o, r⟩ := exists_commandRun hp₀ hq
    by_cases hold : NoFinishLost p₀.trace
    · refine ⟨jobs ++ [(cmd, envs)], [], p, by simp, hserial, ?_⟩
      simp only [NoFinishLost, not_forall] at hlost
      obtain ⟨e, he, c, event, hcmd, hcall, hfails⟩ := hlost
      rw [o.trace_eq] at he
      rcases List.mem_append.mp he with hnew | hmem
      · exact not_finishCleansUp r hserial (only_finished_cleaned hp₀) hnew hcmd hcall
          (by simpa using hfails)
      · exact absurd (hold e hmem c event hcmd hcall) hfails
    · obtain ⟨pre, post, q, rfl, hq, hno⟩ := ih hp₀ hold
      exact ⟨pre, post ++ [(cmd, envs)], q, by simp, hq, hno⟩

/-- **Finishing cleans up** in every state of a sequential run in which only
the bus fails iff the bus accepts every event that `FinishRoom` publishes. -/
theorem finish_cleans_up_iff (s : Service) (I : Infra) (jobs : List VoiceJob) (p : VoicePool)
    (hs : s.hasJobQueue = true) (hI : OnlyBusFails I) (h : (s.system I).serial jobs = some p) :
    (∀ pre post q, jobs = pre ++ post → (s.system I).serial pre = some q →
      FinishCleansUp s I q) ↔ NoFinishLost p.trace := by
  constructor
  · intro hall
    by_contra hlost
    obtain ⟨pre, post, q, hsplit, hq, hno⟩ := exists_not_cleaned h hlost
    exact hno (hall pre post q hsplit hq)
  · rintro hok pre post q rfl hq roomID room hroom hf
    obtain ⟨newer, hn⟩ := System.serial_prefix h hq
    have hpre : NoFinishLost q.trace := fun e he => hok e (by simp [hn, he])
    exact .inl (finished_cleaned hs hI hq hpre roomID room hroom hf)

/-- The bus can fail, and nothing else. -/
def flakyBus : Infra :=
  sampleInfra fun e => match e with
    | .publish _ => true
    | _ => false

theorem flakyBus_onlyBusFails : OnlyBusFails flakyBus := by
  intro e he
  cases e with
  | publish event => exact ⟨event, rfl⟩
  | _ => cases he

/-- The owner finishes the room; the bus fails. -/
def lostFinish : List VoiceJob :=
  openRoom ++ [(.finishRoom ⟨sampleRoom, "owner", "over", ""⟩,
    plain 3 ++ drawing 4 ++ plain 2 ++ [failingEnv])]

/-- A call of the bus. -/
def asksBus : Effect → Bool
  | .publish _ => true
  | _ => false

theorem finish_cleans_up_fails :
    ¬ ∀ (s : Service) (I : Infra) (jobs : List VoiceJob) (p : VoicePool),
      s.hasJobQueue = true → OnlyBusFails I → (s.system I).serial jobs = some p →
      ∀ pre post q, jobs = pre ++ post → (s.system I).serial pre = some q →
        FinishCleansUp s I q := by
  intro hclaim
  have hrun : ((sampleService.system flakyBus).serial lostFinish).any
      (fun p => p.trace.any fun e => e.cmd = .finishRoom ⟨sampleRoom, "owner", "over", ""⟩ &&
        e.env.fails && asksBus e.exchange.call) = true := by
    decide +kernel
  obtain ⟨p, hp, hlost⟩ := (Option.any_eq_true _ _).mp hrun
  obtain ⟨e, he, hfacts⟩ := List.any_eq_true.mp hlost
  simp only [Bool.and_eq_true, decide_eq_true_eq] at hfacts
  obtain ⟨⟨hcmd, hfails⟩, hpublish⟩ := hfacts
  unfold asksBus at hpublish
  split at hpublish
  · rename_i event hcall
    have hno : ¬ NoFinishLost p.trace := fun hok => by
      rw [hok e he _ event hcmd hcall] at hfails
      cases hfails
    obtain ⟨pre, post, q, hsplit, hq, hdirty⟩ := exists_not_cleaned hp hno
    exact hdirty (hclaim _ _ _ p rfl flakyBus_onlyBusFails hp pre post q hsplit hq)
  · cases hpublish

/-- The owner finishes the room; nothing fails. -/
def orderlyFinish : List VoiceJob :=
  openRoom ++ [(.finishRoom ⟨sampleRoom, "owner", "over", ""⟩, plain 3 ++ publishing 4 ++ plain 2)]

/-- If `FinishRoom` publishes here, the event gets through. -/
def finishHeard (e : VoiceEntry) : Bool :=
  match e.cmd, e.exchange.call with
  | .finishRoom _, .publish _ => !e.env.fails
  | _, _ => true

theorem noFinishLost_of_heard {t : List VoiceEntry} (h : t.all finishHeard = true) :
    NoFinishLost t := by
  intro e he c event hcmd hcall
  have hheard := List.all_eq_true.mp h e he
  simpa [finishHeard, hcmd, hcall] using hheard

theorem finish_cleans_up_orderly :
    ∃ p, (sampleService.system flakyBus).serial orderlyFinish = some p ∧
      (p.state.store.rooms.lookup sampleRoom).any (·.status = .finished) = true ∧
      ∀ pre post q, orderlyFinish = pre ++ post →
        (sampleService.system flakyBus).serial pre = some q →
        FinishCleansUp sampleService flakyBus q := by
  have hrun : ((sampleService.system flakyBus).serial orderlyFinish).any (fun p =>
      (p.state.store.rooms.lookup sampleRoom).any (·.status = .finished) &&
        p.trace.all finishHeard) = true := by
    decide +kernel
  obtain ⟨p, hp, hfacts⟩ := (Option.any_eq_true _ _).mp hrun
  obtain ⟨hfinished, hheard⟩ := Bool.and_eq_true_iff.mp hfacts
  exact ⟨p, hp, hfinished, (finish_cleans_up_iff _ _ _ p rfl flakyBus_onlyBusFails hp).mpr
    (noFinishLost_of_heard hheard)⟩

end WaveCast
