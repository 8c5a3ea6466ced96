import WaveCast.Registry
import WaveCast.Closings
import WaveCast.Expiry

/-!
# The jobs of a finished room

What the two handlers do to a world in which the room is stored and the actor
moderates it. `closeRoomSessions` leaves no active listener session of the room
(`closeRoomSessions_handles`), `generateRoomReport` stores a completed report
(`generateRoomReport_handles`), and neither takes back what the other did
(`Tidies`). So a worker may be handed the jobs in any order and more than once
(`consume_handles`).
-/

namespace WaveCast

open Interaction WaveCast.Action Program Service Async

/-- The worker hands the jobs to their handlers, one after the other. An error stops it. -/
def Registry.consume (r : Registry) (jobs : List Job) : Action Unit :=
  forEach jobs fun job => match r.handlers job.type with
    | some handler => handler job
    | none => fail (.external "handler not registered")

/-- A completed report of the room is stored. -/
def World.Reported (w : World) (roomID : String) : Prop :=
  ∃ report, w.store.reportsByRoom.lookup roomID = some report ∧ report.roomID = roomID ∧
    report.status = .completed

/-- All that may have happened to the sessions, the rooms and the room's report:
active listener sessions of the room have left. -/
structure Tidies (roomID : String) (w w' : World) : Prop where
  listed : ∀ k session, w.store.listenerSessions.lookup k = some session → session.OpenIn roomID →
    w'.store.listenerSessions.lookup k = some session ∨
      ∃ endedAt, w'.store.listenerSessions.lookup k = some (session.closed endedAt)
  kept : ∀ k, (∀ session, w.store.listenerSessions.lookup k = some session →
      ¬ session.OpenIn roomID) →
    w'.store.listenerSessions.lookup k = w.store.listenerSessions.lookup k
  rooms : w'.store.rooms = w.store.rooms
  reported : w.Reported roomID → w'.Reported roomID

/-- The jobs of the room were handled: those that close it have closed it, and
those that report on it have stored a report. -/
structure Consumed (json : Json) (roomID actorUserID : String) (jobs : List Job)
    (w w' : World) : Prop where
  tidies : Tidies roomID w w'
  closed : ∀ job ∈ jobs, Carries json job (closeSessionsJob roomID actorUserID) →
    w'.NoneOpen roomID
  reported : ∀ job ∈ jobs, Carries json job (generateReportJob roomID actorUserID) →
    w'.Reported roomID

/-- The actor moderates the room, and sessions are stored under their ids. -/
structure World.Hosts (w : World) (roomID actorUserID : String) : Prop where
  files : w.FilesSessions
  room : ∃ room, w.store.rooms.lookup roomID = some room ∧ room.id = roomID ∧
    room.Moderates actorUserID

section Tidies

variable {roomID actorUserID : String} {w w₁ w₂ : World}

theorem Tidies.refl (roomID : String) (w : World) : Tidies roomID w w :=
  ⟨fun _ _ hl _ => .inl hl, fun _ _ => rfl, rfl, id⟩

/-- A session that is not active stays as it is. -/
theorem Tidies.trans (h₁ : Tidies roomID w w₁) (h₂ : Tidies roomID w₁ w₂) :
    Tidies roomID w w₂ := by
  refine ⟨fun k session hl hopen => ?_, fun k hk => ?_, h₂.rooms.trans h₁.rooms,
    fun hr => h₂.reported (h₁.reported hr)⟩
  · rcases h₁.listed k session hl hopen with hsame | ⟨endedAt, hended⟩
    · exact h₂.listed k session hsame hopen
    · refine .inr ⟨endedAt, (h₂.kept k fun session' hl' hopen' => ?_).trans hended⟩
      cases hended.symm.trans hl'
      cases hopen'.2
  · have hsame := h₁.kept k hk
    rw [h₂.kept k, hsame]
    rwa [hsame]

theorem Tidies.noneOpen (h : Tidies roomID w w₁) (hnone : w.NoneOpen roomID) :
    w₁.NoneOpen roomID := by
  intro k session hl
  rw [h.kept k (hnone k)] at hl
  exact hnone k session hl

theorem Tidies.hosts (h : Tidies roomID w w₁) (hw : w.Hosts roomID actorUserID) :
    w₁.Hosts roomID actorUserID := by
  refine ⟨fun k session hl => ?_, by rw [h.rooms]; exact hw.room⟩
  by_cases hopen : ∃ session₀, w.store.listenerSessions.lookup k = some session₀ ∧
      session₀.OpenIn roomID
  · obtain ⟨session₀, hl₀, hopen⟩ := hopen
    have hid := hw.files k session₀ hl₀
    rcases h.listed k session₀ hl₀ hopen with hl' | ⟨endedAt, hl'⟩ <;>
      cases hl'.symm.trans hl <;> exact hid
  · rw [h.kept k fun session₀ hl₀ ho => hopen ⟨session₀, hl₀, ho⟩] at hl
    exact hw.files k session hl

theorem Consumed.concat {json : Json} {job : Job} {done : List Job}
    (h : Consumed json roomID actorUserID done w w₁) (ht : Tidies roomID w₁ w₂)
    (hclosed : Carries json job (closeSessionsJob roomID actorUserID) → w₂.NoneOpen roomID)
    (hreported : Carries json job (generateReportJob roomID actorUserID) → w₂.Reported roomID) :
    Consumed json roomID actorUserID (done ++ [job]) w w₂ := by
  refine ⟨h.tidies.trans ht, fun job' hmem hc => ?_, fun job' hmem hc => ?_⟩
  · rcases List.mem_append.mp hmem with hdone | hnew
    · exact ht.noneOpen (h.closed job' hdone hc)
    · exact hclosed (List.mem_singleton.mp hnew ▸ hc)
  · rcases List.mem_append.mp hmem with hdone | hnew
    · exact ht.reported (h.reported job' hdone hc)
    · exact hreported (List.mem_singleton.mp hnew ▸ hc)

end Tidies

/-! ## The protocol of the handlers -/

/-- The ULIDs that were drawn. -/
def draws (h : List VoiceExchange) : ℕ :=
  h.countP fun x => match x.call with
    | .newID _ => true
    | _ => false

/-- The clock, the ids, the stores, the presence and the bus. -/
def Effect.Basic : Effect → Prop
  | .now | .newID _ | .store _ | .presence _ | .publish _ => True
  | _ => False

/-- The stores, the presence and the bus do not fail. -/
structure Infra.Serves (I : Infra) : Prop where
  keepsStore : I.KeepsStore
  keepsPresence : I.KeepsPresence
  keepsBus : ∀ event, I.mayFail (.publish event) = false

theorem Infra.reliable_not_fails (I : Infra) : ¬ I.reliable.Fails := fun ⟨_, hf⟩ => nomatch hf

theorem World.exec_basic {I : Infra} (hI : I.Serves) (env : Env) (e : Effect) (w : World)
    (he : e.Basic) : World.exec I env e w = World.exec I.reliable env e w := by
  cases e with
  | now | newID pfx => cases env.fails <;> simp [World.exec, World.failure, World.perform]
  | store c => simp [World.exec, World.perform, Infra.reliable, hI.keepsStore c]
  | presence c => simp [World.exec, World.perform, Infra.reliable, hI.keepsPresence c]
  | publish event => simp [World.exec, World.perform, Infra.reliable, hI.keepsBus event]
  | _ => exact he.elim

/-- The protocol of a handler: it makes basic calls, and draws at most two ULIDs. -/
def HandlerAsks (h : List VoiceExchange) (e : Effect) : Prop :=
  e.Basic ∧ ((∃ pfx, e = .newID pfx) → draws h < 2)

section Protocol

variable {h : List VoiceExchange} {json : Json} {roomID actorUserID : String} {job : Job}

@[simp] theorem draws_nil : draws [] = 0 := rfl
@[simp] theorem draws_newID (pfx id : String) :
    draws (⟨.newID pfx, id⟩ :: h) = draws h + 1 := by simp [draws]
@[simp] theorem draws_store (c : StoreCall) (a : Except AppError c.Result) :
    draws (⟨.store c, a⟩ :: h) = draws h := by simp [draws]
@[simp] theorem draws_now (t : Time) : draws (⟨.now, t⟩ :: h) = draws h := by simp [draws]

theorem Carries.handler_closes (hjob : Carries json job (closeSessionsJob roomID actorUserID))
    (r : Registry) : r.handlers job.type = some r.closeRoomSessions :=
  hjob.type_eq ▸ r.handlers_closeRoomSessions

theorem Carries.handler_reports (hjob : Carries json job (generateReportJob roomID actorUserID))
    (r : Registry) : r.handlers job.type = some r.generateRoomReport :=
  hjob.type_eq ▸ r.handlers_generateRoomReport

theorem generateReport_handlerAsks (c : GenerateReportCommand) (hh : draws h = 0) :
    Follows (S := effects) HandlerAsks anyResult h
      ((generateReport c).bind fun _ => .ret ()) := by
  simp [generateReport, publish, bind_assoc, follows_store, follows_require, follows_fresh,
    follows_now, follows_publishCall, HandlerAsks, Effect.Basic, hh]

theorem closeRoomSessions_handlerAsks (r : Registry) (job : Job) :
    Follows (S := effects) HandlerAsks anyResult [] (r.closeRoomSessions job) := by
  simp only [Registry.closeRoomSessions, Service.closeRoomSessions, bind_eq, follows_ofExcept,
    follows_now, follows_store]
  refine ⟨fun payload _ => ⟨by simp [HandlerAsks, Effect.Basic], fun t =>
    ⟨by simp [HandlerAsks, Effect.Basic], fun sessions => ?_, fun _ => trivial⟩⟩,
    fun _ _ => trivial⟩
  refine follows_forEach (fun _ => True) _ trivial (fun session _ h _ => ?_) fun _ _ => trivial
  rw [presenceDo]
  cases r.service.hasPresence <;>
    simp [present, bind_assoc, follows_store, follows_ask, follows_ofExcept, HandlerAsks,
      Effect.Basic]

theorem generateRoomReport_handlerAsks (r : Registry) (job : Job) :
    Follows (S := effects) HandlerAsks anyResult [] (r.generateRoomReport job) := by
  simp only [Registry.generateRoomReport, bind_eq, follows_ofExcept]
  refine ⟨fun payload _ => ?_, fun _ _ => trivial⟩
  split
  · simp only [getRoom, pure_eq, ret_bind, follows_store]
    exact ⟨by simp [HandlerAsks, Effect.Basic],
      fun room => generateReport_handlerAsks _ (by simp), fun _ => trivial⟩
  · exact generateReport_handlerAsks _ (by simp)

/-- The jobs are handled as `HandlerAsks` says. -/
theorem exists_handler (r : Registry)
    (hjob : Carries json job (closeSessionsJob roomID actorUserID) ∨
      Carries json job (generateReportJob roomID actorUserID)) :
    ∃ handler, r.handlers job.type = some handler ∧
      Follows (S := effects) HandlerAsks anyResult [] (handler job) := by
  rcases hjob with hc | hc
  · exact ⟨_, hc.handler_closes r, closeRoomSessions_handlerAsks r job⟩
  · exact ⟨_, hc.handler_reports r, generateRoomReport_handlerAsks r job⟩

end Protocol

/-! ## What the handlers do -/

section Handlers

variable {I : Infra} {α : Type} {s : Service} {w w' : World} {h : List VoiceExchange}
  {Q : List VoiceExchange → Except AppError α → World → Prop}

/-- Where nothing fails, a method that reads answers as the memory store does. -/
theorem ensures_answer (hI : ¬ I.Fails) {c : StoreCall} (hc : c.IsRead) {f : c.Result → Action α}
    {P : c.Result → Prop}
    (hanswer : ∀ now order order' a st, w.store.step now order order' c = some (a, st) →
      ∃ x, a = .ok x ∧ P x)
    (hok : ∀ x h, P x → Ensures (S := effects) (World.exec I) Q h w (f x)) :
    Ensures (S := effects) (World.exec I) Q h w
      (Program.bind (α := no_index c.Result) (store c) f) := by
  rw [store, bind_assoc]
  refine ensures_askRead hc fun env a h hx => ?_
  have hperform := World.exec_performs (by simpa [Infra.Fails] using fun hf => hI ⟨_, hf⟩) hx
  obtain ⟨⟨a', st⟩, hs, he⟩ := Option.map_eq_some_iff.mp hperform
  obtain rfl := (Prod.mk.inj he).1
  obtain ⟨x, rfl, hP⟩ := hanswer _ _ _ _ _ hs
  exact hok x h hP

/-- `GenerateReport` by a moderator stores a completed report. -/
theorem generateReport_stores (hI : ¬ I.Fails) {c : GenerateReportCommand} {room : Room}
    (hl : w.store.rooms.lookup c.roomID = some room) (hid : room.id = c.roomID)
    (hm : room.Moderates c.actorUserID) :
    Ensures (S := effects) (World.exec I) (Yields False fun _ w' => w.SameSessions w' ∧
        w'.store.rooms = w.store.rooms ∧ w'.Reported c.roomID) h w (generateReport c) := by
  simp only [generateReport, bind_eq, pure_eq]
  refine ensures_answer hI (c := .getRoom c.roomID) trivial (P := (room = ·)) ?_ ?_
  · rintro now order order' a st hs
    cases hs
    exact ⟨room, by rw [hl]; rfl, rfl⟩
  rintro _ h rfl
  rw [(Room.canModerate_iff _ _).mpr hm]
  refine ensures_answer hI (c := .reportStats _) trivial (P := fun _ => True) ?_ ?_
  · intro now order order' a st hs
    obtain ⟨listeners, -, hs⟩ := Option.bind_eq_some_iff.mp hs
    obtain ⟨participants, -, he⟩ := Option.map_eq_some_iff.mp hs
    cases he
    exact ⟨_, rfl, trivial⟩
  intro stats h _
  refine ensures_fresh fun u h _ => ensures_now fun t h => ?_
  refine ensures_write id (fun _ h => ?_) fun hf => absurd ⟨_, hf⟩ hI
  rw [ensures_bind]
  refine publish_logs.mono ?_
  rintro h' (e | a) w' hr
  · exact hI hr
  · obtain ⟨u', t', rfl⟩ := hr
    refine ⟨⟨rfl, rfl, rfl⟩, rfl, newReport room stats (newID prefixReport u) t, ?_, hid, rfl⟩
    rw [← hid]
    exact Finmap.lookup_insert _

variable {r : Registry} {json : Json} {roomID actorUserID : String} {job : Job} {jobs : List Job}

/-- **`closeRoomSessions`** returns nil and leaves no active listener session of the room. -/
theorem closeRoomSessions_handles (hI : ¬ I.Fails) (hjson : r.json.RoundTrips)
    (hjob : Carries r.json job (closeSessionsJob roomID actorUserID))
    (hw : w.Hosts roomID actorUserID) :
    Ensures (S := effects) (World.exec I) (Yields False fun _ w' => Tidies roomID w w' ∧
        w'.NoneOpen roomID) h w (r.closeRoomSessions job) := by
  simp only [Registry.closeRoomSessions, decodePayload_eq hjson hjob, ofExcept_ok, bind_eq,
    ret_bind]
  refine ensures_now fun endedAt h => ?_
  refine (closeRoomSessions_ends hw.files roomID endedAt _).mono ?_
  rintro h' (e | a) w' hr
  · exact hI hr
  · obtain ⟨sessions, hsel, hsteps⟩ := hr
    have hsaves : Steps (fun x => Saves (x.closed endedAt)) sessions w w' :=
      hsteps.mono fun x w w' hw' => hw' ▸ (w.round_ended r.service _).saves
    have hsome := closesSome_of_steps hw.files ((List.append_nil sessions).symm ▸ hsel) hsaves
    have hsame : w'.store.rooms = w.store.rooms ∧
        w'.store.reportsByRoom = w.store.reportsByRoom :=
      hsteps.invariant (T := fun w' => w'.store.rooms = w.store.rooms ∧
        w'.store.reportsByRoom = w.store.reportsByRoom)
        (fun x _ w₁ w₂ hw₂ hw₁ => hw₂ ▸ hw₁) ⟨rfl, rfl⟩
    refine ⟨⟨fun k session hl hopen => ?_, hsome.kept, hsame.1, fun hr => ?_⟩,
      noneOpen_of_steps hw.files hsel hsaves⟩
    · exact (hsome.listed k session hl hopen).imp_right fun hl' => ⟨endedAt, hl'⟩
    · rw [World.Reported, hsame.2]
      exact hr

/-- **`generateRoomReport`** returns nil and stores a completed report of the room. -/
theorem generateRoomReport_handles (hI : ¬ I.Fails) (hjson : r.json.RoundTrips)
    (hjob : Carries r.json job (generateReportJob roomID actorUserID))
    (hw : w.Hosts roomID actorUserID) :
    Ensures (S := effects) (World.exec I) (Yields False fun _ w' => Tidies roomID w w' ∧
        w'.Reported roomID) h w (r.generateRoomReport job) := by
  obtain ⟨room, hl, hid, hm⟩ := hw.room
  have hactor : actorUserID ≠ "" := hm.1
  simp only [Registry.generateRoomReport, decodePayload_eq hjson hjob, ofExcept_ok, bind_eq,
    ret_bind, generateReportJob, hactor, ↓reduceIte, pure_eq]
  rw [ensures_bind]
  refine (generateReport_stores (c := ⟨roomID, actorUserID, job.idempotencyKey⟩) hI hl hid hm).mono
    ?_
  rintro h' (e | a) w' hr
  · exact hr
  · obtain ⟨hsame, hrooms, hreported⟩ := hr
    refine ⟨⟨fun k session hl _ => .inl ?_, fun k _ => ?_, hrooms, fun _ => hreported⟩, hreported⟩
    · rw [hsame.listenerSessions]
      exact hl
    · rw [hsame.listenerSessions]

theorem jobTypes_ne : jobCloseRoomSessions ≠ jobGenerateRoomReport := by decide

/-- A handler ends in the same way where nothing fails and where its calls do not fail. -/
theorem ensures_serves (hI : I.Serves) {p : Action Unit} {Q : List VoiceExchange →
      Except AppError Unit → World → Prop}
    (hasks : Follows (S := effects) HandlerAsks anyResult [] p)
    (hp : Ensures (S := effects) (World.exec I.reliable) Q h w p) :
    Ensures (S := effects) (World.exec I) Q h w p :=
  hp.congr (P := Effect.Basic) (World.exec_basic hI)
    (hasks.mono (fun _ _ ha => ha.1) fun _ _ hr => hr)

/-- **The jobs are handled**, in any order and any number of times. -/
theorem consume_handles (hI : I.Serves) (hjson : r.json.RoundTrips)
    (hjobs : ∀ job ∈ jobs, Carries r.json job (closeSessionsJob roomID actorUserID) ∨
      Carries r.json job (generateReportJob roomID actorUserID))
    (hw : w.Hosts roomID actorUserID) :
    Ensures (S := effects) (World.exec I)
      (Yields False fun _ w' => Consumed r.json roomID actorUserID jobs w w') h w
      (r.consume jobs) := by
  refine ensures_forEach (fun done _ w' => Consumed r.json roomID actorUserID done w w') [] h w
    ⟨.refl roomID w, by simp, by simp⟩ ?_ fun _ _ hconsumed => hconsumed
  intro done job rest hsplit h₁ w₁ hdone
  have hw₁ := hdone.tidies.hosts hw
  -- the two requests have different types, so the job carries one of them only
  rcases hjobs job (by simp [hsplit]) with hc | hc
  · simp only [hc.handler_closes r]
    refine ensures_serves hI (closeRoomSessions_handlerAsks r job) ?_
    refine (closeRoomSessions_handles I.reliable_not_fails hjson hc hw₁).mono ?_
    rintro h₂ (e | a) w₂ hr
    · exact hr
    · refine hdone.concat hr.1 (fun _ => hr.2) fun hc' => ?_
      exact absurd (hc.type_eq.symm.trans hc'.type_eq) jobTypes_ne
  · simp only [hc.handler_reports r]
    refine ensures_serves hI (generateRoomReport_handlerAsks r job) ?_
    refine (generateRoomReport_handles I.reliable_not_fails hjson hc hw₁).mono ?_
    rintro h₂ (e | a) w₂ hr
    · exact hr
    · refine hdone.concat hr.1 (fun hc' => ?_) fun _ => hr.2
      exact absurd (hc'.type_eq.symm.trans hc.type_eq) jobTypes_ne

end Handlers

/-! ## Handling can end -/

section Progress

variable {I : Infra} {α : Type} {w : World} {h : List VoiceExchange} {n : ℕ} {r : Registry}

/-- **Progress**: a handler can end, given two ULIDs. -/
theorem may_of_asks {p : Action α}
    (hp : Follows (S := effects) HandlerAsks anyResult h p) (hk : draws h ≤ 2)
    (hw : w.HasFresh (n + (2 - draws h))) :
    May (S := effects) (World.exec I) (fun _ w' => w'.HasFresh n) w p := by
  induction p generalizing h w with
  | ret a => exact hw.mono (by omega)
  | fail e => exact hw.mono (by omega)
  | call c next ih =>
    by_cases hc : ∃ pfx, c = .newID pfx
    · have hlt := hp.1.2 hc
      obtain ⟨pfx, rfl⟩ := hc
      obtain ⟨m, hm⟩ : ∃ m, 2 - draws h = m + 1 := ⟨2 - draws h - 1, by omega⟩
      rw [hm, ← Nat.add_assoc] at hw
      obtain ⟨u, hu, hleft⟩ := hw.draw
      have hdraws : draws (⟨.newID pfx, newID pfx u⟩ :: h) = draws h + 1 := by simp [draws]
      refine ⟨⟨0, u, [], [], false⟩, newID pfx u, { w with issued := u :: w.issued },
        by simp [World.exec, World.perform, hu], ih _ (hp.2 _) (by omega) ?_⟩
      rw [hdraws, show 2 - (draws h + 1) = m by omega]
      exact hleft _ rfl
    · obtain ⟨env, a, w', hx⟩ := World.exists_exec I c w fun pfx he => hc ⟨pfx, he⟩
      have hdraws : draws (⟨c, a⟩ :: h) = draws h := by
        cases c <;> simp [draws] at hc ⊢
      refine ⟨env, a, w', hx, ih a (hp.2 a) (by omega) ?_⟩
      rw [hdraws]
      exact hw.of_issued_eq (World.exec_issued_eq (fun pfx he => hc ⟨pfx, he⟩) hx)

/-- Handling the jobs can end, given two ULIDs for each. -/
theorem consume_may {json : Json} {roomID actorUserID : String} {jobs : List Job}
    (hjobs : ∀ job ∈ jobs, Carries json job (closeSessionsJob roomID actorUserID) ∨
      Carries json job (generateReportJob roomID actorUserID))
    (hw : w.HasFresh (2 * jobs.length)) :
    May (S := effects) (World.exec I) (fun _ _ => True) w (r.consume jobs) := by
  refine may_forEach (fun rest (w : World) => w.HasFresh (2 * rest.length) ∧ ∀ job ∈ rest,
      Carries json job (closeSessionsJob roomID actorUserID) ∨
      Carries json job (generateReportJob roomID actorUserID)) ⟨hw, hjobs⟩ ?_ fun _ _ => trivial
  rintro job rest w ⟨hw, hjobs⟩
  have hmay : ∀ p : Action Unit, Follows (S := effects) HandlerAsks anyResult [] p →
      May (S := effects) (World.exec I) (fun _ w' => w'.HasFresh (2 * rest.length)) w p :=
    fun p hp => may_of_asks hp (by simp) hw
  obtain ⟨handler, hhandler, hasks⟩ := exists_handler r (hjobs job (by simp))
  simp only [hhandler]
  refine (hmay _ hasks).mono ?_
  rintro (e | a) w' hw'
  · trivial
  · exact ⟨hw', fun job hjob => hjobs job (by simp [hjob])⟩

end Progress

end WaveCast
