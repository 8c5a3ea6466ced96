import WaveCast.Interaction.Simulation
import WaveCast.AuditLog
import WaveCast.RedisPresence
import WaveCast.StoresAgree
import WaveCast.WellFormed

/-!
# The service on MongoDB and Redis

What `newStore` and `newPresenceStore` of `cmd/api` and `cmd/worker` build when
both databases are configured: `Backends` in place of the in-process `World`.
Whatever interleaves and whatever fails, each run of this deployment is, move
by move, a run of the in-process one (`production_refines`): the memory store
can answer as the server does, and where the server rejects a second report of
a room, the memory store fails.

The refinement rests on what `MongoStore.step` assumes of `ReportStats`, that
its two queries see one state, and on what a deployment is configured with: a
listener session lives for some time, and Redis keeps a key with a time to live
for some time.
-/

namespace WaveCast

open Interaction Documents WaveCast.Action Program Service

/-! ## Answering as the server does -/

section Orders

variable {V : Type} {t : Table V} {ident : V → String}

/-- A loop over a map may visit its values in any order. -/
theorem Table.exists_range (hident : ∀ k v, t.lookup k = some v → ident v = k)
    {order : List String} {vs vs' : List V} (h : t.range order = some vs) (hp : vs'.Perm vs) :
    t.range (vs'.map ident) = some vs' := by
  have hmem : ∀ v, v ∈ vs' ↔ ∃ k, t.lookup k = some v := fun v =>
    hp.mem_iff.trans (Table.mem_range h v)
  have hlookup : ∀ v ∈ vs', t.lookup (ident v) = some v := by
    intro v hv
    obtain ⟨k, hk⟩ := (hmem v).mp hv
    rw [hident k v hk]
    exact hk
  have hnodup : (vs'.map ident).Nodup :=
    (hp.map ident).nodup_iff.mpr (Table.nodup_range hident h)
  have hkeys : (vs'.map ident).toFinset = t.keys := by
    ext k
    rw [List.mem_toFinset, List.mem_map, Finmap.mem_keys, Finmap.mem_iff]
    constructor
    · rintro ⟨v, hv, rfl⟩
      exact ⟨v, hlookup v hv⟩
    · rintro ⟨v, hv⟩
      exact ⟨v, (hmem v).mpr ⟨k, hv⟩, hident k v hv⟩
  rw [Table.range, if_pos ⟨hnodup, hkeys⟩, List.filterMap_map]
  congr 1
  rw [List.filterMap_congr (g := some) fun v hv => by simp [hlookup v hv]]
  exact List.filterMap_some

/-- The matching values may be visited in any order, too. -/
theorem Table.exists_filter (hident : ∀ k v, t.lookup k = some v → ident v = k)
    {order : List String} {vs : List V} (h : t.range order = some vs) (filter : V → Bool)
    {found : List V} (hp : found.Perm (vs.filter filter)) :
    ∃ order' vs', t.range order' = some vs' ∧ vs'.filter filter = found := by
  have hall : (found ++ vs.filter fun v => !filter v).Perm vs :=
    (hp.append_right _).trans (List.filter_append_perm filter vs)
  refine ⟨_, _, Table.exists_range hident h hall, ?_⟩
  rw [List.filter_append, List.filter_eq_self.mpr, List.filter_filter]
  · simp
  · intro v hv
    exact (List.mem_filter.mp (hp.subset hv)).2

end Orders

section Answers

variable {m : Store} {g g' : MongoStore} {now : Time} {order order' : List String}

/-- The call replaces the report of a room by another one. -/
def MongoStore.Replaces (g : MongoStore) : StoreCall → Prop
  | .saveReport report => ∃ old, g.reports.Holds old ∧ old.roomID = report.roomID
  | _ => False

/-- The memory store makes the step, or fails where the server rejects the call. -/
def MatchesStep (m : Store) (now : Time) (c : StoreCall) (r : Except AppError c.Result)
    (g : MongoStore) : Prop :=
  ∃ order order' m', m.step now order order' c = some (r, m') ∧ Twins m' g

/-- A step of the memory store that `Twins` relates to the one of the server,
with an answer that is determined. -/
theorem Twins.matches_exact (h : Twins m g) {c : StoreCall} {r : Except AppError c.Result}
    (hname : ∀ room, c = .saveRoom room → room.liveKitRoomName = "lk_" ++ room.id)
    (hnew : ∀ report, c = .saveReport report → ∀ old, g.reports.Holds old → old.id ≠ report.id)
    (hno : ¬ g.Replaces c) (hexact : ∀ x y, c.SameResult m x y → x = y)
    (hg : g.step now order order' c = some (r, g')) : MatchesStep m now c r g' := by
  obtain ⟨o, o', ⟨r₀, m'⟩, hm⟩ := Store.exists_step c m now
  have hfirst : FirstReport m ⟨c, now, o, o', order, order'⟩ := by
    rintro report rfl
    rw [Option.eq_none_iff_forall_ne_some]
    intro old hold
    obtain ⟨hroom, hheld⟩ := (h.reports _ old).mp hold
    exact hno ⟨old, hheld, hroom⟩
  obtain ⟨htwins, hsame⟩ :=
    h.step (x := ⟨c, now, o, o', order, order'⟩) hname hnew hfirst hm hg
  obtain rfl : r₀ = r := by
    cases r₀ <;> cases r
    · exact congrArg Except.error hsame
    · exact hsame.elim
    · exact hsame.elim
    · exact congrArg Except.ok (hexact _ _ hsame)
  exact ⟨o, o', m', hm, htwins⟩

/-- **The memory store can answer as the server does**, except where the server
rejects a report. -/
theorem Twins.answers (h : Twins m g) {c : StoreCall} {r : Except AppError c.Result}
    (hname : ∀ room, c = .saveRoom room → room.liveKitRoomName = "lk_" ++ room.id)
    (hnew : ∀ report, c = .saveReport report → ∀ old, g.reports.Holds old → old.id ≠ report.id)
    (hno : ¬ g.Replaces c) (hg : g.step now order order' c = some (r, g')) :
    MatchesStep m now c r g' := by
  have listed : ∀ {V : Type} {id : V → String} {t : Table V} {d : Collection (.ofID id)}
      {filter : V → Bool} {found : List V}, t = d.docs → d.find filter order = some found →
      ∃ all, t.range order = some all ∧ all.filter filter = found := by
    rintro V id t d filter found rfl hfound
    exact Option.map_eq_some_iff.mp hfound
  have first : ∀ {V : Type} {id : V → String} {t : Table V} {d : Collection (.ofID id)}
      {filter : V → Bool} {notFound : AppError} {r : Except AppError V}, t = d.docs →
      MongoStore.findOne d order filter notFound = some r →
      ∃ all, t.range order = some all ∧ Store.found (all.find? filter) notFound = r := by
    rintro V id t d filter notFound r rfl hr
    obtain ⟨found, hf, rfl⟩ := Option.map_eq_some_iff.mp hr
    obtain ⟨all, hall, rfl⟩ := Option.map_eq_some_iff.mp hf
    refine ⟨all, hall, ?_⟩
    cases all.find? filter <;> rfl
  cases c with
  | listActiveListenerSessions roomID =>
    obtain ⟨found, hfound, rfl, rfl⟩ := read_answer hg
    obtain ⟨all, hall, rfl⟩ := listed h.listenerSessions hfound
    exact ⟨order, [], m, by rw [Store.step, hall]; rfl, h⟩
  | listActiveListenerSessionsByUser roomID userID =>
    obtain ⟨found, hfound, rfl, rfl⟩ := read_answer hg
    obtain ⟨all, hall, rfl⟩ := listed h.listenerSessions hfound
    exact ⟨order, [], m, by rw [Store.step, hall]; rfl, h⟩
  | listRecordings roomID =>
    obtain ⟨found, hfound, rfl, rfl⟩ := read_answer hg
    obtain ⟨all, hall, rfl⟩ := listed h.recordings hfound
    exact ⟨order, [], m, by rw [Store.step, hall]; rfl, h⟩
  | listStaleListenerSessions cutoff limit =>
    obtain ⟨found, hfound, rfl, rfl⟩ := read_answer hg
    obtain ⟨all, hall, rfl⟩ := listed h.listenerSessions hfound
    -- the loop visits the silent sessions in the order in which the server sorts them
    have hkeyed : ∀ k session, m.listenerSessions.lookup k = some session → session.id = k := by
      rw [h.listenerSessions]
      exact Collection.keyed _
    obtain ⟨order₁, all₁, hall₁, hfilter⟩ := Table.exists_filter hkeyed hall
      (fun x => x.status = .active && x.lastHeartbeatAt < cutoff)
      (List.perm_insertionSort (fun x y => x.lastHeartbeatAt ≤ y.lastHeartbeatAt) _)
    refine ⟨order₁, [], m, ?_, h⟩
    rw [Store.step, hall₁, Option.map_some]
    simp only [hfilter]
  | findPendingSpeakerRequest roomID userID =>
    obtain ⟨a, ha, rfl, rfl⟩ := read_answer (f := id) hg
    obtain ⟨all, hall, rfl⟩ := first h.speakerRequests ha
    exact ⟨order, [], m, by rw [Store.step, hall]; rfl, h⟩
  | findApprovedSpeakerRequest roomID userID =>
    obtain ⟨a, ha, rfl, rfl⟩ := read_answer (f := id) hg
    obtain ⟨all, hall, rfl⟩ := first h.speakerRequests ha
    exact ⟨order, [], m, by rw [Store.step, hall]; rfl, h⟩
  | getActiveSpeakingBlock roomID userID =>
    obtain ⟨a, ha, rfl, rfl⟩ := read_answer (f := id) hg
    obtain ⟨all, hall, rfl⟩ := first h.speakingBlocks ha
    exact ⟨order, [], m, by rw [Store.step, hall]; rfl, h⟩
  | _ => exact h.matches_exact hname hnew hno (fun _ _ heq => heq) hg

/-- The server rejects a second report of a room and stays as it is. -/
theorem MongoStore.rejects {c : StoreCall} {r : Except AppError c.Result}
    (hnew : ∀ report, c = .saveReport report → ∀ old, g.reports.Holds old → old.id ≠ report.id)
    (hre : g.Replaces c) (hg : g.step now order order' c = some (r, g')) :
    (∃ report, c = .saveReport report) ∧ (∃ text, r = .error (.external text)) ∧ g' = g := by
  cases c with
  | saveReport report =>
    refine ⟨⟨report, rfl⟩, ?_⟩
    obtain ⟨old, hold, hroom⟩ := hre
    obtain ⟨w, hw, he⟩ := Option.map_eq_some_iff.mp hg
    obtain ⟨found, hf, -⟩ := Option.map_eq_some_iff.mp hw
    cases found with
    | some old' =>
      obtain ⟨hold', -⟩ := Collection.findOne_eq_some hf
      rw [Collection.replaceOne_immutable hf (hnew report rfl old' hold')] at hw
      cases hw
      cases he
      exact ⟨⟨_, rfl⟩, rfl⟩
    | none =>
      have hno := Collection.findOne_eq_none hf hold
      simp [hroom] at hno
  | _ => exact hre.elim

end Answers

/-! ## The deployment -/

structure Backends where
  store : MongoStore
  presence : Keyspace.Store String
  /-- The events the bus accepted, oldest first. -/
  bus : List VoiceEvent
  /-- The jobs the queue accepted, oldest first. -/
  queue : List JobRequest
  /-- The ULIDs drawn so far. -/
  issued : List Ulid

/-- What the surroundings choose for one call, with the time of the Redis server
and the clock of the service as it is written there. -/
structure ServerEnv extends Env where
  serverNow : Int
  lastSeen : String

namespace Backends

def empty : Backends := ⟨.empty, Keyspace.empty, [], [], []⟩

def commandError : Keyspace.CommandError → AppError
  | .wrongType => .external "WRONGTYPE Operation against a key holding the wrong kind of value"
  | .invalidExpireTime => .external "ERR invalid expire time"

/-- A call that does not fail for want of a connection. -/
def perform (redis : Redis.PresenceStore) (I : Infra) (env : ServerEnv) :
    (e : Effect) → Backends → Option (e.Answer × Backends)
  | .now, b => some (env.now, b)
  | .newID pfx, b =>
      if env.ulid ∈ b.issued then none
      else some (newID pfx env.ulid, { b with issued := env.ulid :: b.issued })
  | .store c, b =>
      (b.store.step env.now env.order env.order' c).map fun r => (r.1, { b with store := r.2 })
  | .presence c, b =>
      let r := Redis.step redis env.serverNow env.lastSeen c b.presence
      some (r.1.mapError commandError, { b with presence := r.2 })
  | .publish event, b => some (.ok (), { b with bus := b.bus ++ [event] })
  | .enqueue job, b => some (.ok (), { b with queue := b.queue ++ [job] })
  | .issueSpeakerToken input, b => some (.ok (I.speakerToken input), b)
  | .connectionToken userID, b => some (.ok (I.connectionToken userID), b)
  | .subscriptionToken userID channel, b => some (.ok (I.subscriptionToken userID channel), b)
  | .playbackURL object ttl, b => some (.ok (I.playbackURL object ttl), b)

def exec (redis : Redis.PresenceStore) (I : Infra) (env : ServerEnv) (e : Effect) (b : Backends) :
    Option (e.Answer × Backends) :=
  if env.fails then
    if I.mayFail e then (World.failure e).map fun a => (a, b) else none
  else perform redis I env e b

end Backends

/-- The service on MongoDB and Redis. -/
def Service.deployment (s : Service) (redis : Redis.PresenceStore) (I : Infra) :
    System effects Command ServerEnv AppError Reply Backends :=
  ⟨s.program, Backends.exec redis I, .empty⟩

/-! ## What the two deployments have in common -/

/-- The call saves a report. -/
def Effect.savesReport : Effect → Bool
  | .store (.saveReport _) => true
  | _ => false

/-- The components, where the store may also fail to save a report. -/
def Infra.rejectingReports (I : Infra) : Infra :=
  { I with mayFail := fun e => e.savesReport || I.mayFail e }

/-- The same answer, except that the two stores may reject a report in their own words. -/
def Effect.SameAnswer (e : Effect) (a a' : e.Answer) : Prop :=
  a = a' ∨ ∃ report text text', (⟨e, a⟩ : VoiceExchange) =
      ⟨.store (.saveReport report), .error (.external text)⟩ ∧
    (⟨e, a'⟩ : VoiceExchange) = ⟨.store (.saveReport report), .error (.external text')⟩

/-- The same error, or two errors of components. -/
def AppError.Same (e e' : AppError) : Prop :=
  e = e' ∨ ∃ text text', e = .external text ∧ e' = .external text'

/-- The databases hold what the in-process stores hold. -/
structure Backs (b : Backends) (w : World) : Prop where
  store : Twins w.store b.store
  events : w.store.events = b.store.events
  presence : Redis.Mirrors b.presence w.presence
  bus : w.bus = b.bus
  queue : w.queue = b.queue
  issued : w.issued = b.issued

theorem backs_empty : Backs .empty .empty where
  store := by
    have hempty : ∀ report, ¬ MongoStore.empty.reports.Holds report := by
      simp [Collection.Holds, MongoStore.empty, Collection.empty]
    refine ⟨rfl, rfl, rfl, rfl, rfl, rfl, ?_, ?_⟩
    · simp [Backends.empty, World.empty, Store.empty, hempty]
    · simp [Backends.empty, MongoStore.empty, Collection.Holds, Collection.empty]
  events := rfl
  presence := Redis.mirrors_empty
  bus := rfl
  queue := rfl
  issued := rfl

/-! ## Programs on both deployments -/

section Programs

variable {α : Type} {s : Service}

/-- A call that saves no report gets one answer on both deployments. -/
theorem Effect.SameAnswer.eq {e : Effect} {a a' : e.Answer} (h : e.SameAnswer a a')
    (he : e.savesReport = false) : a = a' := by
  rcases h with rfl | ⟨report, text, text', ha, -⟩
  · rfl
  · cases ha
    cases he

/-- A command that saves no report goes on alike. -/
theorem related_of_attests {cmd : Command} (hcmd : ∀ c, cmd ≠ .generateReport c) :
    Related (S := effects) Effect.SameAnswer AppError.Same (s.program cmd) (s.program cmd) := by
  refine Related.self (fun _ => .inl rfl) ((program_attests s cmd).mono ?_ fun _ _ h => h)
  intro h e hattests a a' ha
  refine ha.eq ?_
  cases e with
  | store call =>
    cases call with
    | saveReport report =>
      obtain ⟨⟨c, rfl⟩, -⟩ := hattests
      exact absurd rfl (hcmd c)
    | _ => rfl
  | _ => rfl

theorem related_ask {e : Effect} (he : e.savesReport = false) {f : e.Answer → Action α}
    (hf : ∀ a, Related (S := effects) Effect.SameAnswer AppError.Same (f a) (f a)) :
    Related (S := effects) Effect.SameAnswer AppError.Same ((ask e).bind f) ((ask e).bind f) := by
  refine Related.call (S := effects) e fun a a' ha => ?_
  obtain rfl := Effect.SameAnswer.eq ha he
  exact hf a

theorem related_store {c : StoreCall} (hc : (Effect.store c).savesReport = false)
    {f : c.Result → Action α}
    (hf : ∀ x, Related (S := effects) Effect.SameAnswer AppError.Same (f x) (f x)) :
    Related (S := effects) Effect.SameAnswer AppError.Same ((store c).bind f)
      ((store c).bind f) := by
  rw [store, bind_assoc]
  refine related_ask hc fun a => ?_
  cases a with
  | ok x => exact hf x
  | error e => exact .fail (.inl rfl)

/-- `GenerateReport` stops when its report is rejected. -/
theorem generateReport_related (c : GenerateReportCommand) :
    Related (S := effects) Effect.SameAnswer AppError.Same (s.program (.generateReport c))
      (s.program (.generateReport c)) := by
  simp only [Service.program, generateReport, map_eq, bind_eq, bind_assoc]
  refine related_store rfl fun room => ?_
  refine (Related.require fun _ => .inl rfl).bind fun _ => ?_
  refine related_store rfl fun stats => ?_
  refine related_ask rfl fun reportID => related_ask rfl fun t => ?_
  rw [store, bind_assoc]
  refine Related.call (S := effects) _ fun a a' ha => ?_
  rcases ha with rfl | ⟨report, text, text', ha, ha'⟩
  · cases a with
    | error e => exact .fail (.inl rfl)
    | ok x =>
      simp only [publish, bind_eq, bind_assoc]
      refine related_ask rfl fun eventID => related_ask rfl fun occurredAt => ?_
      refine related_store rfl fun _ => related_ask rfl fun answer => ?_
      cases answer with
      | ok x => exact .ret _
      | error e => exact .fail (.inl rfl)
  · cases ha
    cases ha'
    exact .fail (.inr ⟨text, text', rfl, rfl⟩)

/-- **Every command goes on alike** on both deployments. -/
theorem program_related (s : Service) (cmd : Command) :
    Related (S := effects) Effect.SameAnswer AppError.Same (s.program cmd) (s.program cmd) := by
  by_cases hcmd : ∃ c, cmd = .generateReport c
  · obtain ⟨c, rfl⟩ := hcmd
    exact generateReport_related c
  · exact related_of_attests fun c hc => hcmd ⟨c, hc⟩

end Programs

/-! ## One call on both deployments -/

section Call

variable {redis : Redis.PresenceStore} {I : Infra} {b b' : Backends} {w : World}
  {env : ServerEnv}

/-- The same instant, and the same ULID if one is drawn. -/
def SameChoice (env : ServerEnv) (env' : Env) : Prop := env'.now = env.now ∧ env'.ulid = env.ulid

/-- A call as the service makes it: the name of a room is made from its id, a
report has a new id, and sessions are marked for a positive time. -/
def Effect.Proper (g : MongoStore) : Effect → Prop
  | .store (.saveRoom room) => room.liveKitRoomName = "lk_" ++ room.id
  | .store (.saveReport report) => ∀ old, g.reports.Holds old → old.id ≠ report.id
  | .presence c => ∀ ttl ∈ Redis.ttl c, 0 < ttl
  | _ => True

/-- A call that fails on one deployment can fail on the other. -/
theorem exec_failing (env : ServerEnv) {e : Effect} {a : e.Answer}
    (hmay : I.rejectingReports.mayFail e = true) (hf : World.failure e = some a) (w : World) :
    ∃ env', SameChoice env env' ∧ World.exec I.rejectingReports env' e w = some (a, w) :=
  ⟨⟨env.now, env.ulid, [], [], true⟩, ⟨rfl, rfl⟩, by simp [World.exec, hmay, hf]⟩

theorem MongoStore.step_events {g g' : MongoStore} {now : Time} {order order' : List String}
    {c : StoreCall} {a : Except AppError c.Result} (h : g.step now order order' c = some (a, g')) :
    g'.events = g.events ++ (appendedEvent ⟨.store c, a⟩).toList := by
  cases c <;> simp only [MongoStore.step, Option.map_eq_some_iff, Option.bind_eq_some_iff,
    Option.some.injEq, Prod.mk.injEq] at h
  case reportStats => obtain ⟨_, -, _, -, -, rfl⟩ := h; exact (List.append_nil _).symm
  case appendEvent => obtain ⟨rfl, rfl⟩ := h; rfl
  all_goals
    obtain ⟨_, -, -, rfl⟩ := h
    exact (List.append_nil _).symm

/-- A call of the store. -/
theorem Backs.store_call (h : Backs b w) {c : StoreCall} (hc : (Effect.store c).Proper b.store)
    {r : Except AppError c.Result} {g' : MongoStore}
    (hg : b.store.step env.now env.order env.order' c = some (r, g')) :
    ∃ env' a' w', SameChoice env env' ∧
      World.exec I.rejectingReports env' (.store c) w = some (a', w') ∧
      (Effect.store c).SameAnswer r a' ∧ Backs { b with store := g' } w' := by
  have hnew : ∀ report, c = .saveReport report → ∀ old, b.store.reports.Holds old →
      old.id ≠ report.id := by
    rintro report rfl
    exact hc
  by_cases hre : b.store.Replaces c
  · obtain ⟨⟨report, rfl⟩, ⟨text, rfl⟩, rfl⟩ := MongoStore.rejects hnew hre hg
    obtain ⟨env', hsame, hx⟩ :=
      exec_failing (I := I) env (e := .store (.saveReport report)) rfl rfl w
    exact ⟨env', _, w, hsame, hx, .inr ⟨report, _, _, rfl, rfl⟩, h⟩
  · have hname : ∀ room, c = .saveRoom room → room.liveKitRoomName = "lk_" ++ room.id := by
      rintro room rfl
      exact hc
    obtain ⟨order, order', m', hm, htwins⟩ := h.store.answers hname hnew hre hg
    let env' : Env := ⟨env.now, env.ulid, order, order', false⟩
    have hx : World.exec I.rejectingReports env' (.store c) w =
        some (r, { w with store := m' }) := by
      simp [World.exec, World.perform, env', hm]
    refine ⟨env', r, _, ⟨rfl, rfl⟩, hx, .inl rfl, { h with store := htwins, events := ?_ }⟩
    rw [World.exec_events hx, MongoStore.step_events hg, h.events]

/-- **One call** of the deployment can be made of the in-process stores. -/
theorem Backs.exec (h : Backs b w) (hset : ∀ d, 0 < d → 0 < redis.setTTL d) {e : Effect}
    (he : e.Proper b.store) {a : e.Answer} (hx : Backends.exec redis I env e b = some (a, b')) :
    ∃ env' a' w', SameChoice env env' ∧ World.exec I.rejectingReports env' e w = some (a', w') ∧
      e.SameAnswer a a' ∧ Backs b' w' := by
  rw [Backends.exec] at hx
  split at hx
  · split at hx
    · rename_i hmay
      obtain ⟨a, hf, hx⟩ := Option.map_eq_some_iff.mp hx
      cases hx
      have hmay : I.rejectingReports.mayFail e = true := by simp [Infra.rejectingReports, hmay]
      obtain ⟨env', hsame, hx⟩ := exec_failing env hmay hf w
      exact ⟨env', a, w, hsame, hx, .inl rfl, h⟩
    · cases hx
  · rename_i hfails
    have done : ∀ w', World.perform I.rejectingReports env.toEnv e w = some (a, w') → Backs b' w' →
        ∃ env' a' w', SameChoice env env' ∧ World.exec I.rejectingReports env' e w = some (a', w') ∧
          e.SameAnswer a a' ∧ Backs b' w' := fun _ hp hb =>
      ⟨env.toEnv, a, _, ⟨rfl, rfl⟩, by rw [World.exec, if_neg hfails]; exact hp, .inl rfl, hb⟩
    cases e with
    | store c =>
      obtain ⟨⟨r, g'⟩, hg, hx⟩ := Option.map_eq_some_iff.mp hx
      cases hx
      exact h.store_call he hg
    | newID pfx =>
      simp only [Backends.perform] at hx
      split at hx
      · cases hx
      · rename_i hulid
        cases hx
        refine done { w with issued := env.ulid :: w.issued } ?_
          { h with issued := by simp [h.issued] }
        simp [World.perform, h.issued, hulid]
    | presence c =>
      cases hx
      obtain ⟨hanswer, hmirrors⟩ := Redis.step_alike hset h.presence env.serverNow env.lastSeen c he
      refine done { w with presence := (w.presence.step c).2 } ?_
        { h with presence := hmirrors }
      rw [hanswer]
      rfl
    | publish event =>
      cases hx
      exact done _ rfl { h with bus := by simp [h.bus] }
    | enqueue job =>
      cases hx
      exact done _ rfl { h with queue := by simp [h.queue] }
    | _ =>
      cases hx
      exact done _ rfl h

end Call

/-! ## The calls of a run are proper -/

section Proper

variable {s : Service} {I : Infra} {ms : List VoiceMove} {q : VoicePool} {i : ℕ}
  {cmd : Command} {b : Backends}

/-- Every room that was ever read has the name made from its id. -/
theorem room_read_named (h : (s.system I).run ms = some q) (roomID : String) (room : Room)
    (hread : ⟨.store (.getRoom roomID), .ok room⟩ ∈ threadHistory i q.trace) :
    room.liveKitRoomName = "lk_" ++ room.id := by
  have hstored := room_was_stored (rooms_coherent (System.run_replays h)) hread
  refine (rooms_evolve h).invariant (I := fun _ room => room.liveKitRoomName = "lk_" ++ room.id)
    (fun _ _ _ => id) ?_ ?_ hstored
  · rintro older e room ⟨c, t, streamID, -, -, hroom⟩
    rw [hroom]
    rfl
  · intro older e room₀ room h₀ hchange
    rw [hchange.frame] at h₀
    exact h₀

theorem SavesRoom.named (h : (s.system I).run ms = some q) {room : Room}
    (hs : SavesRoom s (threadHistory i q.trace) room cmd) :
    room.liveKitRoomName = "lk_" ++ room.id := by
  cases cmd with
  | createRoom c =>
    obtain ⟨-, t, roomID, streamID, -, rfl⟩ := hs
    rfl
  | startRoom c =>
    obtain ⟨t, room₀, hhist, -, -, rfl⟩ := hs
    exact room_read_named h c.roomID room₀ (by rw [hhist]; simp)
  | finishRoom c =>
    obtain ⟨t, room₀, hhist, -, -, rfl⟩ := hs
    exact room_read_named h c.roomID room₀ (by rw [hhist]; simp)
  | startRecording c =>
    obtain ⟨t, recordingID, room₀, hhist, -, -, rfl⟩ := hs
    exact room_read_named h c.roomID room₀ (by rw [hhist]; simp)
  | stopRecording c =>
    obtain ⟨t, recording, room₀, hhist, -, -, rfl⟩ := hs
    exact room_read_named h c.roomID room₀ (by rw [hhist]; simp)
  | _ => exact hs.elim

/-- The id of the report a call has saved. -/
def savedReportID (x : VoiceExchange) : Option String := (savedReport x).map fun r => r.2.id

def drawnReportID : VoiceExchange → Option String
  | ⟨.newID pfx, id⟩ => if pfx = prefixReport then some id else none
  | _ => none

/-- A report that is about to be saved has a new id. -/
theorem redeems_report {t : Time} {id : String} {h h₀ : List VoiceExchange}
    (hhist : h = ⟨.now, t⟩ :: ⟨.newID prefixReport, id⟩ :: h₀) :
    Redeems drawnReportID savedReportID h id :=
  ⟨[⟨.now, t⟩], _, h₀, hhist, by simp [drawnReportID], rfl, by simp [savedReportID, savedReport]⟩

theorem reports_redeem (h : (s.system I).run ms = some q) :
    AllRedeem drawnReportID savedReportID q.trace := by
  refine (run_attests h).mono fun older e hattests k hk => ?_
  obtain ⟨⟨roomID, report⟩, hsaved, rfl⟩ := Option.map_eq_some_iff.mp hk
  rw [(savedReport_eq_some.mp hsaved).1] at hattests
  obtain ⟨-, t, h₀, hhist⟩ := hattests
  exact redeems_report hhist

/-- No report is stored under an id that has just been drawn. -/
theorem report_id_new (h : (s.system I).run ms = some q) (hb : Backs b q.state)
    {report : RoomReport} {t : Time} {h₀ : List VoiceExchange}
    (hhist : threadHistory i q.trace = ⟨.now, t⟩ :: ⟨.newID prefixReport, report.id⟩ :: h₀)
    {old : RoomReport} (hold : b.store.reports.Holds old) : old.id ≠ report.id := by
  have hrep := System.run_replays h
  have hstored := (hb.store.reports old.roomID old).mpr ⟨rfl, hold⟩
  rw [lookup_reports hrep] at hstored
  obtain ⟨e, he, hsaved⟩ := exists_write_of_lastWrite hstored
  have hunused := (redeems_report hhist).unused (fresh_draws prefixReport hrep) (reports_redeem h)
  intro hid
  refine hunused e he ?_
  rw [savedReportID, show savedReport e.exchange = _ from hsaved, Option.map_some, hid]

/-- **Whatever a run is about to call is proper.** -/
theorem pending_proper (h : (s.system I).run ms = some q) (hb : Backs b q.state)
    (hlive : 0 < s.cfg.listenerSessionTimeout) {e : Effect} {next : e.Answer → Action Reply}
    (hi : q.threads[i]? = some ⟨cmd, .call e next⟩) : e.Proper b.store := by
  have hasks := ((System.run_obeys (program_asks s) h).1 i cmd _ hi).1
  have hattests := ((System.run_obeys (program_attests s) h).1 i cmd _ hi).1
  cases e with
  | store c =>
    cases c with
    | saveRoom room => exact SavesRoom.named h hasks
    | saveReport report =>
      obtain ⟨-, t, h₀, hhist⟩ := hattests
      exact fun old hold => report_id_new h hb hhist hold
    | _ => trivial
  | presence c =>
    intro ttl httl
    rw [hattests ttl httl]
    exact hlive
  | _ => trivial

end Proper

/-! ## The refinement -/

/-- The deployment on the databases, simulated by the in-process one. -/
def Service.inProcess (s : Service) (redis : Redis.PresenceStore) (I : Infra)
    (hset : ∀ d, 0 < d → 0 < redis.setTTL d) (hlive : 0 < s.cfg.listenerSessionTimeout) :
    Simulation (s.deployment redis I) (s.system I.rejectingReports) where
  states := Backs
  choices := SameChoice
  answers := Effect.SameAnswer
  errors := AppError.Same
  init := backs_empty
  programs := program_related s
  answer _ _ _ _ _ _ _ _ _ _ hq hb hi hx := hb.exec hset (pending_proper hq hb hlive hi) hx

/-- The choices of a call on servers whose clock stands still. -/
def served (env : Env) : ServerEnv := { env with serverNow := 0, lastSeen := "" }

/-- A report of the room is generated, a guest joins, and the report is generated again. -/
def twoReports : List (Move Command ServerEnv) :=
  let inRoom := visiting [sampleRoom]
  let jobs : List (Command × List Env) :=
    [(.createRoom ⟨"title", "owner", [], ["moderator"], ""⟩,
        plain 1 ++ drawing 0 ++ drawing 1 ++ plain 1 ++ publishing 2),
     (.startRoom ⟨sampleRoom, "owner", ""⟩, inRoom ++ plain 1 ++ inRoom ++ publishing 3),
     (.generateReport ⟨sampleRoom, "owner", ""⟩,
        inRoom ++ plain 1 ++ drawing 4 ++ plain 2 ++ publishing 5),
     (.joinRoom ⟨sampleRoom, "guest", ""⟩,
        inRoom ++ plain 2 ++ drawing 6 ++ plain 2 ++ publishing 7),
     (.generateReport ⟨sampleRoom, "moderator", ""⟩,
        inRoom ++ visiting [newID prefixListenerSession (sampleUlid 6)] ++ drawing 8 ++ plain 1 ++
          visiting [newID prefixReport (sampleUlid 4)])]
  (movesFrom 0 jobs).map fun
    | .start cmd => .start cmd
    | .call i env => .call i (served env)

/-- The command failed because of a component. -/
def rejected (t : Thread effects Command AppError Reply) : Bool :=
  match t.rest with
  | .fail (.external _) => true
  | _ => false

theorem setTTL_pos : ∀ d, 0 < d → 0 < Redis.roundingStore.setTTL d := fun _ _ =>
  lt_of_lt_of_le Int.zero_lt_one (le_max_left _ _)

theorem sampleService_timeout : 0 < sampleService.cfg.listenerSessionTimeout := by decide

/-- The documents of each collection fit together, and a room has one report at most. -/
structure MongoStore.WellFormed (g : MongoStore) : Prop where
  rooms : ∀ room, g.rooms.Holds room → room.WellFormed
  listenerSessions : ∀ session, g.listenerSessions.Holds session → session.WellFormed
  speakerRequests : ∀ request, g.speakerRequests.Holds request → request.WellFormed
  speakingBlocks : ∀ block, g.speakingBlocks.Holds block → block.WellFormed
  recordings : ∀ recording, g.recordings.Holds recording → recording.WellFormed
  reports : ∀ report report', g.reports.Holds report → g.reports.Holds report' →
    report.roomID = report'.roomID → report = report'

theorem Twins.wellFormed {m : Store} {g : MongoStore} (h : Twins m g) (hm : m.WellFormed) :
    g.WellFormed where
  rooms room hheld := hm.rooms room.id room (h.rooms ▸ hheld)
  listenerSessions session hheld :=
    hm.listenerSessions session.id session (h.listenerSessions ▸ hheld)
  speakerRequests request hheld := hm.speakerRequests request.id request (h.speakerRequests ▸ hheld)
  speakingBlocks block hheld := hm.speakingBlocks block.id block (h.speakingBlocks ▸ hheld)
  recordings recording hheld := hm.recordings recording.id recording (h.recordings ▸ hheld)
  reports report report' hheld hheld' hroom := by
    have hstored := (h.reports report.roomID report).mpr ⟨rfl, hheld⟩
    rw [(h.reports report.roomID report').mpr ⟨hroom.symm, hheld'⟩] at hstored
    exact (Option.some.inj hstored).symm

/-- What the databases hold fits together: the documents are well formed, a room
has one report at most, no event is logged or published twice, and every event
says what its record says. -/
structure Backends.Sound (b : Backends) : Prop where
  documents : b.store.WellFormed
  loggedOnce : (b.store.events.map EventEnvelope.eventID).Nodup
  publishedOnce : (b.bus.map EventEnvelope.eventID).Nodup
  published_logged : b.bus ⊆ b.store.events
  consistent : ∀ event ∈ b.store.events, event.Consistent

theorem Backs.sound {b : Backends} {s : Service} {I : Infra} {ms : List VoiceMove} {q : VoicePool}
    (hb : Backs b q.state) (hq : (s.system I).run ms = some q) : b.Sound where
  documents := hb.store.wellFormed (run_wellFormed hq)
  loggedOnce := hb.events ▸ log_nodup hq
  publishedOnce := hb.bus ▸ bus_nodup hq
  published_logged := by
    rw [← hb.events, ← hb.bus]
    exact bus_logged hq
  consistent event hevent := by
    rw [← hb.events] at hevent
    obtain ⟨newer, e, older, -, -, hauthentic⟩ := logged_authentic hq hevent
    exact hauthentic.consistent

/-- **What the databases hold** fits together in every run of the deployment,
however the commands interleave and whatever fails. -/
theorem production_safe (s : Service) (redis : Redis.PresenceStore) (I : Infra)
    (hset : ∀ d, 0 < d → 0 < redis.setTTL d) (hlive : 0 < s.cfg.listenerSessionTimeout)
    (ms : List (Move Command ServerEnv))
    (p : Pool effects Command ServerEnv AppError Reply Backends)
    (h : (s.deployment redis I).run ms = some p) : p.state.Sound := by
  obtain ⟨ms', q, -, hq, hmatch⟩ := (s.inProcess redis I hset hlive).run h
  have hb : Backs p.state q.state := hmatch.states
  exact hb.sound hq

theorem production_safe_reports :
    ∃ p, (sampleService.deployment Redis.roundingStore (sampleInfra fun _ => false)).run
        twoReports = some p ∧ p.state.store.events.length = 4 ∧ p.state.Sound := by
  have hrun : ((sampleService.deployment Redis.roundingStore (sampleInfra fun _ => false)).run
      twoReports).any (fun p => p.state.store.events.length = 4) = true := by decide +kernel
  obtain ⟨p, hp, hlog⟩ := (Option.any_eq_true _ _).mp hrun
  exact ⟨p, hp, of_decide_eq_true hlog,
    production_safe _ _ _ setTTL_pos sampleService_timeout _ p hp⟩

end WaveCast
