import Mathlib.Algebra.Order.Floor.Div
import WaveCast.Rounds

/-!
# Expiring the silent listeners

An execution of `ExpireStaleListenerSessions` selects at most `limit` of the
active sessions whose last heartbeat came before the cutoff, in whatever order
the store visits them, and expires exactly those (`Expires`). So each execution
leaves `limit` fewer of them, and enough executions leave none
(`expiry_drains`).
-/

namespace WaveCast

open Interaction WaveCast.Action Program Service

/-- The session is active and its last heartbeat came before the cutoff. -/
def ListenerSession.silent (cutoff : Time) (session : ListenerSession) : Bool :=
  session.status = .active && session.lastHeartbeatAt < cutoff

/-- The keys of the silent sessions. -/
def Store.silent (st : Store) (cutoff : Time) : Finset String :=
  st.listenerSessions.keys.filter fun k =>
    (st.listenerSessions.lookup k).any (ListenerSession.silent cutoff)

/-- The most that one execution expires. -/
def batch (limit : Int) : ℕ := if limit ≤ 0 then 100 else limit.toNat

/-- The event reports that the session stored under `k` has expired. -/
def World.ReportsExpiry (w : World) (k : String) (event : VoiceEvent) : Prop :=
  ∃ session, w.store.listenerSessions.lookup k = some session ∧
    event.eventType = eventListenerSessionExpired ∧ event.roomID = session.roomID ∧
    event.targetUserID = session.userID ∧ event.payload = .listenerSession session

/-- Between `w` and `w'` the chosen sessions have expired, each is reported by
one event of the log, and nothing else has happened to the sessions or the log. -/
structure Expires (chosen : Finset String) (w w' : World) : Prop where
  expired : ∀ k ∈ chosen, ∃ session t, w.store.listenerSessions.lookup k = some session ∧
    w'.store.listenerSessions.lookup k =
      some (endedSession session .expired "heartbeat_timeout" t)
  kept : ∀ k ∉ chosen,
    w'.store.listenerSessions.lookup k = w.store.listenerSessions.lookup k
  participants : w'.store.participantSessions = w.store.participantSessions
  reported : ∃ keys events, keys.Nodup ∧ keys.toFinset = chosen ∧
    w'.store.events = w.store.events ++ events ∧ List.Forall₂ w'.ReportsExpiry keys events

section Silent

variable {st : Store} {cutoff : Time} {k : String}

theorem Store.mem_silent : k ∈ st.silent cutoff ↔
    ∃ session, st.listenerSessions.lookup k = some session ∧ session.silent cutoff = true := by
  simp only [Store.silent, Finset.mem_filter, Option.any_eq_true, Finmap.mem_keys,
    and_iff_right_iff_imp]
  rintro ⟨session, hl, -⟩
  exact Finmap.mem_iff.mpr ⟨session, hl⟩

/-- The ids of the silent sessions that a loop visits are the silent keys. -/
theorem Store.silent_eq (hident : ∀ k session, st.listenerSessions.lookup k = some session →
    session.id = k) {order : List String} {stored : List ListenerSession}
    (hr : st.listenerSessions.range order = some stored) :
    ((stored.filter (ListenerSession.silent cutoff)).map (·.id)).toFinset = st.silent cutoff := by
  ext k
  rw [List.mem_toFinset, List.mem_map, Store.mem_silent]
  constructor
  · rintro ⟨session, hs, rfl⟩
    obtain ⟨hs, hsilent⟩ := List.mem_filter.mp hs
    obtain ⟨k, hl⟩ := (Table.mem_range hr session).mp hs
    exact ⟨session, (hident k session hl).symm ▸ hl, hsilent⟩
  · rintro ⟨session, hl, hsilent⟩
    exact ⟨session, List.mem_filter.mpr ⟨(Table.mem_range hr session).mpr ⟨k, hl⟩, hsilent⟩,
      hident k session hl⟩

end Silent

section Execution

variable {s : Service} {I : Infra} {w w' : World} {cutoff : Time} {limit : Int}
  {sessions : List ListenerSession}

/-- `sessions` are `batch limit` of the silent sessions, or all of them. -/
structure World.SelectsSilent (w : World) (cutoff : Time) (limit : Int)
    (sessions : List ListenerSession) : Prop where
  stored : ∀ x ∈ sessions, w.store.listenerSessions.lookup x.id = some x ∧
    x.silent cutoff = true
  nodup : (sessions.map (·.id)).Nodup
  length_eq : sessions.length = min (batch limit) (w.store.silent cutoff).card

theorem World.exec_selectSilent (hw : w.FilesSessions) {env : Env} (hI : ¬ I.Fails)
    {a : Except AppError (List ListenerSession)}
    (h : World.exec I env (.store (.listStaleListenerSessions cutoff
      (if limit ≤ 0 then 100 else limit))) w = some (a, w')) :
    ∃ sessions, a = .ok sessions ∧ w.SelectsSilent cutoff limit sessions := by
  have hperform := World.exec_performs (by simpa [Infra.Fails] using fun hf => hI ⟨_, hf⟩) h
  obtain ⟨⟨a', st⟩, hs, he⟩ := Option.map_eq_some_iff.mp hperform
  obtain ⟨stored, hr, hc⟩ := Option.map_eq_some_iff.mp hs
  cases hc
  cases he
  have hpos : (if limit ≤ 0 then 100 else limit) > 0 := by split <;> omega
  have hbatch : (if limit ≤ 0 then 100 else limit).toNat = batch limit := by
    rw [batch]
    split <;> rfl
  refine ⟨_, rfl, ?_⟩
  rw [if_pos hpos, hbatch]
  have hfiltered : (stored.filter (ListenerSession.silent cutoff)).Sublist stored :=
    List.filter_sublist
  have hnodup := (hfiltered.map ListenerSession.id).nodup (Table.nodup_range hw hr)
  constructor
  · intro x hx
    obtain ⟨hs, hsilent⟩ := List.mem_filter.mp (List.mem_of_mem_take hx)
    obtain ⟨k, hl⟩ := (Table.mem_range hr x).mp hs
    exact ⟨(hw k x hl).symm ▸ hl, hsilent⟩
  · exact ((List.take_sublist _ _).map _).nodup hnodup
  · rw [List.length_take, ← Store.silent_eq hw hr, List.toFinset_card_of_nodup hnodup,
      List.length_map]
    rfl

/-- A round that expires a session and reports it. -/
def ExpiryRound (s : Service) (t : Time) (x : ListenerSession) (w w' : World) : Prop :=
  Round s (endedSession x .expired "heartbeat_timeout" t) w w' ∧
  ∃ event, w'.store.events = w.store.events ++ [event] ∧
    event.eventType = eventListenerSessionExpired ∧ event.roomID = x.roomID ∧
    event.targetUserID = x.userID ∧
    event.payload = .listenerSession (endedSession x .expired "heartbeat_timeout" t)

theorem ensures_expiryRound {h : List VoiceExchange} {t : Time} {x : ListenerSession}
    {correlationID : String} :
    Ensures (S := effects) (World.exec I) (Yields I.Fails fun _ w' => ExpiryRound s t x w w') h w
      ((store (.saveListenerSession (endedSession x .expired "heartbeat_timeout" t))).bind fun _ =>
        (s.presenceDo (.markListenerInactive x.roomID x.id)).bind fun _ =>
          publish eventListenerSessionExpired x.roomID "" x.userID correlationID
            (.listenerSession (endedSession x .expired "heartbeat_timeout" t))) := by
  refine ensures_round (fun h => publish_yields.mono ?_) fun hf _ _ _ => hf
  rintro h' (e | a) w' hr
  · exact hr
  · obtain ⟨hsame, eventID, t', hevents⟩ := hr
    exact ⟨⟨hsame.listenerSessions, hsame.participantSessions, hsame.presence⟩,
      _, hevents, rfl, rfl, rfl, rfl⟩

/-- An execution expires the sessions it selects and returns their number. -/
theorem expireStaleListenerSessions_yields (hI : ¬ I.Fails) (hw : w.FilesSessions)
    (correlationID : String) :
    Ensures (S := effects) (World.exec I) (Yields False fun reply w' => ∃ sessions t,
        w.SelectsSilent cutoff limit sessions ∧ reply = .expired sessions.length ∧
        Steps (ExpiryRound s t) sessions w w') [] w
      (s.program (.expireStaleListenerSessions cutoff limit correlationID)) := by
  simp only [Service.program, expireStaleListenerSessions, map_eq, bind_eq, pure_eq, bind_assoc,
    ret_bind]
  rw [store, bind_assoc]
  refine ensures_askRead (c := .listStaleListenerSessions cutoff _) trivial fun env a h hx => ?_
  obtain ⟨sessions, rfl, hsel⟩ := World.exec_selectSilent hw hI hx
  refine ensures_now fun t h => ?_
  rw [ensures_bind]
  refine (ensures_forEach_steps (F := I.Fails) (R := ExpiryRound s t)
    (fun x _ h w => ensures_expiryRound) h w).mono ?_
  rintro h' (e | a) w' hr
  · exact hI hr
  · exact ⟨sessions, t, hsel, rfl, hr⟩

/-- The rounds append one report for each session. -/
theorem expiry_reports {t : Time} (h : Steps (ExpiryRound s t) sessions w w') :
    ∃ events, w'.store.events = w.store.events ++ events ∧
      List.Forall₂ (fun x event => event.eventType = eventListenerSessionExpired ∧
        event.roomID = x.roomID ∧ event.targetUserID = x.userID ∧
        event.payload = .listenerSession (endedSession x .expired "heartbeat_timeout" t))
        sessions events := by
  induction h with
  | nil => exact ⟨[], by simp, .nil⟩
  | cons hx _ ih =>
    obtain ⟨-, event, hevent, hreports⟩ := hx
    obtain ⟨events, hevents, hall⟩ := ih
    exact ⟨event :: events, by simp [hevents, hevent], .cons hreports hall⟩

/-- **An execution expires what it selects**, and nothing else. -/
theorem expires_of_steps (hsel : w.SelectsSilent cutoff limit sessions) {t : Time}
    (h : Steps (ExpiryRound s t) sessions w w') :
    Expires (sessions.map (·.id)).toFinset w w' := by
  have hrounds : Rounds s (endedSession · .expired "heartbeat_timeout" t) sessions w w' :=
    h.mono fun _ _ _ hr => hr.1
  have hended : ∀ x ∈ sessions, w'.store.listenerSessions.lookup x.id =
      some (endedSession x .expired "heartbeat_timeout" t) :=
    fun x hx => Rounds.lookup_ended hrounds hsel.nodup hx
  constructor
  · intro k hk
    obtain ⟨x, hx, rfl⟩ := List.mem_map.mp (List.mem_toFinset.mp hk)
    exact ⟨x, t, (hsel.stored x hx).1, hended x hx⟩
  · intro k hk
    refine Rounds.lookup_other hrounds fun x hx hid => hk ?_
    exact List.mem_toFinset.mpr (List.mem_map.mpr ⟨x, hx, hid⟩)
  · exact Rounds.participantSessions hrounds
  · obtain ⟨events, hevents, hall⟩ := expiry_reports h
    refine ⟨_, events, hsel.nodup, rfl, hevents, ?_⟩
    rw [List.forall₂_map_left_iff]
    refine (List.forall₂_and_left (p := (· ∈ sessions)) _ _).mpr ⟨fun x hx => hx, hall⟩ |>.imp ?_
    rintro x event ⟨hx, htype, hroom, huser, hpayload⟩
    exact ⟨_, hended x hx, htype, hroom, huser, hpayload⟩

end Execution

/-! ## An execution can end -/

section Progress

variable {s : Service} {I : Infra} {w w' : World} {cutoff : Time} {limit : Int}

/-- Only the id generator uses up ULIDs. -/
theorem World.exec_issued_eq {env : Env} {e : Effect} {a : e.Answer} (he : ∀ pfx, e ≠ .newID pfx)
    (h : World.exec I env e w = some (a, w')) : w'.issued = w.issued := by
  rcases World.exec_cases h with ⟨-, -, -, rfl⟩ | ⟨-, hp⟩
  · rfl
  · cases e with
    | newID pfx => exact absurd rfl (he pfx)
    | store c =>
      obtain ⟨_, -, hw⟩ := Option.map_eq_some_iff.mp hp
      cases hw
      rfl
    | _ => cases hp; rfl

/-- A program that draws no id can end, with the same ULIDs issued. -/
theorem may_of_drawsNone {α : Type} {h : List VoiceExchange} {p : Action α} {us : List Ulid}
    (hp : Follows (S := effects) (fun _ e => ∀ pfx, e ≠ .newID pfx) anyResult h p)
    (hw : w.issued = us) :
    May (S := effects) (World.exec I) (fun _ w' => w'.issued = us) w p := by
  refine hp.may (T := fun w : World => w.issued = us) (fun e w he hw => ?_) hw
  obtain ⟨env, a, w', hx⟩ := World.exists_exec I e w he
  exact ⟨env, a, w', hx, (World.exec_issued_eq he hx).trans hw⟩

/-- Publishing an event can end, given a ULID for it. -/
theorem may_publish {eventType roomID actorUserID targetUserID correlationID : String}
    {payload : Payload} {u : Ulid} (hu : u ∉ w.issued) :
    May (S := effects) (World.exec I) (fun _ w' => w'.issued = u :: w.issued) w
      (publish eventType roomID actorUserID targetUserID correlationID payload) := by
  refine ⟨⟨0, u, [], [], false⟩, newID prefixEvent u, { w with issued := u :: w.issued }, ?_, ?_⟩
  · simp [World.exec, World.perform, hu]
  · refine may_of_drawsNone (h := []) ?_ rfl
    simp only [ret_bind, bind_eq, follows_now, follows_store, follows_ask, reduceCtorEq, ne_eq,
      not_false_eq_true, implies_true, true_and, and_true]
    rintro t a (e | b) <;> trivial

/-- There are `n` fresh ULIDs. -/
def World.HasFresh (w : World) (n : ℕ) : Prop :=
  ∃ us : List Ulid, us.Nodup ∧ us.length = n ∧ ∀ u ∈ us, u ∉ w.issued

section Supply

variable {k n : ℕ}

theorem World.HasFresh.mono (hw : w.HasFresh n) (hk : k ≤ n) : w.HasFresh k := by
  obtain ⟨us, hnodup, rfl, hfresh⟩ := hw
  exact ⟨us.take k, hnodup.sublist (List.take_sublist k us), by simpa using hk,
    fun u hu => hfresh u (List.mem_of_mem_take hu)⟩

theorem World.HasFresh.draw (hw : w.HasFresh (n + 1)) :
    ∃ u, u ∉ w.issued ∧ ∀ w' : World, w'.issued = u :: w.issued → w'.HasFresh n := by
  obtain ⟨us, hnodup, hlength, hfresh⟩ := hw
  cases us with
  | nil => cases hlength
  | cons u us =>
    obtain ⟨hu, hnodup⟩ := List.nodup_cons.mp hnodup
    refine ⟨u, hfresh u (by simp), fun w' hw' => ⟨us, hnodup, by simpa using hlength, ?_⟩⟩
    intro v hv
    rw [hw', List.mem_cons, not_or]
    refine ⟨?_, hfresh v (by simp [hv])⟩
    rintro rfl
    exact hu hv

theorem World.HasFresh.of_issued_eq {w' : World} (hw : w.HasFresh n)
    (h : w'.issued = w.issued) : w'.HasFresh n := by
  rwa [World.HasFresh, h]

end Supply

/-- There are fresh ULIDs, one for each of the sessions. -/
def World.Supplies (w : World) (sessions : List ListenerSession) : Prop :=
  ∃ us : List Ulid, us.Nodup ∧ us.length = sessions.length ∧ ∀ u ∈ us, u ∉ w.issued

theorem may_expiryRound {x : ListenerSession} {rest : List ListenerSession} {t : Time}
    {correlationID : String} (hw : w.Supplies (x :: rest)) :
    May (S := effects) (World.exec I) (fun _ w' => w'.Supplies rest) w
      ((store (.saveListenerSession (endedSession x .expired "heartbeat_timeout" t))).bind fun _ =>
        (s.presenceDo (.markListenerInactive x.roomID x.id)).bind fun _ =>
          publish eventListenerSessionExpired x.roomID "" x.userID correlationID
            (.listenerSession (endedSession x .expired "heartbeat_timeout" t))) := by
  have hmore : w.HasFresh (rest.length + 1) := hw
  obtain ⟨u, hu, hleft⟩ := hmore.draw
  rw [← Program.bind_assoc, may_bind]
  refine (may_of_drawsNone (h := []) ?_ (rfl : w.issued = _)).mono ?_
  · rw [presenceDo]
    cases s.hasPresence <;>
      simp [present, bind_assoc, follows_store, follows_ask, follows_ofExcept]
  · rintro (e | a) w₁ hw₁
    · exact (hmore.mono (Nat.le_succ _)).of_issued_eq hw₁
    · rw [← hw₁] at hu hleft
      exact (may_publish hu).mono fun _ w' hw' => hleft w' hw'

/-- An execution can end, given enough ULIDs. -/
theorem expiry_may (hI : ¬ I.Fails) (hw : w.FilesSessions) (correlationID : String)
    {us : List Ulid} (hnodup : us.Nodup)
    (hlength : us.length = min (batch limit) (w.store.silent cutoff).card)
    (hfresh : ∀ u ∈ us, u ∉ w.issued) :
    May (S := effects) (World.exec I) (fun _ _ => True) w
      (s.program (.expireStaleListenerSessions cutoff limit correlationID)) := by
  simp only [Service.program, expireStaleListenerSessions, map_eq, bind_eq, pure_eq, bind_assoc,
    ret_bind]
  rw [store, bind_assoc]
  obtain ⟨env, a, w', hx⟩ := World.exists_exec I
    (.store (.listStaleListenerSessions cutoff (if limit ≤ 0 then 100 else limit))) w
    (by rintro pfx ⟨⟩)
  obtain rfl := World.exec_read (c := .listStaleListenerSessions _ _) trivial hx
  obtain ⟨sessions, rfl, hsel⟩ := World.exec_selectSilent hw hI hx
  refine ⟨env, _, w', hx, sampleEnv 0 [], _, w', rfl, ?_⟩
  simp only [ret_bind]
  rw [may_bind]
  refine may_forEach (fun rest (w : World) => w.Supplies rest)
    ⟨us, hnodup, hlength.trans hsel.length_eq.symm, hfresh⟩ (fun x rest w hw => ?_) fun _ _ => ?_
  · refine (may_expiryRound hw).mono ?_
    rintro (e | a) w' hw'
    · trivial
    · exact hw'
  · trivial

end Progress

/-! ## Draining -/

section Drain

variable {s : Service} {I : Infra} {p q : VoicePool} {w w' : World} {cutoff : Time} {limit : Int}

/-- What is left to expire. -/
theorem Expires.silent_eq {chosen : Finset String} (h : Expires chosen w w') :
    w'.store.silent cutoff = w.store.silent cutoff \ chosen := by
  ext k
  rw [Finset.mem_sdiff, Store.mem_silent, Store.mem_silent]
  by_cases hk : k ∈ chosen
  · obtain ⟨session, t, -, hl'⟩ := h.expired k hk
    simp [hl', hk, ListenerSession.silent, endedSession]
  · simp [h.kept k hk, hk]

theorem Expires.files {chosen : Finset String} (h : Expires chosen w w') (hw : w.FilesSessions) :
    w'.FilesSessions := by
  intro k session hl
  by_cases hk : k ∈ chosen
  · obtain ⟨session₀, t, hl₀, hl'⟩ := h.expired k hk
    cases hl.symm.trans hl'
    exact hw k session₀ hl₀
  · rw [h.kept k hk] at hl
    exact hw k session hl

/-- **One execution.** -/
theorem perform_expires (hI : ¬ I.Fails) (hp : p.state.FilesSessions) {correlationID : String}
    {envs : List Env} (hq : (s.system I).perform
      (.expireStaleListenerSessions cutoff limit correlationID, envs) p = some q) :
    ∃ chosen ⊆ p.state.store.silent cutoff,
      chosen.card = min (batch limit) (p.state.store.silent cutoff).card ∧
      q.threads = p.threads ++ [⟨.expireStaleListenerSessions cutoff limit correlationID,
        .ret (.expired chosen.card)⟩] ∧
      Expires chosen p.state q.state ∧ (chosen = ∅ → q.state = p.state) := by
  obtain ⟨o, -⟩ := System.perform_outcome hq
    (program_asks s (.expireStaleListenerSessions cutoff limit correlationID))
  have hyields := System.perform_ensures hq o
    (expireStaleListenerSessions_yields (s := s) hI hp correlationID)
  have hthreads := o.threads_eq
  cases hr : o.result with
  | error e =>
    rw [hr] at hyields
    exact hyields.elim
  | ok reply =>
    rw [hr] at hyields hthreads
    obtain ⟨sessions, t, hsel, rfl, hsteps⟩ := hyields
    have hidle : sessions = [] → q.state = p.state := by
      rintro rfl
      generalize q.state = w at hsteps
      cases hsteps
      rfl
    have hcard : ((sessions.map (·.id)).toFinset).card = sessions.length := by
      rw [List.toFinset_card_of_nodup hsel.nodup, List.length_map]
    refine ⟨(sessions.map (·.id)).toFinset, fun k hk => ?_, hcard.trans hsel.length_eq,
      by rw [hcard]; exact hthreads, expires_of_steps hsel hsteps, fun hempty => ?_⟩
    · obtain ⟨x, hx, rfl⟩ := List.mem_map.mp (List.mem_toFinset.mp hk)
      exact Store.mem_silent.mpr ⟨x, hsel.stored x hx⟩
    · rw [hempty, Finset.card_empty] at hcard
      exact hidle (List.length_eq_zero_iff.mp hcard.symm)

/-- **Many executions** expire one batch after the other. -/
theorem performAll_expires (hI : ¬ I.Fails) {jobs : List VoiceJob}
    (hjobs : ∀ job ∈ jobs, ∃ correlationID,
      job.1 = .expireStaleListenerSessions cutoff limit correlationID)
    (hp : p.state.FilesSessions) (hq : (s.system I).performAll jobs p = some q) :
    q.state.FilesSessions ∧ (q.state.store.silent cutoff).card =
      (p.state.store.silent cutoff).card - batch limit * jobs.length := by
  induction jobs generalizing p with
  | nil =>
    cases hq
    exact ⟨hp, by simp⟩
  | cons job jobs ih =>
    obtain ⟨p', hp', hrest⟩ := Option.bind_eq_some_iff.mp hq
    obtain ⟨cmd, envs⟩ := job
    obtain ⟨correlationID, rfl⟩ := hjobs (cmd, envs) (by simp)
    obtain ⟨chosen, hsub, hcard, -, hx, -⟩ := perform_expires hI hp hp'
    obtain ⟨hfiles, hleft⟩ := ih (fun job hjob => hjobs job (by simp [hjob])) (hx.files hp) hrest
    refine ⟨hfiles, ?_⟩
    rw [hleft, hx.silent_eq, Finset.card_sdiff_of_subset hsub, hcard, List.length_cons,
      Nat.mul_add_one]
    omega

/-- When no session is silent, further executions change nothing. -/
theorem performAll_idle (hI : ¬ I.Fails) {jobs : List VoiceJob}
    (hjobs : ∀ job ∈ jobs, ∃ limit correlationID,
      job.1 = .expireStaleListenerSessions cutoff limit correlationID)
    (hp : p.state.FilesSessions) (hnone : p.state.store.silent cutoff = ∅)
    (hq : (s.system I).performAll jobs p = some q) : q.state = p.state := by
  induction jobs generalizing p with
  | nil => cases hq; rfl
  | cons job jobs ih =>
    obtain ⟨p', hp', hrest⟩ := Option.bind_eq_some_iff.mp hq
    obtain ⟨cmd, envs⟩ := job
    obtain ⟨limit, correlationID, rfl⟩ := hjobs (cmd, envs) (by simp)
    obtain ⟨chosen, hsub, -, -, -, hidle⟩ := perform_expires hI hp hp'
    rw [hnone, Finset.subset_empty] at hsub
    have hsame := hidle hsub
    rw [← hsame] at hp hnone ⊢
    exact ih (fun job hjob => hjobs job (by simp [hjob])) hp hnone hrest

theorem batch_pos (limit : Int) : 0 < batch limit := by
  unfold batch
  split <;> omega

end Drain

/-- **Expiry is exact and drains.** From every state whose sessions are stored
under their ids, when nothing fails, an execution expires as many of the silent
sessions as it may, reports each of them once and changes no other session; it
can end when there are ULIDs for its events; and after enough executions no
session is silent and no further one changes anything. -/
theorem expiry_drains (s : Service) (I : Infra) (hI : ∀ c, I.mayFail c = false) (p : VoicePool)
    (hfiles : p.state.FilesSessions) (cutoff : Time) (limit : Int) :
    (∀ correlationID envs q, (s.system I).perform
        (.expireStaleListenerSessions cutoff limit correlationID, envs) p = some q →
      ∃ chosen ⊆ p.state.store.silent cutoff,
        chosen.card = min (batch limit) (p.state.store.silent cutoff).card ∧
        q.threads = p.threads ++ [⟨.expireStaleListenerSessions cutoff limit correlationID,
          .ret (.expired chosen.card)⟩] ∧
        Expires chosen p.state q.state) ∧
    (∀ correlationID (us : List Ulid), us.Nodup →
      us.length = min (batch limit) (p.state.store.silent cutoff).card →
      (∀ u ∈ us, u ∉ p.state.issued) →
      ∃ envs q, (s.system I).perform
        (.expireStaleListenerSessions cutoff limit correlationID, envs) p = some q) ∧
    ∀ jobs q, (∀ job ∈ jobs, ∃ correlationID,
        job.1 = .expireStaleListenerSessions cutoff limit correlationID) →
      (p.state.store.silent cutoff).card ⌈/⌉ batch limit ≤ jobs.length →
      (s.system I).performAll jobs p = some q → q.state.store.silent cutoff = ∅ ∧
        ∀ more q', (∀ job ∈ more, ∃ limit correlationID,
            job.1 = .expireStaleListenerSessions cutoff limit correlationID) →
          (s.system I).performAll more q = some q' → q'.state = q.state := by
  have hI' : ¬ I.Fails := fun ⟨c, hf⟩ => absurd ((hI c).symm.trans hf) (by decide)
  refine ⟨?_, ?_, ?_⟩
  · intro correlationID envs q hq
    obtain ⟨chosen, hsub, hcard, hthreads, hx, -⟩ := perform_expires hI' hfiles hq
    exact ⟨chosen, hsub, hcard, hthreads, hx⟩
  · intro correlationID us hnodup hlength hfresh
    obtain ⟨envs, r, w', he, -⟩ :=
      (expiry_may (s := s) hI' hfiles correlationID hnodup hlength hfresh).exists_eval
    have he' : Program.eval (s.system I).exec envs ((s.system I).program
        (.expireStaleListenerSessions cutoff limit correlationID)) p.state = some (r, w') := he
    obtain ⟨n, q, hq, -⟩ := System.exists_perform_of_eval he'
    exact ⟨_, q, hq⟩
  · intro jobs q hjobs hmany hq
    obtain ⟨hfiles', hcard⟩ := performAll_expires hI' hjobs hfiles hq
    have henough : (p.state.store.silent cutoff).card ≤ batch limit * jobs.length :=
      (gc_mul_ceilDiv (batch_pos limit) _ _).mp hmany
    have hnone : q.state.store.silent cutoff = ∅ := by
      rw [← Finset.card_eq_zero, hcard]
      omega
    exact ⟨hnone, fun more q' hmore hq' => performAll_idle hI' hmore hfiles' hnone hq'⟩

theorem expiry_drains_guest :
    ∃ p q, (sampleService.system (sampleInfra fun _ => false)).serial (openRoom ++ [guestJoins]) =
        some p ∧ (p.state.store.silent 1).card = 1 ∧
      (sampleService.system (sampleInfra fun _ => false)).performAll
        [expireSilent (plain 3 ++ publishing 6)] p = some q ∧ q.state.store.silent 1 = ∅ := by
  have hrun : ((sampleService.system (sampleInfra fun _ => false)).serial
      (openRoom ++ [guestJoins])).any (fun p => (p.state.store.silent 1).card = 1 &&
        ((sampleService.system (sampleInfra fun _ => false)).performAll
          [expireSilent (plain 3 ++ publishing 6)] p).isSome) = true := by
    decide +kernel
  obtain ⟨p, hp, hfacts⟩ := (Option.any_eq_true _ _).mp hrun
  obtain ⟨hcard, hq⟩ := Bool.and_eq_true_iff.mp hfacts
  obtain ⟨q, hq⟩ := Option.isSome_iff_exists.mp hq
  obtain ⟨ms, hms⟩ := System.serial_isRun hp
  have hone := of_decide_eq_true hcard
  refine ⟨p, q, hp, hone, hq, ?_⟩
  refine ((expiry_drains _ _ (fun _ => rfl) p (run_keyed hms).listenerSessions.ident_eq 1 250).2.2
    _ q ?_ ?_ hq).1
  · simp [expireSilent]
  · rw [hone]
    decide

end WaveCast
