import WaveCast.PresenceAgreement

/-!
# Cleaning up

The jobs that end the listener sessions of a room or of silent listeners are
run again after each error. An execution selects the active sessions, saves
each of them as ended, and only then takes its mark out of the presence store.
So a session whose mark could not be taken out is never selected again: the
jobs converge exactly when the presence store does not fail
(`cleanup_converges_iff`, `cleanup_converges_fails`).
-/

namespace WaveCast

open Interaction WaveCast.Action Program Service

/-! ## The jobs -/

/-- A job that ends sessions: those of a room, or those whose last heartbeat
came before the cutoff. -/
inductive Cleanup where
  | closeRoom (roomID : String)
  | expire (cutoff : Time)

/-- The command is an execution of the job. -/
def Cleanup.Runs : Cleanup → Command → Prop
  | .closeRoom roomID, .closeRoomSessions roomID' _ _ => roomID' = roomID
  | .expire cutoff, .expireStaleListenerSessions cutoff' _ _ => cutoff' = cutoff
  | _, _ => False

/-- The job is run again after each error, until one execution succeeds. -/
inductive Retries (s : Service) (I : Infra) (job : Cleanup) : VoicePool → VoicePool → Prop
  | done {cmd : Command} {envs : List Env} {p q : VoicePool} {reply : Reply}
      (hrun : job.Runs cmd) (hq : (s.system I).perform (cmd, envs) p = some q)
      (hreply : q.threads = p.threads ++ [⟨cmd, .ret reply⟩]) : Retries s I job p q
  | again {cmd : Command} {envs : List Env} {p p' q : VoicePool} {e : AppError}
      (hrun : job.Runs cmd) (hp : (s.system I).perform (cmd, envs) p = some p')
      (herror : p'.threads = p.threads ++ [⟨cmd, .fail e⟩]) (hq : Retries s I job p' q) :
      Retries s I job p q

/-- Listener sessions are stored under their ids. -/
def World.FilesSessions (w : World) : Prop :=
  ∀ k session, w.store.listenerSessions.lookup k = some session → session.id = k

/-- The presence store shows the active listener sessions of every room. -/
def World.ShowsListeners (w : World) : Prop :=
  ∀ roomID,
    (Presence.members w.presence.listeners roomID : Set String) = w.store.activeListeners roomID

/-- An event in the log says that the session has expired. -/
def World.Reports (w : World) (session : ListenerSession) : Prop :=
  ∃ event ∈ w.store.events, event.eventType = eventListenerSessionExpired ∧
    event.payload = .listenerSession session

/-- Every session that expired since `w₀` is reported. -/
def World.ReportsSince (w₀ w : World) : Prop :=
  ∀ id session, w.store.listenerSessions.lookup id = some session → session.status = .expired →
    (∀ session₀, w₀.store.listenerSessions.lookup id = some session₀ →
      session₀.status ≠ .expired) → w.Reports session

/-- What the job is for: between `w₀` and `w` all that had to be cleaned up was. -/
structure World.Converged (w₀ w : World) : Prop where
  shows : w.ShowsListeners
  reports : w₀.ReportsSince w

/-! ## One round -/

/-- A call of the presence store has failed. -/
def PresenceFailed (h : List VoiceExchange) : Prop := ∃ c e, ⟨.presence c, .error e⟩ ∈ h

/-- The presence store shows a session that is no longer active. -/
def World.Stale (w : World) (roomID sessionID : String) : Prop :=
  sessionID ∈ Presence.members w.presence.listeners roomID ∧
    ∀ session, w.store.listenerSessions.lookup sessionID = some session → session.status ≠ .active

abbrev World.Shows (w : World) : Prop :=
  Presence.Shows w.presence.listeners w.store.listenerSessions ListenerSession.roomID
    (·.status = .active)

theorem World.FilesSessions.shows_iff {w : World} (hw : w.FilesSessions) :
    w.ShowsListeners ↔ w.Shows := (Presence.shows_iff hw).symm

theorem World.Stale.not_shows {w : World} {roomID sessionID : String}
    (h : w.Stale roomID sessionID) : ¬ w.Shows := by
  intro hshows
  obtain ⟨session, hl, -, hactive⟩ := (hshows roomID sessionID).mp h.1
  exact h.2 session hl hactive

/-- The state after a round that ended `session` in `w`, before which no other
call of the presence store had failed. -/
structure Ends (session : ListenerSession) (w w' : World) : Prop where
  sessions : w'.store.listenerSessions = w.store.listenerSessions.insert session.id session
  marks : w'.presence.listeners = Presence.unmark w.presence.listeners session.roomID session.id
  events : w.store.events ⊆ w'.store.events
  reports : session.status = .expired → w'.Reports session

/-- A round that ends `session`: either it is cut off by the presence store, or
the session is ended in both stores. -/
def EndsOrCut (session : ListenerSession) (h : List VoiceExchange) (w : World)
    (h' : List VoiceExchange) (r : Except AppError Unit) (w' : World) : Prop :=
  (PresenceFailed h' ∧ (∃ e, r = .error e) ∧
      w' = { w with store := (StoreCall.saveListenerSession session).apply w.store }) ∨
    ((PresenceFailed h' → PresenceFailed h) ∧ Ends session w w')

section Round

variable {s : Service} {I : Infra} {w : World} {h : List VoiceExchange}

theorem presenceFailed_cons {x : VoiceExchange} (hx : ∀ c e, x ≠ ⟨.presence c, .error e⟩) :
    PresenceFailed (x :: h) → PresenceFailed h := by
  rintro ⟨c, e, hmem⟩
  rcases List.mem_cons.mp hmem with heq | hmem
  · exact absurd heq.symm (hx c e)
  · exact ⟨c, e, hmem⟩

/-- A session is saved and its mark taken out; then the round goes on. -/
theorem ensures_ended (hI : I.KeepsStore) (hs : s.hasPresence = true) {session : ListenerSession}
    {rest : Unit → Action Unit}
    (hrest : ∀ h₁, (PresenceFailed h₁ → PresenceFailed h) →
      Ensures (S := effects) (World.exec I) (EndsOrCut session h w) h₁
        { w with
          store := (StoreCall.saveListenerSession session).apply w.store
          presence :=
            (w.presence.step (.markListenerInactive session.roomID session.id)).2 } (rest ())) :
    Ensures (S := effects) (World.exec I) (EndsOrCut session h w) h w
      ((store (.saveListenerSession session)).bind fun _ =>
        (s.presenceDo (.markListenerInactive session.roomID session.id)).bind rest) := by
  rw [store, bind_assoc]
  intro env a w₁ hx
  rcases World.exec_write id hx with ⟨hf, -⟩ | ⟨⟨x, rfl⟩, rfl⟩
  · cases hf.symm.trans (hI _)
  simp only [ofExcept_ok, ret_bind, presenceDo, hs, if_true, present, bind_eq, pure_eq, bind_assoc]
  intro env a w₂ hx
  rcases World.exec_cases hx with ⟨-, -, ha, rfl⟩ | ⟨-, hp⟩
  · cases ha
    exact .inl ⟨⟨_, _, List.mem_cons_self⟩, ⟨_, rfl⟩, rfl⟩
  · cases hp
    refine hrest _ (presenceFailed_cons ?_ ∘ presenceFailed_cons ?_)
    · rintro c e ⟨⟩
    · rintro c e ⟨⟩

/-- Publishing an event calls no presence store, and the event is in the log. -/
theorem ensures_published (hI : I.KeepsStore)
    {eventType roomID actorUserID targetUserID correlationID : String} {payload : Payload} :
    Ensures (S := effects) (World.exec I)
      (fun h' _ w' => (PresenceFailed h' → PresenceFailed h) ∧
        w'.store.listenerSessions = w.store.listenerSessions ∧ w'.presence = w.presence ∧
        w.store.events ⊆ w'.store.events ∧
        ∃ event ∈ w'.store.events, event.eventType = eventType ∧ event.payload = payload) h w
      (publish eventType roomID actorUserID targetUserID correlationID payload) := by
  have hcalls : Follows (S := effects) (fun _ c => ∀ pc, c ≠ .presence pc) anyResult h
      (publish eventType roomID actorUserID targetUserID correlationID payload) := by
    rw [← bind_ret (publish eventType _ _ _ _ _)]
    simp [publish, bind_assoc, follows_fresh, follows_now, follows_store, follows_ask,
      follows_ofExcept]
  have hends : Ensures (S := effects) (World.exec I)
      (fun _ _ w' => w'.store.listenerSessions = w.store.listenerSessions ∧
        w'.presence = w.presence ∧ w.store.events ⊆ w'.store.events ∧
        ∃ event ∈ w'.store.events, event.eventType = eventType ∧ event.payload = payload) h w
      (publish eventType roomID actorUserID targetUserID correlationID payload) := by
    rw [← bind_ret (publish eventType _ _ _ _ _)]
    refine ensures_publish hI (fun u t h => ?_) fun u t h e _ => ?_
    · exact ⟨rfl, rfl, List.subset_append_left _ _, _, List.mem_concat_self, rfl, rfl⟩
    · exact ⟨rfl, rfl, List.subset_append_left _ _, _, List.mem_concat_self, rfl, rfl⟩
  refine (((hcalls.exchanges fun x hx => .inl hx).ensures w).and hends).mono ?_
  rintro h' r w' ⟨⟨hnew, -⟩, hw'⟩
  refine ⟨?_, hw'⟩
  rintro ⟨c, e, hx⟩
  rcases hnew _ hx with hx | hx
  · exact ⟨c, e, hx⟩
  · exact absurd rfl (hx c)

/-- A round that expires a session and says so. -/
theorem ensures_expired (hI : I.KeepsStore) (hs : s.hasPresence = true)
    {session : ListenerSession} {roomID actorUserID targetUserID correlationID : String} :
    Ensures (S := effects) (World.exec I) (EndsOrCut session h w) h w
      ((store (.saveListenerSession session)).bind fun _ =>
        (s.presenceDo (.markListenerInactive session.roomID session.id)).bind fun _ =>
          publish eventListenerSessionExpired roomID actorUserID targetUserID correlationID
            (.listenerSession session)) := by
  refine ensures_ended hI hs fun h₁ hh₁ => (ensures_published hI).mono ?_
  rintro h' r w' ⟨hh', hsessions, hpresence, hevents, hreport⟩
  exact .inr ⟨hh₁ ∘ hh', hsessions, congrArg Presence.listeners hpresence, hevents,
    fun _ => hreport⟩

/-- A round that only ends a session. -/
theorem ensures_left (hI : I.KeepsStore) (hs : s.hasPresence = true)
    {session : ListenerSession} (hstatus : session.status ≠ .expired) :
    Ensures (S := effects) (World.exec I) (EndsOrCut session h w) h w
      ((store (.saveListenerSession session)).bind fun _ =>
        s.presenceDo (.markListenerInactive session.roomID session.id)) := by
  rw [← bind_ret (s.presenceDo _)]
  refine ensures_ended hI hs fun h₁ hh₁ => ?_
  exact .inr ⟨hh₁, rfl, rfl, List.Subset.refl _, fun hexpired => absurd hexpired hstatus⟩

end Round

/-! ## One execution -/

/-- The sessions are stored and active, and none is listed twice. -/
structure World.Lists (w : World) (sessions : List ListenerSession) : Prop where
  nodup : (sessions.map (·.id)).Nodup
  stored : ∀ session ∈ sessions, w.store.listenerSessions.lookup session.id = some session
  active : ∀ session ∈ sessions, session.status = .active

/-- What an execution that started in `w` does: a stale mark remains; where
there is none, it either leaves one or does its work. -/
structure Execution (w₀ w : World) (h : List VoiceExchange) (w' : World) : Prop where
  files : w'.FilesSessions
  stale : ∀ roomID sessionID, w.Stale roomID sessionID → w'.Stale roomID sessionID
  works : w.Shows → w₀.ReportsSince w →
    (PresenceFailed h ∧ ∃ roomID sessionID, w'.Stale roomID sessionID) ∨
      (¬ PresenceFailed h ∧ w'.Shows ∧ w₀.ReportsSince w')

section Loop

variable {I : Infra} {w₀ w w' : World} {session ended : ListenerSession}
  {sessions : List ListenerSession} {h h' : List VoiceExchange} {r : Except AppError Unit}

theorem EndsOrCut.sessions_eq (hr : EndsOrCut ended h w h' r w') :
    w'.store.listenerSessions = w.store.listenerSessions.insert ended.id ended := by
  rcases hr with ⟨-, -, rfl⟩ | ⟨-, hends⟩
  · rfl
  · exact hends.sessions

theorem EndsOrCut.files (hr : EndsOrCut ended h w h' r w') (hw : w.FilesSessions) :
    w'.FilesSessions := by
  intro k session hl
  rw [hr.sessions_eq, Table.lookup_insert_ite] at hl
  split at hl
  · cases hl
    exact Eq.symm ‹_›
  · exact hw k session hl

theorem EndsOrCut.lookup_ne (hr : EndsOrCut ended h w h' r w') {sessionID : String}
    (hid : sessionID ≠ ended.id) :
    w'.store.listenerSessions.lookup sessionID = w.store.listenerSessions.lookup sessionID := by
  rw [hr.sessions_eq, Table.lookup_insert_ite, if_neg hid]

/-- A round takes no other mark out than that of its session. -/
theorem EndsOrCut.stale (hr : EndsOrCut ended h w h' r w') {roomID sessionID : String}
    (hid : sessionID ≠ ended.id) (hstale : w.Stale roomID sessionID) :
    w'.Stale roomID sessionID := by
  refine ⟨?_, by rw [hr.lookup_ne hid]; exact hstale.2⟩
  rcases hr with ⟨-, -, rfl⟩ | ⟨-, hends⟩
  · exact hstale.1
  · rw [hends.marks, Presence.members_unmark]
    split
    · exact Finset.mem_erase.mpr ⟨hid, hstale.1⟩
    · exact hstale.1

/-- An active session that is saved as ended, and whose mark remains, is stale. -/
theorem stale_of_cut (hw : w.Shows) (hl : w.store.listenerSessions.lookup session.id = some session)
    (hactive : session.status = .active) (hid : ended.id = session.id)
    (hended : ended.status ≠ .active)
    (hw' : w' = { w with store := (StoreCall.saveListenerSession ended).apply w.store }) :
    w'.Stale session.roomID session.id := by
  subst hw'
  refine ⟨(hw _ _).mpr ⟨session, hl, rfl, hactive⟩, fun session' hl' => ?_⟩
  have hsaved :
      (w.store.listenerSessions.insert ended.id ended).lookup session.id = some ended := by
    rw [hid, Finmap.lookup_insert]
  cases hsaved.symm.trans hl'
  exact hended

theorem Ends.shows (hends : Ends ended w w') (hw : w.Shows)
    (hl : w.store.listenerSessions.lookup ended.id = some session)
    (hroom : session.roomID = ended.roomID) (hended : ended.status ≠ .active) : w'.Shows := by
  rw [World.Shows, hends.sessions, hends.marks]
  refine Presence.Shows.unmark hw hended fun session' hl' => ?_
  cases hl.symm.trans hl'
  exact hroom

theorem Ends.reportsSince (hends : Ends ended w w') (hw : w₀.ReportsSince w) :
    w₀.ReportsSince w' := by
  intro id session hl hexpired hnew
  rw [hends.sessions, Table.lookup_insert_ite] at hl
  split at hl
  · cases hl
    exact hends.reports hexpired
  · obtain ⟨event, hevent, htype⟩ := hw id session hl hexpired hnew
    exact ⟨event, hends.events hevent, htype⟩

/-- The loop has ended the sessions `done` of those that were listed in `w`,
and no call of the presence store has failed. -/
structure Cleaning (w₀ w : World) (sessions done : List ListenerSession)
    (h : List VoiceExchange) (w' : World) : Prop where
  files : w'.FilesSessions
  stale : ∀ roomID sessionID, w.Stale roomID sessionID → w'.Stale roomID sessionID
  works : w.Shows → w₀.ReportsSince w → ¬ PresenceFailed h ∧ w'.Shows ∧ w₀.ReportsSince w'
  left : ∀ session ∈ sessions, session ∉ done →
    w'.store.listenerSessions.lookup session.id = some session

theorem Cleaning.execution {done : List ListenerSession} (hc : Cleaning w₀ w sessions done h w') :
    Execution w₀ w h w' :=
  ⟨hc.files, hc.stale, fun hs hr => .inr (hc.works hs hr)⟩

theorem World.Lists.not_stale (hw : w.Lists sessions) (hs : session ∈ sessions)
    {roomID : String} : ¬ w.Stale roomID session.id :=
  fun hstale => hstale.2 session (hw.stored session hs) (hw.active session hs)

/-- **Loop.** An execution whose rounds end the listed sessions. -/
theorem ensures_cleanup {α : Type} (hlists : w.Lists sessions) (hfiles : w.FilesSessions)
    (hh : ¬ PresenceFailed h) (ends : ListenerSession → ListenerSession)
    (hid : ∀ session, (ends session).id = session.id)
    (hroom : ∀ session, (ends session).roomID = session.roomID)
    (hstatus : ∀ session, (ends session).status ≠ .active) {f : ListenerSession → Action Unit}
    (round : ∀ session ∈ sessions, ∀ h w,
      Ensures (S := effects) (World.exec I) (EndsOrCut (ends session) h w) h w (f session))
    (a : α) :
    Ensures (S := effects) (World.exec I) (fun h' _ w' => Execution w₀ w h' w') h w
      ((forEach sessions f).bind fun _ => .ret a) := by
  rw [ensures_bind]
  refine ensures_forEach (Cleaning w₀ w sessions) [] h w ?_ ?_ fun h w' hc => hc.execution
  · exact ⟨hfiles, fun _ _ hs => hs, fun hs hr => ⟨hh, hs, hr⟩, fun x hx _ => hlists.stored x hx⟩
  intro done x rest hxs h₁ w₁ hc
  have hx : x ∈ sessions := by simp [hxs]
  have hdone : x ∉ done := by
    have hnodup := hlists.nodup.of_map
    rw [hxs] at hnodup
    exact fun hmem => List.disjoint_of_nodup_append hnodup hmem List.mem_cons_self
  have hl : w₁.store.listenerSessions.lookup x.id = some x := hc.left x hx hdone
  refine (round x hx h₁ w₁).mono fun h' r w' hr => ?_
  have hfiles' : w'.FilesSessions := hr.files hc.files
  have hstale' : ∀ roomID sessionID, w.Stale roomID sessionID → w'.Stale roomID sessionID := by
    intro roomID sessionID hs
    refine hr.stale ?_ (hc.stale roomID sessionID hs)
    rintro rfl
    rw [hid] at hs
    exact hlists.not_stale hx hs
  have hleft' : ∀ y ∈ sessions, y ∉ done ++ [x] →
      w'.store.listenerSessions.lookup y.id = some y := by
    intro y hy hout
    obtain ⟨hout, hne⟩ : y ∉ done ∧ y ≠ x := by simpa using hout
    rw [hr.lookup_ne]
    · exact hc.left y hy hout
    · rw [hid]
      exact fun heq => hne (List.inj_on_of_nodup_map hlists.nodup hy hx heq)
  rcases hr with ⟨hfail, ⟨e, rfl⟩, hcut⟩ | ⟨hkept, hends⟩
  · refine ⟨hfiles', hstale', fun hs hrep => .inl ⟨hfail, x.roomID, x.id, ?_⟩⟩
    exact stale_of_cut (hc.works hs hrep).2.1 hl (hlists.active x hx) (hid x) (hstatus x) hcut
  · have hc' : Cleaning w₀ w sessions (done ++ [x]) h' w' := by
      refine ⟨hfiles', hstale', fun hs hrep => ?_, hleft'⟩
      obtain ⟨hno, hshows, hreports⟩ := hc.works hs hrep
      refine ⟨hno ∘ hkept, hends.shows hshows ?_ (hroom x).symm (hstatus x),
        hends.reportsSince hreports⟩
      rw [hid]
      exact hl
    cases r with
    | ok _ => exact hc'
    | error e => exact hc'.execution

end Loop

section Executions

variable {s : Service} {I : Infra} {w₀ w : World}

theorem World.FilesSessions.lists (hw : w.FilesSessions) {order : List String}
    {stored sessions : List ListenerSession}
    (hr : w.store.listenerSessions.range order = some stored) (hsub : sessions.Sublist stored)
    (hactive : ∀ session ∈ sessions, session.status = .active) : w.Lists sessions := by
  refine ⟨(hsub.map _).nodup (Table.nodup_range hw hr), fun session hs => ?_, hactive⟩
  obtain ⟨k, hl⟩ := (Table.mem_range hr session).mp (hsub.subset hs)
  rw [hw k session hl]
  exact hl

/-- `sessions` are those of the store that satisfy `P`, each listed once. -/
structure World.Selects (w : World) (P : ListenerSession → Prop) (sessions : List ListenerSession) :
    Prop where
  mem_iff : ∀ session, session ∈ sessions ↔
    w.store.listenerSessions.lookup session.id = some session ∧ P session
  nodup : (sessions.map (·.id)).Nodup

theorem World.FilesSessions.selects (hw : w.FilesSessions) {order : List String}
    {stored : List ListenerSession} (hr : w.store.listenerSessions.range order = some stored)
    (f : ListenerSession → Bool) {P : ListenerSession → Prop}
    (hf : ∀ session, f session = true ↔ P session) : w.Selects P (stored.filter f) := by
  refine ⟨fun session => ?_, (List.filter_sublist.map _).nodup (Table.nodup_range hw hr)⟩
  rw [List.mem_filter, Table.mem_range hr, hf]
  refine and_congr_left fun _ => ⟨?_, fun hl => ⟨_, hl⟩⟩
  rintro ⟨k, hl⟩
  exact hw k session hl ▸ hl

theorem World.Selects.lists {P : ListenerSession → Prop} {sessions : List ListenerSession}
    (h : w.Selects P sessions) (hP : ∀ session, P session → session.status = .active) :
    w.Lists sessions :=
  ⟨h.nodup, fun session hs => ((h.mem_iff session).mp hs).1,
    fun session hs => hP session ((h.mem_iff session).mp hs).2⟩

theorem World.exec_selectActive (hw : w.FilesSessions) {env : Env} {roomID : String}
    {sessions : List ListenerSession} {w' : World}
    (h : World.exec I env (.store (.listActiveListenerSessions roomID)) w =
      some (.ok sessions, w')) :
    w.Selects (fun x => x.roomID = roomID ∧ x.status = .active) sessions := by
  obtain ⟨st, hst, -⟩ := World.exec_store_ok h
  obtain ⟨stored, hr, heq⟩ := Option.map_eq_some_iff.mp hst
  cases heq
  exact hw.selects hr _ (by simp)

theorem World.exec_listStale (hw : w.FilesSessions) {env : Env} {cutoff : Time} {limit : Int}
    {sessions : List ListenerSession} {w' : World}
    (h : World.exec I env (.store (.listStaleListenerSessions cutoff limit)) w =
      some (.ok sessions, w')) : w.Lists sessions := by
  obtain ⟨st, hst, -⟩ := World.exec_store_ok h
  obtain ⟨stored, hr, heq⟩ := Option.map_eq_some_iff.mp hst
  have hactive : ∀ session ∈ stored.filter fun x =>
      x.status = .active && x.lastHeartbeatAt < cutoff, session.status = .active := by
    intro session hs
    have hboth := (List.mem_filter.mp hs).2
    simp only [Bool.and_eq_true, decide_eq_true_eq] at hboth
    exact hboth.1
  dsimp only at heq
  split at heq
  · cases heq
    refine hw.lists hr ((List.take_sublist _ _).trans List.filter_sublist) fun session hs => ?_
    exact hactive session (List.mem_of_mem_take hs)
  · cases heq
    exact hw.lists hr List.filter_sublist hactive

/-- An execution that could not select its sessions. -/
theorem Execution.refused {h : List VoiceExchange} (hw : w.FilesSessions)
    (hh : ¬ PresenceFailed h) : Execution w₀ w h w :=
  ⟨hw, fun _ _ hs => hs, fun hs hr => .inr ⟨hh, hs, hr⟩⟩

theorem not_presenceFailed_nil : ¬ PresenceFailed [] := by
  rintro ⟨c, e, hmem⟩
  cases hmem

/-- An execution begins with selecting its sessions. -/
theorem ensures_selected {α : Type} {c : StoreCall} (hc : c.IsRead) (hw : w.FilesSessions)
    {f : c.Result → Action α}
    (hok : ∀ env x h, World.exec I env (.store c) w = some (.ok x, w) → ¬ PresenceFailed h →
      Ensures (S := effects) (World.exec I) (fun h' _ w' => Execution w₀ w h' w') h w (f x)) :
    Ensures (S := effects) (World.exec I) (fun h' _ w' => Execution w₀ w h' w') [] w
      (Program.bind (α := no_index c.Result) (store c) f) := by
  rw [store, bind_assoc]
  intro env a w₁ hx
  obtain rfl := World.exec_read hc hx
  have hno : ¬ PresenceFailed [⟨Effect.store c, a⟩] := by
    refine not_presenceFailed_nil ∘ presenceFailed_cons ?_
    rintro c e ⟨⟩
  cases a with
  | ok x => exact hok env x _ hx hno
  | error e => exact .refused hw hno

theorem closeRoomSessions_executes (hI : I.KeepsStore) (hs : s.hasPresence = true)
    (hw : w.FilesSessions) (roomID : String) (endedAt : Time) (correlationID : String) :
    Ensures (S := effects) (World.exec I) (fun h' _ w' => Execution w₀ w h' w') [] w
      (s.program (.closeRoomSessions roomID endedAt correlationID)) := by
  simp only [Service.program, closeRoomSessions, map_eq, bind_eq, bind_assoc]
  refine ensures_selected (c := .listActiveListenerSessions roomID) trivial hw
    fun env sessions h hx hno => ?_
  have hsel := World.exec_selectActive hw hx
  refine ensures_cleanup (hsel.lists fun _ => And.right) hw hno
    (endedSession · .left "room_finished" endedAt)
    (fun _ => rfl) (fun _ => rfl) (by simp [endedSession]) (fun session hsession h w => ?_) _
  rw [← ((hsel.mem_iff session).mp hsession).2.1]
  exact ensures_left hI hs (by simp [endedSession])

theorem expireStaleListenerSessions_executes (hI : I.KeepsStore) (hs : s.hasPresence = true)
    (hw : w.FilesSessions) (cutoff : Time) (limit : Int) (correlationID : String) :
    Ensures (S := effects) (World.exec I) (fun h' _ w' => Execution w₀ w h' w') [] w
      (s.program (.expireStaleListenerSessions cutoff limit correlationID)) := by
  simp only [Service.program, expireStaleListenerSessions, map_eq, bind_eq, pure_eq, bind_assoc,
    ret_bind]
  refine ensures_selected (c := .listStaleListenerSessions _ _) trivial hw
    fun env sessions h hx hno => ?_
  have hlists := World.exec_listStale hw hx
  rw [Action.now, ask, perform_bind]
  intro env t w₁ hx
  obtain rfl : w₁ = w := by
    rcases World.exec_cases hx with ⟨-, -, hn, -⟩ | ⟨-, hx⟩
    · cases hn
    · cases hx
      rfl
  have hno' : ¬ PresenceFailed (⟨Effect.now, t⟩ :: h) := by
    refine hno ∘ presenceFailed_cons ?_
    rintro c e ⟨⟩
  exact ensures_cleanup hlists hw hno' (endedSession · .expired "heartbeat_timeout" t)
    (fun _ => rfl) (fun _ => rfl) (by simp [endedSession])
    (fun session _ h w => ensures_expired hI hs) _

theorem Cleanup.Runs.executes (hI : I.KeepsStore) (hs : s.hasPresence = true)
    (hw : w.FilesSessions) {job : Cleanup} {cmd : Command} (hrun : job.Runs cmd) :
    Ensures (S := effects) (World.exec I) (fun h' _ w' => Execution w₀ w h' w') [] w
      (s.program cmd) := by
  cases job with
  | closeRoom roomID =>
    cases cmd with
    | closeRoomSessions roomID' endedAt correlationID =>
      exact closeRoomSessions_executes hI hs hw roomID' endedAt correlationID
    | _ => cases hrun
  | expire cutoff =>
    cases cmd with
    | expireStaleListenerSessions cutoff' limit correlationID =>
      exact expireStaleListenerSessions_executes hI hs hw cutoff' limit correlationID
    | _ => cases hrun

end Executions

/-! ## All executions -/

/-- The entries of the executions of a job and what became of the state. -/
theorem perform_executes {s : Service} {I : Infra} (hI : I.KeepsStore)
    (hs : s.hasPresence = true) {job : Cleanup} {cmd : Command} {envs : List Env}
    {p q : VoicePool} (hrun : job.Runs cmd) (hq : (s.system I).perform (cmd, envs) p = some q)
    (hp : p.state.FilesSessions) (w₀ : World) : ∃ es : List VoiceEntry, q.trace = es ++ p.trace ∧
      Execution w₀ p.state (es.map (·.exchange)) q.state := by
  obtain ⟨o, -⟩ := System.perform_outcome hq (program_asks s cmd)
  exact ⟨o.entries, o.trace_eq, System.perform_ensures hq o (hrun.executes hI hs hp)⟩

theorem presenceFailed_append {h h' : List VoiceExchange} :
    PresenceFailed (h ++ h') ↔ PresenceFailed h ∨ PresenceFailed h' := by
  simp only [PresenceFailed, List.mem_append, exists_or]

/-- Executions that follow each other are like one. -/
theorem Execution.trans {w₀ w w₁ w₂ : World} {h h' : List VoiceExchange}
    (h₁ : Execution w₀ w h w₁) (h₂ : Execution w₀ w₁ h' w₂) : Execution w₀ w (h' ++ h) w₂ := by
  refine ⟨h₂.files, fun _ _ hs => h₂.stale _ _ (h₁.stale _ _ hs), fun hs hr => ?_⟩
  rw [presenceFailed_append]
  rcases h₁.works hs hr with ⟨hfail, roomID, sessionID, hstale⟩ | ⟨hno, hs₁, hr₁⟩
  · exact .inl ⟨.inr hfail, roomID, sessionID, h₂.stale _ _ hstale⟩
  · rcases h₂.works hs₁ hr₁ with ⟨hfail, hstale⟩ | ⟨hno', hs₂, hr₂⟩
    · exact .inl ⟨.inl hfail, hstale⟩
    · exact .inr ⟨not_or.mpr ⟨hno', hno⟩, hs₂, hr₂⟩

theorem Retries.executes {s : Service} {I : Infra} (hI : I.KeepsStore)
    (hs : s.hasPresence = true) {job : Cleanup} {p q : VoicePool} (hretries : Retries s I job p q)
    (hp : p.state.FilesSessions) (w₀ : World) : ∃ es : List VoiceEntry, q.trace = es ++ p.trace ∧
      Execution w₀ p.state (es.map (·.exchange)) q.state := by
  induction hretries with
  | done hrun hq _ => exact perform_executes hI hs hrun hq hp w₀
  | again hrun hp' _ _ ih =>
    obtain ⟨es, ht, hx⟩ := perform_executes hI hs hrun hp' hp w₀
    obtain ⟨es', ht', hx'⟩ := ih hx.files
    refine ⟨es' ++ es, by rw [ht', ht, List.append_assoc], ?_⟩
    rw [List.map_append]
    exact hx.trans hx'

/-- **Cleanup converges iff the presence store does not fail.** From every state
in which the presence store shows the active sessions, a cleanup job that is run
again after each error until an execution succeeds leaves both stores in
agreement and every expired session reported exactly when none of the calls of
the presence store has failed. -/
theorem cleanup_converges_iff (s : Service) (I : Infra) (hs : s.hasPresence = true)
    (hI : I.KeepsStore) (job : Cleanup) (p q : VoicePool) (hretries : Retries s I job p q)
    (hfiles : p.state.FilesSessions) (hshows : p.state.ShowsListeners) (es : List VoiceEntry)
    (hes : q.trace = es ++ p.trace) :
    p.state.Converged q.state ↔ ∀ e ∈ es, ∀ c err, e.exchange ≠ ⟨.presence c, .error err⟩ := by
  obtain ⟨es', hes', hx⟩ := hretries.executes hI hs hfiles p.state
  obtain rfl := List.append_cancel_right (hes.symm.trans hes')
  have hfailed : PresenceFailed (es.map (·.exchange)) ↔
      ¬ ∀ e ∈ es, ∀ c err, e.exchange ≠ ⟨.presence c, .error err⟩ := by
    simp only [PresenceFailed, List.mem_map]
    push Not
    tauto
  have hnone : p.state.ReportsSince p.state :=
    fun id session hl hexpired hnew => absurd hexpired (hnew session hl)
  rcases hx.works (hfiles.shows_iff.mp hshows) hnone with ⟨hfail, _, _, hstale⟩ | ⟨hno, hq, hr⟩
  · refine iff_of_false (fun hc => ?_) (hfailed.mp hfail)
    exact hstale.not_shows (hx.files.shows_iff.mp hc.shows)
  · exact iff_of_true ⟨hx.files.shows_iff.mpr hq, hr⟩ (not_not.mp (mt hfailed.mpr hno))

/-! ## A silent listener -/

/-- The exchange is a call of the presence store that has failed. -/
def presenceErrs : VoiceExchange → Bool
  | ⟨.presence _, .error _⟩ => true
  | _ => false

/-- Stores that do not fail, and a presence store and a bus that may. -/
def flakyPresence : Infra :=
  sampleInfra fun e => match e with
    | .presence _ => true
    | .publish _ => true
    | _ => false

theorem flakyPresence_keepsStore : flakyPresence.KeepsStore := fun _ => rfl

/-- One execution that expires the silent listeners. -/
def expireSilent (envs : List Env) : VoiceJob :=
  (.expireStaleListenerSessions 1 250 "", visiting [guestSession] ++ envs)

/-- The first execution fails and the second succeeds. -/
theorem exists_retries (envs : List Env) (ok : VoicePool → Bool)
    (hrun : ((sampleService.system flakyEdge).serial (openRoom ++ [guestJoins])).any (fun p =>
      ((sampleService.system flakyPresence).perform (expireSilent envs) p).any fun p' =>
        lastFailed p' &&
        ((sampleService.system flakyPresence).perform (expireSilent (plain 1)) p').any fun q =>
          !lastFailed q && ok q) = true) :
    ∃ p q, Retries sampleService flakyPresence (.expire 1) p q ∧ p.state.FilesSessions ∧
      p.state.ShowsListeners ∧ ok q = true := by
  obtain ⟨p, hp, hfirst⟩ := (Option.any_eq_true _ _).mp hrun
  obtain ⟨p', hp', hfacts⟩ := (Option.any_eq_true _ _).mp hfirst
  obtain ⟨hfail, hsecond⟩ := Bool.and_eq_true_iff.mp hfacts
  obtain ⟨q, hq, hfacts⟩ := (Option.any_eq_true _ _).mp hsecond
  obtain ⟨hdone, hok⟩ := Bool.and_eq_true_iff.mp hfacts
  obtain ⟨e, herror⟩ := threads_of_lastFailed hp' hfail
  obtain ⟨reply, hreply⟩ := threads_of_not_lastFailed hq (by simpa using hdone)
  obtain ⟨ms, hms⟩ := System.serial_isRun hp
  have hfiles : p.state.FilesSessions := (run_keyed hms).listenerSessions.ident_eq
  have hruns : ∀ envs, (Cleanup.expire 1).Runs (expireSilent envs).1 := fun _ => rfl
  refine ⟨p, q, .again (hruns _) hp' herror (.done (hruns _) hq hreply), hfiles,
    hfiles.shows_iff.mpr ?_, hok⟩
  exact ((serial_reaches flakyEdge_keepsStore hp).agrees rfl flakyEdge_keepsPresence
    Ledger.agrees_empty).listeners

/-- The mark of an expired listener stays: the first execution could not take it
out, and the second does not find the session among the active ones. -/
theorem cleanup_converges_fails :
    ¬ ∀ (s : Service) (I : Infra), s.hasPresence = true → I.KeepsStore → ∀ (job : Cleanup)
      (p q : VoicePool), Retries s I job p q → p.state.FilesSessions → p.state.ShowsListeners →
      p.state.Converged q.state := by
  intro hclaim
  obtain ⟨p, q, hretries, hfiles, hshows, hok⟩ := exists_retries (plain 2 ++ [failingEnv])
    (fun q => guestSession ∈ Presence.members q.state.presence.listeners sampleRoom &&
      (q.state.store.listenerSessions.lookup guestSession).all (·.status ≠ .active))
    (by decide +kernel)
  obtain ⟨hmark, hended⟩ := Bool.and_eq_true_iff.mp hok
  have hstale : q.state.Stale sampleRoom guestSession := by
    refine ⟨of_decide_eq_true hmark, fun session hl => ?_⟩
    rw [hl] at hended
    exact of_decide_eq_true hended
  obtain ⟨es, -, hx⟩ := hretries.executes flakyPresence_keepsStore rfl hfiles p.state
  have hc := hclaim _ _ rfl flakyPresence_keepsStore _ p q hretries hfiles hshows
  exact hstale.not_shows (hx.files.shows_iff.mp hc.shows)

/-- An event that the bus did not accept is in the log all the same. -/
theorem cleanup_converges_unheard :
    ∃ p q, Retries sampleService flakyPresence (.expire 1) p q ∧
      (q.state.store.listenerSessions.lookup guestSession).any (·.status = .expired) = true ∧
      p.state.Converged q.state := by
  obtain ⟨p, q, hretries, hfiles, hshows, hok⟩ := exists_retries
    (plain 3 ++ drawing 6 ++ plain 2 ++ [failingEnv])
    (fun q => (q.state.store.listenerSessions.lookup guestSession).any (·.status = .expired) &&
      q.trace.all fun e => !presenceErrs e.exchange)
    (by decide +kernel)
  obtain ⟨hexpired, hcalm⟩ := Bool.and_eq_true_iff.mp hok
  obtain ⟨es, hes, -⟩ := hretries.executes flakyPresence_keepsStore rfl hfiles p.state
  refine ⟨p, q, hretries, hexpired, (cleanup_converges_iff _ _ rfl flakyPresence_keepsStore _ p q
    hretries hfiles hshows es hes).mpr fun e he c err hx => ?_⟩
  have hmem : e ∈ q.trace := by simp [hes, he]
  simpa [hx, presenceErrs] using List.all_eq_true.mp hcalm e hmem

end WaveCast
