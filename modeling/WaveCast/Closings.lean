import WaveCast.Rounds
import WaveCast.Interaction.Steps

/-!
# Closing a room more than once

The job that closes the sessions of a room may be executed several times, and
each execution may stop after any part of the sessions it listed. Each execution
ends a first part of the room's active sessions, whatever fails in it
(`closeRoomSessions_closes`). So once an execution reaches its end, every
session that was active has been ended by exactly one of the executions
(`closings_converge`).
-/

namespace WaveCast

open Interaction WaveCast.Action Program Service

/-- The session as an execution with this end time leaves it. -/
abbrev ListenerSession.closed (session : ListenerSession) (endedAt : Time) : ListenerSession :=
  endedSession session .left "room_finished" endedAt

/-- The session is an active one of the room. -/
def ListenerSession.OpenIn (session : ListenerSession) (roomID : String) : Prop :=
  session.roomID = roomID ∧ session.status = .active

/-- An execution of `CloseRoomSessions`. -/
structure Closing where
  endedAt : Time
  correlationID : String
  envs : List Env

def Closing.job (roomID : String) (c : Closing) : VoiceJob :=
  (.closeRoomSessions roomID c.endedAt c.correlationID, c.envs)

/-! ## One execution -/

/-- No listener session of the room is active. -/
def World.NoneOpen (w : World) (roomID : String) : Prop :=
  ∀ k session, w.store.listenerSessions.lookup k = some session → ¬ session.OpenIn roomID

/-- What an execution does to the sessions, whether it reaches its end or not. -/
structure ClosesSome (roomID : String) (endedAt : Time) (w w' : World) : Prop where
  listed : ∀ k session, w.store.listenerSessions.lookup k = some session → session.OpenIn roomID →
    w'.store.listenerSessions.lookup k = some session ∨
      w'.store.listenerSessions.lookup k = some (session.closed endedAt)
  kept : ∀ k, (∀ session, w.store.listenerSessions.lookup k = some session →
      ¬ session.OpenIn roomID) →
    w'.store.listenerSessions.lookup k = w.store.listenerSessions.lookup k
  participantSessions : w'.store.participantSessions = w.store.participantSessions
  idle : w.NoneOpen roomID → w' = w

section Execution

variable {s : Service} {I : Infra} {w w' : World} {h : List VoiceExchange} {roomID : String}

theorem ClosesSome.refl (roomID : String) (endedAt : Time) (w : World) :
    ClosesSome roomID endedAt w w :=
  ⟨fun _ _ hl _ => .inl hl, fun _ _ => rfl, rfl, fun _ => rfl⟩

/-- A round saves its session as ended, unless saving fails. -/
theorem ensures_saves {session : ListenerSession} {c : PresenceCall} :
    Ensures (S := effects) (World.exec I)
      (fun _ r w' => Saves session w w' ∨ (∃ e, r = .error e) ∧ w' = w) h w
      ((store (.saveListenerSession session)).bind fun _ => s.presenceDo c) := by
  refine ensures_write id (fun _ h => ?_) fun _ _ e => .inr ⟨⟨e, rfl⟩, rfl⟩
  rw [← bind_ret (s.presenceDo c)]
  exact ensures_presenceDo (fun _ => .inl ⟨rfl, rfl⟩) fun _ _ _ _ _ => .inl ⟨rfl, rfl⟩

variable {endedAt : Time} {sessions done rest : List ListenerSession}

theorem ClosesSome.files (h : ClosesSome roomID endedAt w w') (hw : w.FilesSessions) :
    w'.FilesSessions := by
  intro k session hl
  by_cases hopen : ∃ session₀, w.store.listenerSessions.lookup k = some session₀ ∧
      session₀.OpenIn roomID
  · obtain ⟨session₀, hl₀, hopen⟩ := hopen
    have hid := hw k session₀ hl₀
    rcases h.listed k session₀ hl₀ hopen with hl' | hl' <;> cases hl'.symm.trans hl <;> exact hid
  · rw [h.kept k fun session₀ hl₀ ho => hopen ⟨session₀, hl₀, ho⟩] at hl
    exact hw k session hl

theorem lookup_closed (hw : w.FilesSessions)
    (hsel : w.Selects (fun x => x.roomID = roomID ∧ x.status = .active) (done ++ rest))
    (hsteps : Steps (fun x => Saves (x.closed endedAt)) done w w') {k : String}
    {session : ListenerSession} (hl : w.store.listenerSessions.lookup k = some session)
    (hdone : session ∈ done) :
    w'.store.listenerSessions.lookup k = some (session.closed endedAt) := by
  have hnodup := hsel.nodup
  rw [List.map_append] at hnodup
  rw [← hw k session hl]
  exact Saves.lookup_ended hsteps hnodup.of_append_left hdone

/-- The sessions that were listed and those that were ended. -/
theorem closesSome_of_steps (hw : w.FilesSessions)
    (hsel : w.Selects (fun x => x.roomID = roomID ∧ x.status = .active) (done ++ rest))
    (hsteps : Steps (fun x => Saves (x.closed endedAt)) done w w') :
    ClosesSome roomID endedAt w w' := by
  have hstored : ∀ x ∈ done, w.store.listenerSessions.lookup x.id = some x ∧ x.OpenIn roomID :=
    fun x hx => (hsel.mem_iff x).mp (List.mem_append_left _ hx)
  refine ⟨fun k session hl hopen => ?_, fun k hk => ?_, Saves.participantSessions_eq hsteps,
    fun hnone => ?_⟩
  · by_cases hdone : session ∈ done
    · exact .inr (lookup_closed hw hsel hsteps hl hdone)
    · refine .inl ((Saves.lookup_other hsteps fun x hx hid => hdone ?_).trans hl)
      have hsame := (hstored x hx).1
      rw [show x.id = k from hid, hl] at hsame
      cases hsame
      exact hx
  · refine Saves.lookup_other hsteps fun x hx hid => ?_
    exact hk x ((show x.id = k from hid) ▸ (hstored x hx).1) (hstored x hx).2
  · cases hsteps with
    | nil => rfl
    | @cons x xs _ w₁ _ hx _ =>
      obtain ⟨hl, hopen⟩ := hstored x List.mem_cons_self
      exact absurd hopen (hnone x.id x hl)

/-- Once all the sessions that were listed are ended, none is active. -/
theorem noneOpen_of_steps (hw : w.FilesSessions)
    (hsel : w.Selects (fun x => x.roomID = roomID ∧ x.status = .active) sessions)
    (hsteps : Steps (fun x => Saves (x.closed endedAt)) sessions w w') : w'.NoneOpen roomID := by
  rw [← List.append_nil sessions] at hsel
  intro k session hl hopen
  by_cases hlisted : ∃ session₀, w.store.listenerSessions.lookup k = some session₀ ∧
      session₀.OpenIn roomID
  · obtain ⟨session₀, hl₀, hopen₀⟩ := hlisted
    have hmem := (hsel.mem_iff session₀).mpr ⟨(hw k session₀ hl₀).symm ▸ hl₀, hopen₀⟩
    rw [List.append_nil] at hmem
    cases hl.symm.trans (lookup_closed hw hsel hsteps hl₀ hmem)
    cases hopen.2
  · rw [(closesSome_of_steps hw hsel hsteps).kept k fun session₀ hl₀ ho =>
      hlisted ⟨session₀, hl₀, ho⟩] at hl
    exact hlisted ⟨session, hl, hopen⟩

/-- **Execution.** Whatever fails, an execution ends a part of the room's active
sessions; it ends all of them if it reaches its end. -/
theorem closeRoomSessions_closes (hw : w.FilesSessions) (endedAt : Time) (correlationID : String) :
    Ensures (S := effects) (World.exec I)
      (fun _ r w' => ClosesSome roomID endedAt w w' ∧
        ((∃ reply, r = .ok reply) → w'.NoneOpen roomID)) [] w
      (s.program (.closeRoomSessions roomID endedAt correlationID)) := by
  simp only [Service.program, closeRoomSessions, map_eq, bind_eq, bind_assoc]
  refine ensures_read (c := .listActiveListenerSessions roomID) trivial
    (fun env sessions h hx => ?_) fun _ e => ⟨.refl roomID endedAt w, ?_⟩
  · have hsel := World.exec_selectActive hw hx
    rw [ensures_bind]
    refine (ensures_forEach_first (R := fun x : ListenerSession => Saves (x.closed endedAt))
      (fun _ _ _ _ => ensures_saves) h w).mono ?_
    rintro h' r w' ⟨done, rest, rfl, hsteps, hall⟩
    have hsome := closesSome_of_steps hw hsel hsteps
    cases r with
    | error e => exact ⟨hsome, by rintro ⟨reply, hr⟩; cases hr⟩
    | ok a =>
      obtain rfl := hall rfl
      rw [List.append_nil] at hsel
      exact ⟨hsome, fun _ => noneOpen_of_steps hw hsel hsteps⟩
  · rintro ⟨reply, hr⟩
    cases hr

end Execution

/-! ## Any number of executions -/

/-- One of the executions has ended the session, which was as in `p` until then. -/
def EndedBy (s : Service) (I : Infra) (roomID : String) (closings : List Closing) (p q : VoicePool)
    (k : String) (session : ListenerSession) : Prop :=
  ∃ pre c post p₁ p₂, closings = pre ++ c :: post ∧
    (s.system I).performAll (pre.map (Closing.job roomID)) p = some p₁ ∧
    (s.system I).perform (c.job roomID) p₁ = some p₂ ∧
    p₁.state.store.listenerSessions.lookup k = some session ∧
    p₂.state.store.listenerSessions.lookup k = some (session.closed c.endedAt) ∧
    q.state.store.listenerSessions.lookup k = some (session.closed c.endedAt)

/-- What executions that may each have stopped early have done to the sessions. -/
structure PartlyClosed (s : Service) (I : Infra) (roomID : String) (closings : List Closing)
    (p q : VoicePool) : Prop where
  files : q.state.FilesSessions
  listed : ∀ k session, p.state.store.listenerSessions.lookup k = some session →
    session.OpenIn roomID → q.state.store.listenerSessions.lookup k = some session ∨
      EndedBy s I roomID closings p q k session
  kept : ∀ k, (∀ session, p.state.store.listenerSessions.lookup k = some session →
      ¬ session.OpenIn roomID) →
    q.state.store.listenerSessions.lookup k = p.state.store.listenerSessions.lookup k
  participantSessions : q.state.store.participantSessions = p.state.store.participantSessions

/-- The room is closed: each session that was active was ended by one of the
executions, the others are as they were, and further executions change nothing. -/
structure RoomClosed (s : Service) (I : Infra) (roomID : String) (closings : List Closing)
    (p q : VoicePool) : Prop where
  ended : ∀ k session, p.state.store.listenerSessions.lookup k = some session →
    session.OpenIn roomID → EndedBy s I roomID closings p q k session
  kept : ∀ k, (∀ session, p.state.store.listenerSessions.lookup k = some session →
      ¬ session.OpenIn roomID) →
    q.state.store.listenerSessions.lookup k = p.state.store.listenerSessions.lookup k
  participantSessions : q.state.store.participantSessions = p.state.store.participantSessions
  settled : ∀ (more : List Closing) q',
    (s.system I).performAll (more.map (Closing.job roomID)) q = some q' → q'.state = q.state

section Executions

variable {s : Service} {I : Infra} {p p' q : VoicePool} {roomID : String} {c : Closing}
  {closings : List Closing}

theorem perform_closes (hp : p.state.FilesSessions)
    (hq : (s.system I).perform (c.job roomID) p = some q) :
    ClosesSome roomID c.endedAt p.state q.state ∧
      ∀ reply, q.threads = p.threads ++ [⟨(c.job roomID).1, .ret reply⟩] →
        q.state.NoneOpen roomID := by
  obtain ⟨o⟩ := System.exists_outcome hq
  obtain ⟨hsome, hall⟩ := System.perform_ensures hq o
    (closeRoomSessions_closes (s := s) hp c.endedAt c.correlationID)
  refine ⟨hsome, fun reply hreply => hall ?_⟩
  have hthreads := o.threads_eq
  rw [hreply] at hthreads
  cases hr : o.result with
  | ok reply => exact ⟨reply, rfl⟩
  | error e => simp [hr] at hthreads

/-- A session that was ended stays as it is in the next execution. -/
theorem EndedBy.concat {k : String} {session : ListenerSession}
    (h : EndedBy s I roomID closings p p' k session)
    (hq : ClosesSome roomID c.endedAt p'.state q.state) :
    EndedBy s I roomID (closings ++ [c]) p q k session := by
  obtain ⟨pre, c₁, post, p₁, p₂, rfl, hp₁, hp₂, hl₁, hl₂, hl⟩ := h
  refine ⟨pre, c₁, post ++ [c], p₁, p₂, by simp, hp₁, hp₂, hl₁, hl₂, ?_⟩
  rw [hq.kept k, hl]
  intro session' hl' hopen
  cases hl.symm.trans hl'
  cases hopen.2

/-- **Step.** One more execution. -/
theorem PartlyClosed.concat (h : PartlyClosed s I roomID closings p p')
    (hp' : (s.system I).performAll (closings.map (Closing.job roomID)) p = some p')
    (hq : (s.system I).perform (c.job roomID) p' = some q) :
    PartlyClosed s I roomID (closings ++ [c]) p q := by
  obtain ⟨hsome, -⟩ := perform_closes h.files hq
  refine ⟨hsome.files h.files, fun k session hl hopen => ?_, fun k hk => ?_,
    hsome.participantSessions.trans h.participantSessions⟩
  · rcases h.listed k session hl hopen with hl' | hended
    · rcases hsome.listed k session hl' hopen with hsame | hclosed
      · exact .inl hsame
      · exact .inr ⟨closings, c, [], p', q, rfl, hp', hq, hl', hclosed, hclosed⟩
    · exact .inr (hended.concat hsome)
  · have hsame := h.kept k hk
    rw [hsome.kept k, hsame]
    rwa [hsame]

/-- **Run.** -/
theorem partlyClosed (hp : p.state.FilesSessions)
    (hq : (s.system I).performAll (closings.map (Closing.job roomID)) p = some q) :
    PartlyClosed s I roomID closings p q := by
  induction closings using List.reverseRecOn generalizing q with
  | nil =>
    cases hq
    exact ⟨hp, fun _ _ hl _ => .inl hl, fun _ _ => rfl, rfl⟩
  | append_singleton closings c ih =>
    rw [List.map_append, List.map_singleton] at hq
    obtain ⟨p', hp', hq⟩ := System.performAll_concat.mp hq
    exact (ih hp').concat hp' hq

/-- Executions on a room without active sessions change nothing. -/
theorem closings_idle (hp : p.state.FilesSessions) (hnone : p.state.NoneOpen roomID)
    (hq : (s.system I).performAll (closings.map (Closing.job roomID)) p = some q) :
    q.state = p.state := by
  induction closings generalizing p with
  | nil =>
    cases hq
    rfl
  | cons c closings ih =>
    obtain ⟨p₁, hp₁, hq⟩ := Option.bind_eq_some_iff.mp hq
    have hsame := (perform_closes hp hp₁).1.idle hnone
    rw [← hsame] at hp hnone ⊢
    exact ih hp hnone hq

/-- **Closing a room is safe under at-least-once execution.** However many
executions stop early, at whatever call, once one reaches its end every session
that was active has left at the end time of the execution that ended it. -/
theorem closings_converge (s : Service) (I : Infra) (roomID : String) (p p' q : VoicePool)
    (hp : p.state.FilesSessions) (closings : List Closing) (last : Closing) (reply : Reply)
    (hp' : (s.system I).performAll (closings.map (Closing.job roomID)) p = some p')
    (hq : (s.system I).perform (last.job roomID) p' = some q)
    (hreply : q.threads = p'.threads ++ [⟨(last.job roomID).1, .ret reply⟩]) :
    RoomClosed s I roomID (closings ++ [last]) p q := by
  have hpartly := (partlyClosed hp hp').concat hp' hq
  have hnone := (perform_closes (partlyClosed hp hp').files hq).2 reply hreply
  refine ⟨fun k session hl hopen => ?_, hpartly.kept, hpartly.participantSessions,
    fun more q' hq' => closings_idle hpartly.files hnone hq'⟩
  rcases hpartly.listed k session hl hopen with hsame | hended
  · exact absurd hopen (hnone k session hsame)
  · exact hended

end Executions

/-- A deployment in which saving a listener session may fail, and nothing else. -/
def flakySessions : Infra :=
  sampleInfra fun e => match e with
    | .store (.saveListenerSession _) => true
    | _ => false

def visitorSession : String := newID prefixListenerSession (sampleUlid 6)

def visitorJoins : VoiceJob :=
  (.joinRoom ⟨sampleRoom, "visitor", ""⟩, plain 3 ++ drawing 6 ++ plain 2 ++ publishing 7)

/-- An execution that ends the guest's session and fails to save the visitor's. -/
def closesGuest : Closing :=
  ⟨5, "", visiting [guestSession, visitorSession] ++ plain 2 ++ [failingEnv]⟩

/-- The next execution finds the visitor's session only. -/
def closesVisitor : Closing :=
  ⟨6, "", visiting [guestSession, visitorSession] ++ plain 2⟩

private theorem twoClosings :
    ((sampleService.system flakySessions).serial (openRoom ++ [guestJoins, visitorJoins])).any
      (fun p => ((sampleService.system flakySessions).performAll
        [closesGuest.job sampleRoom] p).any fun p' =>
          lastFailed p' && ((sampleService.system flakySessions).perform
            (closesVisitor.job sampleRoom) p').any fun q => !lastFailed q &&
              [guestSession, visitorSession].all fun k =>
                (p.state.store.listenerSessions.lookup k).any fun session =>
                  session.roomID = sampleRoom && session.status = .active) = true := by
  decide +kernel

theorem closings_converge_twice :
    ∃ p q, (∀ k ∈ [guestSession, visitorSession], ∃ session,
        p.state.store.listenerSessions.lookup k = some session ∧ session.OpenIn sampleRoom) ∧
      RoomClosed sampleService flakySessions sampleRoom [closesGuest, closesVisitor] p q := by
  obtain ⟨p, hp, hfacts⟩ := (Option.any_eq_true _ _).mp twoClosings
  obtain ⟨p', hp', hfacts⟩ := (Option.any_eq_true _ _).mp hfacts
  obtain ⟨q, hq, hfacts⟩ := (Option.any_eq_true _ _).mp (Bool.and_eq_true_iff.mp hfacts).2
  obtain ⟨hdone, hopen⟩ := Bool.and_eq_true_iff.mp hfacts
  obtain ⟨reply, hreply⟩ := threads_of_not_lastFailed hq (by simpa using hdone)
  obtain ⟨ms, hms⟩ := System.serial_isRun hp
  refine ⟨p, q, fun k hk => ?_, closings_converge _ _ _ p p' q
    (run_keyed hms).listenerSessions.ident_eq [closesGuest] closesVisitor reply hp' hq hreply⟩
  obtain ⟨session, hl, hactive⟩ := (Option.any_eq_true _ _).mp (List.all_eq_true.mp hopen k hk)
  obtain ⟨hroom, hstatus⟩ := Bool.and_eq_true_iff.mp hactive
  exact ⟨session, hl, of_decide_eq_true hroom, of_decide_eq_true hstatus⟩

end WaveCast
