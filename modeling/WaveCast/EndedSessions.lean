import WaveCast.Confinement
import WaveCast.LostUpdates
import WaveCast.SessionChanges

/-!
# How a session ended

`LeaveListener` does not look at the status of the session it is given. While
commands run one after the other it is the only one that can rewrite how a
session ended, so the ends on record stay as they are iff no session leaves
that has ended already (`endings_stay_iff`).
-/

namespace WaveCast

open Interaction WaveCast.Action Program Service

/-- How and when a session ended, and who ended it. -/
structure Ending where
  status : ListenerSessionStatus
  leftAt : Option Time
  leaveType : String
  removedBy : String
  removeReason : String
  deriving DecidableEq

def ListenerSession.ending (session : ListenerSession) : Ending :=
  ⟨session.status, session.leftAt, session.leaveType, session.removedBy, session.removeReason⟩

/-- In a sequential run, the end of a session that has ended never changes. -/
def EndingsStay (s : Service) (I : Infra) (jobs : List VoiceJob) : Prop :=
  ∀ pre mid p q k session, pre ++ mid <+: jobs → (s.system I).serial pre = some p →
    (s.system I).serial (pre ++ mid) = some q →
    p.state.store.listenerSessions.lookup k = some session → session.status ≠ .active →
    ∃ session', q.state.store.listenerSessions.lookup k = some session' ∧
      session'.ending = session.ending

/-- A session that leaves when it has ended had left before, at the same time
and in the same way. -/
def NoSecondLeave (t : List VoiceEntry) : Prop :=
  Always (fun older e => ∀ c k saved session now, e.cmd = .leaveListener c →
    sessionSaves e = some (k, saved) → ⟨.now, now⟩ ∈ threadHistory e.thread older →
    lastWrite sessionSaves k older = some session → session.status ≠ .active →
    session.status = .left ∧ session.leftAt = some now ∧
      session.leaveType = trimSpace c.leaveType) t

variable {s : Service} {I : Infra} {jobs : List VoiceJob} {p q : VoicePool}

/-- In a sequential run, a session leaves from where it was stored last. -/
theorem serial_leaves (h : (s.system I).serial jobs = some p) :
    Always (fun older e => ∀ c k session, e.cmd = .leaveListener c →
      sessionSaves e = some (k, session) → ∃ now session₀,
        (∀ now', ⟨.now, now'⟩ ∈ threadHistory e.thread older ↔ now' = now) ∧
        (∀ f ∈ older, f.thread = e.thread → sessionSaves f = none) ∧
        lastWrite sessionSaves k older = some session₀ ∧
        session = endedSession session₀ .left (trimSpace c.leaveType) now) p.trace := by
  obtain ⟨ms, hms⟩ := System.serial_isRun h
  have hasks := run_asks hms
  have hcoh := sessions_coherent (System.run_replays hms)
  rw [always_iff]
  intro newer e older ht c k session hcmd hw
  obtain ⟨hx, rfl⟩ := savedListenerSession_eq_some.mp hw
  have ht' := ht
  rw [ht] at hasks hcoh
  have hsave := hasks.at
  rw [hx, hcmd] at hsave
  obtain ⟨now, session₀, hh, -, -, rfl⟩ := hsave
  have hown : ∀ f ∈ older, f.thread = e.thread → sessionSaves f = none := by
    intro f hf hi
    have hmem : f.exchange ∈ threadHistory e.thread older :=
      mem_threadHistory.mpr ⟨f, hf, hi, rfl⟩
    rw [hh] at hmem
    rcases List.mem_cons.mp hmem with hfx | hmem
    · simp [sessionSaves, hfx, savedListenerSession]
    · simp [sessionSaves, List.mem_singleton.mp hmem, savedListenerSession]
  have hmem : (⟨.store (.getListenerSession c.sessionID), .ok session₀⟩ : VoiceExchange) ∈
      threadHistory e.thread older := by simp [hh]
  obtain ⟨mid, r, rest, rfl, hi, hr⟩ := exists_read hmem
  -- nothing comes between the read and the save but calls of the command
  have hmid := System.serial_between h ht hi
  have hread := (show Coherent sessionSaves sessionReads _ from
    hcoh.of_append.2.of_append).1 _ _ (readListenerSession_eq_some.mpr hr)
  have hlast : lastWrite sessionSaves c.sessionID (mid ++ r :: rest) = some session₀ := by
    rw [lastWrite_append_quiet fun f hf => hown f (by simp [hf]) (hmid f hf),
      lastWrite_cons_other (by simp [hown r (by simp) hi]), hread]
  have hid : session₀.id = c.sessionID := stored_session_id hlast
  exact ⟨now, session₀, by simp [hh], hown, hid ▸ hlast, rfl⟩

/-- What a leave saves under `k` is what is stored there after the command, and
it replaces what was there before. -/
theorem CommandRun.left {c : LeaveListenerCommand} {envs : List Env}
    {o : System.Outcome (s.system I) p (.leaveListener c, envs) q}
    (r : CommandRun s I p q (.leaveListener c, envs) o)
    (hq : (s.system I).serial jobs = some q) {newer older : List VoiceEntry} {e : VoiceEntry}
    (ht : o.entries = newer ++ e :: older) {k : String} {session : ListenerSession}
    (hw : sessionSaves e = some (k, session)) :
    q.state.store.listenerSessions.lookup k = some session ∧
      lastWrite sessionSaves k (older ++ p.trace) = p.state.store.listenerSessions.lookup k := by
  have hown : ∀ f ∈ o.entries, f.thread = p.threads.length ∧ f.cmd = .leaveListener c :=
    fun f hf => ⟨(o.own f hf).1, (o.own f hf).2.1⟩
  have hthread : ∀ f ∈ o.entries, f.thread = e.thread := fun f hf =>
    (hown f hf).1.trans (hown e (by simp [ht])).1.symm
  have hleaves := serial_leaves hq
  have htrace : q.trace = newer ++ e :: (older ++ p.trace) := by simp [o.trace_eq, ht]
  rw [htrace] at hleaves
  have hold : ∀ f ∈ older, sessionSaves f = none := by
    obtain ⟨-, -, -, hno, -⟩ := hleaves.at c k session (hown e (by simp [ht])).2 hw
    exact fun f hf => hno f (by simp [hf]) (hthread f (by simp [ht, hf]))
  have hnew : ∀ f ∈ newer, sessionSaves f = none := by
    intro f hf
    refine Option.eq_none_iff_forall_ne_some.mpr fun ⟨k', session'⟩ hwf => ?_
    obtain ⟨n₁, n₂, rfl⟩ := List.append_of_mem hf
    rw [List.append_assoc, List.cons_append] at hleaves
    obtain ⟨-, -, -, hno, -⟩ := hleaves.at c k' session' (hown f (by simp [ht])).2 hwf
    rw [hno e (by simp) (hthread f (by simp [ht])).symm] at hw
    cases hw
  constructor
  · rw [lookup_listenerSessions r.replays_after, htrace, lastWrite_append_quiet hnew,
      lastWrite_cons_self hw]
  · rw [lastWrite_append_quiet hold, lookup_listenerSessions r.replays_before]

/-- A command keeps the end of a session when no leave rewrites it. -/
theorem ending_kept {cmd : Command} {envs : List Env}
    {o : System.Outcome (s.system I) p (cmd, envs) q} (r : CommandRun s I p q (cmd, envs) o)
    (hq : (s.system I).serial jobs = some q) (hc : NoSecondLeave q.trace) {k : String}
    {session : ListenerSession} (hl : p.state.store.listenerSessions.lookup k = some session)
    (hended : session.status ≠ .active) :
    ∃ session', q.state.store.listenerSessions.lookup k = some session' ∧
      session'.ending = session.ending := by
  have hview := o.view_eq (fun t w hw k => lookup_listenerSessions hw k) r.replays_before
    r.replays_after k
  cases hl' : q.state.store.listenerSessions.lookup k with
  | none =>
    rw [hl, hl'] at hview
    cases hlast : lastWrite sessionSaves k o.entries <;> simp [hlast] at hview
  | some session' =>
    refine ⟨session', rfl, ?_⟩
    rcases r.session_cases hl' with ⟨-, -, -, -, -, -, hnone, -⟩ | ⟨session₀, hl₀, -, hch⟩ | hkept
    · cases hl.symm.trans hnone
    · cases hl.symm.trans hl₀
      obtain ⟨c, rfl⟩ := hch.resolve_left hended
      rcases o.written_or_kept (fun t w hw k => lookup_listenerSessions hw k)
        r.replays_before r.replays_after hl' with ⟨newer, e, older, ht, hw⟩ | hkept
      · have htrace : q.trace = newer ++ e :: (older ++ p.trace) := by simp [o.trace_eq, ht]
        have hcmd := (o.own e (by simp [ht])).2.1
        have hleaves := serial_leaves hq
        rw [htrace] at hleaves hc
        obtain ⟨now, session₁, hnow, -, hlast, rfl⟩ := hleaves.at c k session' hcmd hw
        have hbefore := (r.left hq ht hw).2
        rw [hlast, hl] at hbefore
        cases hbefore
        obtain ⟨hst, hat, htype⟩ := hc.at c k _ session now hcmd hw ((hnow now).mpr rfl) hlast
          hended
        simp [ListenerSession.ending, endedSession, hst, hat, htype]
      · cases hl.symm.trans hkept
        rfl
    · cases hl.symm.trans hkept
      rfl

theorem endings_stay (h : (s.system I).serial jobs = some p) (hc : NoSecondLeave p.trace) :
    EndingsStay s I jobs := by
  rintro pre mid p₀ q k session ⟨post, rfl⟩ hp hq hl hended
  obtain ⟨newer, ht⟩ := System.serial_prefix h hq
  rw [ht] at hc
  have hcq : NoSecondLeave q.trace := Always.of_append hc
  clear ht hc h
  induction mid using List.reverseRecOn generalizing q with
  | nil =>
    rw [List.append_nil, hp] at hq
    cases hq
    exact ⟨session, hl, rfl⟩
  | append_singleton mid job ih =>
    obtain ⟨cmd, envs⟩ := job
    rw [← List.append_assoc] at hq
    obtain ⟨q₀, hq₀, hjob⟩ := System.serial_concat.mp hq
    obtain ⟨o, r⟩ := exists_commandRun hq₀ hjob
    have hc₀ := hcq
    rw [o.trace_eq] at hc₀
    obtain ⟨session₁, hl₁, heq₁⟩ := ih q₀ hq₀ (Always.of_append hc₀)
    have hended₁ : session₁.status ≠ .active := by
      rwa [show session₁.status = session.status from congrArg Ending.status heq₁]
    obtain ⟨session₂, hl₂, heq₂⟩ := ending_kept r hq hcq hl₁ hended₁
    exact ⟨session₂, hl₂, heq₂.trans heq₁⟩

theorem EndingsStay.of_append {post : List VoiceJob} (h : EndingsStay s I (jobs ++ post)) :
    EndingsStay s I jobs :=
  fun pre mid p q k session hpre => h pre mid p q k session (hpre.trans (List.prefix_append _ _))

/-- **Ended sessions are history** in a sequential run iff no session leaves
that has ended already, except as it had left before. -/
theorem endings_stay_iff (s : Service) (I : Infra) (jobs : List VoiceJob) (p : VoicePool)
    (h : (s.system I).serial jobs = some p) : EndingsStay s I jobs ↔ NoSecondLeave p.trace := by
  refine ⟨fun hstay => ?_, endings_stay h⟩
  induction jobs using List.reverseRecOn generalizing p with
  | nil => cases h; trivial
  | append_singleton jobs job ih =>
    obtain ⟨cmd, envs⟩ := job
    obtain ⟨p₀, hp₀, hjob⟩ := System.serial_concat.mp h
    obtain ⟨o, r⟩ := exists_commandRun hp₀ hjob
    rw [NoSecondLeave, o.trace_eq, always_append]
    refine ⟨?_, ih p₀ hp₀ hstay.of_append⟩
    intro newer e older ht c k saved session now hcmd hw hnow hlast hended
    obtain rfl : cmd = .leaveListener c := (o.own e (by simp [ht])).2.1.symm.trans hcmd
    obtain ⟨hafter, hbefore⟩ := r.left h ht hw
    have hleaves := serial_leaves h
    rw [o.trace_eq, ht, List.append_assoc, List.cons_append] at hleaves
    obtain ⟨now', session₀, hnow', -, hlast', rfl⟩ := hleaves.at c k saved hcmd hw
    cases hlast.symm.trans hlast'
    obtain rfl := (hnow' now).mp hnow
    obtain ⟨session', hl', heq⟩ := hstay jobs [_] p₀ p k session List.prefix_rfl hp₀ h
      (hbefore.symm.trans hlast) hended
    cases hafter.symm.trans hl'
    exact ⟨(congrArg Ending.status heq).symm, (congrArg Ending.leftAt heq).symm,
      (congrArg Ending.leaveType heq).symm⟩

/-- A moderator removes the guest who listens. -/
def guestRemoved : VoiceJob :=
  (.removeParticipant ⟨sampleRoom, "moderator", "guest", "spam", ""⟩,
    plain 1 ++ visiting [guestSession] ++ plain 3 ++ publishing 7)

theorem endings_stay_fails :
    ¬ ∀ (s : Service) (I : Infra) (jobs : List VoiceJob) (p : VoicePool),
      (s.system I).serial jobs = some p → EndingsStay s I jobs := by
  intro hclaim
  have hremoved : ((sampleService.system (sampleInfra fun _ => false)).serial
      (openRoom ++ [guestJoins, guestRemoved])).any (fun p =>
        (p.state.store.listenerSessions.lookup guestSession).any (·.status = .removed)) = true := by
    decide +kernel
  have hleft : ((sampleService.system (sampleInfra fun _ => false)).serial
      (openRoom ++ [guestJoins, guestRemoved] ++ [guestLeaves])).any (fun p =>
        (p.state.store.listenerSessions.lookup guestSession).any (·.status = .left)) = true := by
    decide +kernel
  obtain ⟨p, hp, hsession⟩ := (Option.any_eq_true _ _).mp hremoved
  obtain ⟨q, hq, hsession'⟩ := (Option.any_eq_true _ _).mp hleft
  obtain ⟨session, hl, hst⟩ := (Option.any_eq_true _ _).mp hsession
  obtain ⟨session', hl', hst'⟩ := (Option.any_eq_true _ _).mp hsession'
  obtain ⟨session'', hl'', heq⟩ := hclaim _ _ _ q hq _ _ p q guestSession session List.prefix_rfl
    hp hq hl (by rw [of_decide_eq_true hst]; decide)
  cases hl'.symm.trans hl''
  have hst'' := congrArg Ending.status heq
  simp only [ListenerSession.ending, of_decide_eq_true hst, of_decide_eq_true hst'] at hst''
  cases hst''

/-- Where a session that has ended is saved last of all, nobody leaves it again. -/
theorem EndedLast.noSecondLeave {t : List VoiceEntry} (h : EndedLast t) : NoSecondLeave t := by
  refine h.mono fun older e hlast c k saved session now _ hs _ hstored hended => ?_
  obtain ⟨f, hf, hw⟩ := exists_write_of_lastWrite hstored
  have hactive := hlast (by rw [hs]; rfl) f hf
  rw [hw, Option.all_some] at hactive
  exact absurd (of_decide_eq_true hactive) hended

theorem endings_stay_removed :
    ∃ p, (sampleService.system (sampleInfra fun _ => false)).serial
        (openRoom ++ [guestJoins, guestRemoved]) = some p ∧
      (p.state.store.listenerSessions.lookup guestSession).any (·.status = .removed) = true ∧
      EndingsStay sampleService (sampleInfra fun _ => false)
        (openRoom ++ [guestJoins, guestRemoved]) := by
  have hrun : ((sampleService.system (sampleInfra fun _ => false)).serial
      (openRoom ++ [guestJoins, guestRemoved])).any (fun p =>
        (p.state.store.listenerSessions.lookup guestSession).any (·.status = .removed) ∧
          EndedLast p.trace) = true := by
    decide +kernel
  obtain ⟨p, hp, hfacts⟩ := (Option.any_eq_true _ _).mp hrun
  obtain ⟨hremoved, hlast⟩ := of_decide_eq_true hfacts
  exact ⟨p, hp, hremoved, (endings_stay_iff _ _ _ p hp).mpr hlast.noSecondLeave⟩

end WaveCast
