import WaveCast.Confinement
import WaveCast.SessionChanges

/-!
# Live listeners

`ExpireStaleListenerSessions` lists the silent sessions first and then saves
each of them as it was listed. A heartbeat that comes in between is lost. While
nobody but heartbeats and one expiry saves sessions, the expiry only ends
sessions that are silent at that moment iff the last heartbeat of each since
the listing read the clock before the cutoff (`live_listeners_iff`).
-/

namespace WaveCast

open Interaction WaveCast.Action Program Service

instance (e : Effect) : Decidable e.ListsSessions :=
  match e with
  | .store (.listActiveListenerSessions _) => .isTrue trivial
  | .store (.listActiveListenerSessionsByUser _ _) => .isTrue trivial
  | .store (.listStaleListenerSessions _ _) => .isTrue trivial
  | .store (.saveRoom _) | .store (.getRoom _) | .store (.saveListenerSession _)
  | .store (.getListenerSession _) | .store (.countActiveListeners _)
  | .store (.saveParticipantSession _) | .store (.countActiveParticipantSessions _)
  | .store (.saveSpeakerRequest _) | .store (.getSpeakerRequest _)
  | .store (.findPendingSpeakerRequest _ _) | .store (.findApprovedSpeakerRequest _ _)
  | .store (.saveSpeakingBlock _) | .store (.getActiveSpeakingBlock _ _)
  | .store (.saveRecording _) | .store (.getRecording _) | .store (.listRecordings _)
  | .store (.saveReport _) | .store (.getReport _) | .store (.reportStats _)
  | .store (.appendEvent _) | .now | .newID _ | .presence _ | .publish _ | .enqueue _
  | .issueSpeakerToken _ | .connectionToken _ | .subscriptionToken _ _ | .playbackURL _ _ =>
    .isFalse id

def Command.isHeartbeat : Command → Bool
  | .listenerHeartbeat _ => true
  | _ => false

theorem Command.isHeartbeat_iff (cmd : Command) :
    cmd.isHeartbeat = true ↔ ∃ c, cmd = .listenerHeartbeat c := by
  cases cmd <;> simp [isHeartbeat]

/-- Thread `i` has listed sessions. -/
def HasListed (i : ℕ) (t : List VoiceEntry) : Prop :=
  ∃ r ∈ t, r.thread = i ∧ r.exchange.call.ListsSessions

instance (i : ℕ) (t : List VoiceEntry) : Decidable (HasListed i t) :=
  inferInstanceAs (Decidable (∃ r ∈ t, r.thread = i ∧ r.exchange.call.ListsSessions))

/-- Since thread `i` listed the sessions, nobody else but heartbeats has saved any. -/
def OnlyHeartbeats (i : ℕ) (t : List VoiceEntry) : Prop :=
  Always (fun older e => HasListed i older → e.thread ≠ i → (sessionSaves e).isSome →
    e.cmd.isHeartbeat = true) t

instance (i : ℕ) (t : List VoiceEntry) : Decidable (OnlyHeartbeats i t) :=
  inferInstanceAs (Decidable (Always _ t))

/-- When thread `i` saves a session, the one that is stored has sent its last
heartbeat before the cutoff. -/
def LiveNotExpired (s : Service) (I : Infra) (i : ℕ) (cutoff : Time) (t : List VoiceEntry) : Prop :=
  Always (fun older e => ∀ k session w, e.thread = i → sessionSaves e = some (k, session) →
    (s.system I).Replays older w →
    ∃ stored, w.store.listenerSessions.lookup k = some stored ∧ stored.lastHeartbeatAt < cutoff) t

/-- When thread `i` saves a session that a heartbeat has saved since the
listing, the last such heartbeat read the clock before the cutoff. -/
def NoLiveHeartbeat (i : ℕ) (cutoff : Time) (t : List VoiceEntry) : Prop :=
  Always (fun older e => ∀ k session mid f rest c saved now, e.thread = i →
    sessionSaves e = some (k, session) → older = mid ++ f :: rest → HasListed i rest →
    f.cmd = .listenerHeartbeat c → sessionSaves f = some (k, saved) →
    (∀ g ∈ mid, ∀ v, sessionSaves g ≠ some (k, v)) → ⟨.now, now⟩ ∈ threadHistory f.thread rest →
    now < cutoff) t

section Live

variable {s : Service} {I : Infra} {ms : List VoiceMove} {p : VoicePool} {i : ℕ} {cutoff : Time}
  {limit : Int} {correlationID : String}

/-- What the expiry saves was silent when it was listed. -/
theorem expiry_listed (h : (s.system I).run ms = some p) {rest : Program effects AppError Reply}
    (hi : p.threads[i]? = some ⟨.expireStaleListenerSessions cutoff limit correlationID, rest⟩) :
    Always (fun older e => ∀ k session, e.thread = i → sessionSaves e = some (k, session) →
      session.lastHeartbeatAt < cutoff ∧ ∃ mid r rest session₀, older = mid ++ r :: rest ∧
        r.thread = i ∧ r.exchange.call.ListsSessions ∧ session₀.lastHeartbeatAt < cutoff ∧
        lastWrite sessionSaves k (r :: rest) = some session₀) p.trace := by
  rw [always_iff]
  intro newer e older ht k session hthread hw
  have hasks := run_asks h
  have hrep := System.run_replays h
  obtain ⟨_, hcmd⟩ := System.run_threads h e (by simp [ht])
  rw [hthread, hi] at hcmd
  obtain ⟨hcmd, -⟩ := Thread.mk.inj (Option.some.inj hcmd)
  rw [ht] at hasks hrep
  obtain ⟨w₁, w₀, hrep, -⟩ := hrep.of_append
  obtain ⟨hx, rfl⟩ := savedListenerSession_eq_some.mp hw
  have hsave := hasks.at
  rw [hx, ← hcmd] at hsave
  obtain ⟨t, sessions, session₀, hlist, -, hs, rfl⟩ := hsave
  obtain ⟨mid, r, rest, rfl, hr, hrx⟩ := exists_read hlist
  obtain ⟨w₂, w₃, h₃, hexec⟩ := hrep.of_append
  obtain ⟨j, cmd, env, x⟩ := r
  obtain rfl : x = _ := hrx
  obtain ⟨k, hk⟩ := World.exec_listed hexec hs
  obtain ⟨-, hbefore⟩ := World.exec_lists hexec hs
  rw [lookup_listenerSessions h₃] at hk
  have hid := stored_session_id hk
  refine ⟨hbefore, mid, _, rest, session₀, rfl, hr.trans hthread, trivial, hbefore, ?_⟩
  rw [lastWrite_cons_other (by simp [savedListenerSession])]
  exact (show session₀.id = k from hid) ▸ hk

/-- A heartbeat stores the time at which it read the clock. -/
theorem heartbeat_saved (h : (s.system I).run ms = some p) :
    Always (fun older e => ∀ c k session, e.cmd = .listenerHeartbeat c →
      sessionSaves e = some (k, session) →
      ∀ now, ⟨.now, now⟩ ∈ threadHistory e.thread older ↔ now = session.lastHeartbeatAt)
      p.trace := by
  refine (run_asks h).mono fun older e hasks c k session hcmd hw now => ?_
  obtain ⟨hx, rfl⟩ := savedListenerSession_eq_some.mp hw
  rw [hx, hcmd] at hasks
  obtain ⟨t, session₀, hh, -, -, -, rfl⟩ := hasks
  simp [hh, touchedSession]

end Live

/-- **A live listener is not expired** by an expiry that runs among heartbeats
iff the last heartbeat of each session it saves, if one was saved since the
listing, read the clock before the cutoff. -/
theorem live_listeners_iff (s : Service) (I : Infra) (ms : List VoiceMove) (p : VoicePool)
    (h : (s.system I).run ms = some p) (i : ℕ) (cutoff : Time) (limit : Int)
    (correlationID : String) (rest : Program effects AppError Reply)
    (hi : p.threads[i]? = some ⟨.expireStaleListenerSessions cutoff limit correlationID, rest⟩)
    (honly : OnlyHeartbeats i p.trace) :
    LiveNotExpired s I i cutoff p.trace ↔ NoLiveHeartbeat i cutoff p.trace := by
  have hbeat := heartbeat_saved h
  have hlisted := expiry_listed h hi
  have hrep := System.run_replays h
  rw [LiveNotExpired, NoLiveHeartbeat, always_iff, always_iff]
  refine forall_congr' fun newer => forall_congr' fun e => forall_congr' fun older =>
    forall_congr' fun ht => ?_
  rw [ht] at hbeat hlisted hrep honly
  obtain ⟨w₁, w, hw, -⟩ := hrep.of_append
  constructor
  · rintro hlive k session mid f rest c saved now hthread hsave rfl - hcmd hwf hlast hnow
    obtain ⟨stored, hl, hbefore⟩ := hlive k session w hthread hsave hw
    rw [lookup_listenerSessions hw, lastWrite_append_other hlast, lastWrite_cons_self hwf] at hl
    cases hl
    have hat := (hbeat.of_append.2.of_append).1 c k saved hcmd hwf
    rw [(hat now).mp hnow]
    exact hbefore
  · intro hno k session w' hthread hsave hw'
    cases hw.unique hw'
    obtain ⟨-, mid, r, rest, session₀, rfl, hr, hlists, hbefore, hl₀⟩ :=
      hlisted.at k session hthread hsave
    rw [lookup_listenerSessions hw, lastWrite_append, hl₀]
    cases hlast : lastWrite sessionSaves k mid with
    | none => exact ⟨session₀, rfl, hbefore⟩
    | some stored =>
      refine ⟨stored, rfl, ?_⟩
      obtain ⟨m₁, f, m₂, rfl, hwf, hlast⟩ := exists_last_write hlast
      have htrace : newer ++ e :: (m₁ ++ f :: m₂ ++ r :: rest) =
          (newer ++ e :: m₁) ++ f :: (m₂ ++ r :: rest) := by simp
      rw [htrace] at hbeat hlisted honly
      by_cases hf : f.thread = i
      · exact (hlisted.at k stored hf hwf).1
      · have hheart := honly.at ⟨r, by simp, hr, hlists⟩ hf (by simp [hwf])
        obtain ⟨c, hcmd⟩ := f.cmd.isHeartbeat_iff.mp hheart
        have hnow := (hbeat.at c k stored hcmd hwf _).mpr rfl
        exact hno k session m₁ f (m₂ ++ r :: rest) c stored stored.lastHeartbeatAt hthread hsave
          (by simp) ⟨r, by simp, hr, hlists⟩ hcmd hwf hlast hnow

/-- A guest listens, an expiry lists the session, and a heartbeat of the guest
saves it before the expiry reads the clock. -/
def heartbeatAfterListing (cutoff : Time) : List VoiceMove :=
  movesFrom 0 (openRoom ++ [guestJoins]) ++
  .start (.expireStaleListenerSessions cutoff 250 "") :: (visiting [guestSession]).map (.call 3) ++
  .start (.listenerHeartbeat ⟨sampleRoom, guestSession, "guest", ""⟩) ::
    (plain 1 ++ [sampleEnv 5 []] ++ plain 1).map (.call 4) ++ (plain 1).map (.call 3)

/-- The expiry saves the session. -/
def expiryMoves : List VoiceMove := (plain 1).map (.call 3)

/-- The newest call is an expiry's save of `k`. -/
def savesExpired (cutoff : Time) (k : String) (t : List VoiceEntry) : Bool :=
  t.head?.any fun e => e.thread = 3 && (sessionSaves e).any (·.1 = k) &&
    e.cmd = .expireStaleListenerSessions cutoff 250 ""

theorem live_listeners_fails :
    ¬ ∀ (s : Service) (I : Infra) (ms : List VoiceMove) (p : VoicePool),
      (s.system I).run ms = some p → ∀ (i : ℕ) (cutoff : Time) (limit : Int)
      (correlationID : String) (rest : Program effects AppError Reply),
      p.threads[i]? = some ⟨.expireStaleListenerSessions cutoff limit correlationID, rest⟩ →
      OnlyHeartbeats i p.trace → LiveNotExpired s I i cutoff p.trace := by
  intro hclaim
  have hrun : ((sampleService.system (sampleInfra fun _ => false)).run
      (heartbeatAfterListing 1 ++ expiryMoves)).any (fun p => OnlyHeartbeats 3 p.trace &&
        savesExpired 1 guestSession p.trace &&
        (lastWrite sessionSaves guestSession p.trace.tail).any (·.lastHeartbeatAt = 5)) = true := by
    decide +kernel
  obtain ⟨p, hp, hfacts⟩ := (Option.any_eq_true _ _).mp hrun
  obtain ⟨hfacts, hstored⟩ := Bool.and_eq_true_iff.mp hfacts
  obtain ⟨honly, hlast⟩ := Bool.and_eq_true_iff.mp hfacts
  obtain ⟨e, he, hsave⟩ := (Option.any_eq_true _ _).mp hlast
  obtain ⟨older, ht⟩ := List.head?_eq_some_iff.mp he
  obtain ⟨hsave, hcmd⟩ := Bool.and_eq_true_iff.mp hsave
  obtain ⟨hthread, hsave⟩ := Bool.and_eq_true_iff.mp hsave
  obtain ⟨⟨k, session⟩, hw, hk⟩ := (Option.any_eq_true _ _).mp hsave
  obtain rfl : k = guestSession := of_decide_eq_true hk
  obtain ⟨stored, hl, hat⟩ := (Option.any_eq_true _ _).mp hstored
  obtain ⟨rest, hi⟩ := System.run_threads hp e (by simp [ht])
  rw [of_decide_eq_true hthread, of_decide_eq_true hcmd] at hi
  have hrep := System.run_replays hp
  rw [ht] at hl hrep
  obtain ⟨w, hrep, -⟩ := hrep
  have hlive := hclaim _ _ _ p hp 3 1 250 "" rest hi (of_decide_eq_true honly)
  rw [ht] at hlive
  obtain ⟨stored', hl', hbefore⟩ := hlive.1 _ session w (of_decide_eq_true hthread) hw hrep
  rw [lookup_listenerSessions hrep] at hl'
  cases hl.symm.trans hl'
  rw [of_decide_eq_true hat] at hbefore
  exact absurd hbefore (by decide)

/-- A clock reading is before the cutoff. -/
def readsBefore (cutoff : Time) : VoiceExchange → Bool
  | ⟨.now, t⟩ => t < cutoff
  | _ => true

theorem noLiveHeartbeat_of_readsBefore {i : ℕ} {cutoff : Time} {t : List VoiceEntry}
    (h : t.all (readsBefore cutoff ·.exchange) = true) : NoLiveHeartbeat i cutoff t := by
  rw [NoLiveHeartbeat, always_iff]
  rintro newer e _ rfl k session mid f rest c saved now - - rfl - - - - hnow
  obtain ⟨g, hg, -, hx⟩ := mem_threadHistory.mp hnow
  have hbefore := List.all_eq_true.mp h g (by simp [hg])
  rw [hx] at hbefore
  exact of_decide_eq_true hbefore

/-- The heartbeat that comes in between is older than the cutoff. -/
theorem live_listeners_silent :
    ∃ p rest, (sampleService.system (sampleInfra fun _ => false)).run
        (heartbeatAfterListing 10 ++ expiryMoves) = some p ∧
      p.threads[3]? = some ⟨.expireStaleListenerSessions 10 250 "", rest⟩ ∧
      savesExpired 10 guestSession p.trace = true ∧
      LiveNotExpired sampleService (sampleInfra fun _ => false) 3 10 p.trace := by
  have hrun : ((sampleService.system (sampleInfra fun _ => false)).run
      (heartbeatAfterListing 10 ++ expiryMoves)).any (fun p =>
        OnlyHeartbeats 3 p.trace && p.trace.all (readsBefore 10 ·.exchange) &&
          savesExpired 10 guestSession p.trace) = true := by
    decide +kernel
  obtain ⟨p, hp, hfacts⟩ := (Option.any_eq_true _ _).mp hrun
  obtain ⟨hfacts, hsaves⟩ := Bool.and_eq_true_iff.mp hfacts
  obtain ⟨honly, hreads⟩ := Bool.and_eq_true_iff.mp hfacts
  obtain ⟨e, he, hfacts⟩ := (Option.any_eq_true _ _).mp hsaves
  obtain ⟨hfacts, hcmd⟩ := Bool.and_eq_true_iff.mp hfacts
  obtain ⟨hthread, -⟩ := Bool.and_eq_true_iff.mp hfacts
  obtain ⟨rest, hi⟩ := System.run_threads hp e (List.mem_of_mem_head? he)
  rw [of_decide_eq_true hthread, of_decide_eq_true hcmd] at hi
  exact ⟨p, rest, hp, hi, hsaves, (live_listeners_iff _ _ _ p hp 3 10 250 "" rest hi
    (of_decide_eq_true honly)).mpr (noLiveHeartbeat_of_readsBefore hreads)⟩

end WaveCast
