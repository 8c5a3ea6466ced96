import WaveCast.Confinement
import WaveCast.Postings

/-!
# Presence and store agree

The presence store is a second representation of the active sessions of every
room, written by separate calls. While commands run one after the other and
neither store fails, the two agree after every command, whatever the bus and
the token issuer do (`presence_agrees`): each posting that enters a session
also enters its mark. So `ActiveCounts` may read either of them.
-/

namespace WaveCast

open Interaction WaveCast.Action Program Service

/-! ## Marks and records -/

namespace Presence

variable {V : Type} {t : Table (Finset String)} {sessions : Table V} {room : V → String}
  {active : V → Prop} {v : V} {sessionID : String}

/-- The marks of each room are the keys of its active records. -/
def Shows (t : Table (Finset String)) (sessions : Table V) (room : V → String)
    (active : V → Prop) : Prop :=
  ∀ roomID sessionID, sessionID ∈ members t roomID ↔
    ∃ v, sessions.lookup sessionID = some v ∧ room v = roomID ∧ active v

/-- A record and its mark are entered; what was there under the key was in the same room. -/
theorem Shows.mark (h : Shows t sessions room active) (hv : active v)
    (hplaces : ∀ v₀, sessions.lookup sessionID = some v₀ → room v₀ = room v) :
    Shows (mark t (room v) sessionID) (sessions.insert sessionID v) room active := by
  intro roomID id
  simp only [Presence.mark, members_insert, Table.lookup_insert_ite]
  by_cases hid : id = sessionID
  · subst hid
    by_cases hroom : roomID = room v
    · simp [hroom, hv]
    · have hout : id ∉ members t roomID := by
        rw [h]
        rintro ⟨v₀, hl, rfl, -⟩
        exact hroom (hplaces v₀ hl)
      simp [hroom, hout, Ne.symm hroom]
  · by_cases hroom : roomID = room v
    · simp [hroom, hid, h (room v) id]
    · simp [hroom, hid, h roomID id]

theorem Shows.unmark (h : Shows t sessions room active) (hv : ¬ active v)
    (hplaces : ∀ v₀, sessions.lookup sessionID = some v₀ → room v₀ = room v) :
    Shows (unmark t (room v) sessionID) (sessions.insert sessionID v) room active := by
  intro roomID id
  simp only [members_unmark, Table.lookup_insert_ite]
  by_cases hid : id = sessionID
  · subst hid
    by_cases hroom : roomID = room v
    · simp [hroom, hv]
    · have hout : id ∉ members t roomID := by
        rw [h]
        rintro ⟨v₀, hl, rfl, -⟩
        exact hroom (hplaces v₀ hl)
      simp [hroom, hout, hv]
  · by_cases hroom : roomID = room v
    · simp [hroom, hid, h (room v) id]
    · simp [hroom, hid, h roomID id]

/-- Counting the marks of a room is counting its active records. -/
theorem Shows.length_eq (h : Shows t sessions room active) {ident : V → String}
    (hident : ∀ k v, sessions.lookup k = some v → ident v = k) {order : List String} {vs : List V}
    (hvs : sessions.range order = some vs) (roomID : String) {p : V → Bool}
    (hp : ∀ v, p v = true ↔ room v = roomID ∧ active v) :
    (vs.filter p).length = (members t roomID).card := by
  have hstored := fun v => Table.mem_range hvs v
  have hids : ((vs.filter p).map ident).Nodup :=
    (List.filter_sublist.map ident).nodup (Table.nodup_range hident hvs)
  have hmem : ((vs.filter p).map ident).toFinset = members t roomID := by
    ext id
    rw [h, List.mem_toFinset, List.mem_map]
    constructor
    · rintro ⟨v, hv, rfl⟩
      obtain ⟨hv, hpv⟩ := List.mem_filter.mp hv
      obtain ⟨k, hk⟩ := (hstored v).mp hv
      exact ⟨v, (hident k v hk).symm ▸ hk, (hp v).mp hpv⟩
    · rintro ⟨v, hl, hv⟩
      exact ⟨v, List.mem_filter.mpr ⟨(hstored v).mpr ⟨id, hl⟩, (hp v).mpr hv⟩, hident id v hl⟩
  rw [← hmem, List.toFinset_card_of_nodup hids, List.length_map]

end Presence

/-! ## Postings keep the agreement -/

/-- Both representations show the same active sessions. -/
structure Ledger.Agrees (l : Ledger) : Prop where
  listeners : Presence.Shows l.presence.listeners l.store.listenerSessions ListenerSession.roomID
    (·.status = .active)
  participants : Presence.Shows l.presence.participants l.store.participantSessions
    ParticipantSession.roomID (·.status = .active)

section Agrees

variable {s : Service} {I : Infra} {l l' : Ledger}

theorem Ledger.Agrees.shown (h : l.Agrees) (hs : s.hasPresence = true) {session : ListenerSession}
    (hplaces : l.Places session) : (l.shown s session).Agrees := by
  simp only [Ledger.shown, hs, if_true, Presence.showing]
  refine ⟨?_, h.participants⟩
  by_cases hactive : session.status = .active
  · simp only [if_pos hactive]
    exact h.listeners.mark hactive hplaces
  · simp only [if_neg hactive]
    exact h.listeners.unmark hactive hplaces

theorem Ledger.Agrees.seated (h : l.Agrees) (hs : s.hasPresence = true)
    {session : ParticipantSession} (hactive : session.status = .active)
    (hnew : l.store.participantSessions.lookup session.id = none) :
    (l.seated s session).Agrees := by
  simp only [Ledger.seated, hs, if_true, Presence.seating]
  refine ⟨h.listeners, h.participants.mark hactive ?_⟩
  intro session₀ hl
  cases hnew.symm.trans hl

theorem Posting.agrees (hp : Posting s I l l') (hs : s.hasPresence = true) (hI : I.KeepsPresence)
    (h : l.Agrees) : l'.Agrees := by
  cases hp with
  | listener session hplaces => exact h.shown hs hplaces
  | participant session hactive hnew => exact h.seated hs hactive hnew
  | unshown _ _ hfails => exact absurd hI hfails
  | unseated _ hfails => exact absurd hI hfails
  | _ => exact ⟨h.listeners, h.participants⟩

theorem Reaches.agrees (hr : Reaches s I l l') (hs : s.hasPresence = true) (hI : I.KeepsPresence)
    (h : l.Agrees) : l'.Agrees := by
  induction hr with
  | refl => exact h
  | tail _ hp ih => exact hp.agrees hs hI ih

theorem Ledger.agrees_empty : World.empty.ledger.Agrees := by
  constructor <;>
    · intro roomID sessionID
      simp [World.ledger, World.empty, Presence.empty, Store.empty, Presence.members]

end Agrees

/-! ## Counting -/

section Counts

variable {s : Service} {I : Infra} {w : World}

/-- A call that does not fail answers as it performs. -/
theorem World.exec_performs {e : Effect} (he : I.mayFail e = false) {env : Env} {a : e.Answer}
    {w' : World} (h : World.exec I env e w = some (a, w')) :
    World.perform I env e w = some (a, w') := by
  rcases World.exec_cases h with ⟨-, hf, -, -⟩ | ⟨-, h⟩
  · rw [he] at hf
    cases hf
  · exact h

/-- The counts of a room in the presence store. -/
def Presence.counts (p : Presence) (roomID : String) : ActiveCounts :=
  { roomID
    listeners := (members p.listeners roomID).card
    liveKit := (members p.participants roomID).card
    activeUsers := (members p.listeners roomID).card + (members p.participants roomID).card }

theorem World.exec_countActiveListeners (hI : I.KeepsStore) (hk : w.Keyed) (ha : w.ledger.Agrees)
    {env : Env} {roomID : String} {a : Except AppError Nat} {w' : World}
    (h : World.exec I env (.store (.countActiveListeners roomID)) w = some (a, w')) :
    a = .ok (Presence.members w.presence.listeners roomID).card := by
  obtain ⟨⟨a', st⟩, hs, he⟩ := Option.map_eq_some_iff.mp (World.exec_performs (hI _) h)
  obtain ⟨sessions, hr, hc⟩ := Option.map_eq_some_iff.mp hs
  cases hc
  cases he
  exact congrArg Except.ok (ha.listeners.length_eq hk.listenerSessions.ident_eq hr roomID (by simp))

theorem World.exec_countActiveParticipants (hI : I.KeepsStore) (hk : w.Keyed)
    (ha : w.ledger.Agrees) {env : Env} {roomID : String} {a : Except AppError Nat} {w' : World}
    (h : World.exec I env (.store (.countActiveParticipantSessions roomID)) w = some (a, w')) :
    a = .ok (Presence.members w.presence.participants roomID).card := by
  obtain ⟨⟨a', st⟩, hs, he⟩ := Option.map_eq_some_iff.mp (World.exec_performs (hI _) h)
  obtain ⟨sessions, hr, hc⟩ := Option.map_eq_some_iff.mp hs
  cases hc
  cases he
  exact congrArg Except.ok
    (ha.participants.length_eq hk.participantSessions.ident_eq hr roomID (by simp))

/-- `ActiveCounts` counts the marks, with or without a presence store. -/
theorem activeCounts_ensures (hI : I.KeepsStore) (hp : I.KeepsPresence) (hk : w.Keyed)
    (ha : w.ledger.Agrees) (h : List VoiceExchange) (roomID : String) :
    Ensures (S := effects) (World.exec I)
      (fun _ r _ => r = .ok (.counts (w.presence.counts roomID))) h w
      (s.program (.activeCounts roomID)) := by
  simp only [Service.program, activeCounts, map_eq, bind_eq, pure_eq]
  cases s.hasPresence with
  | true =>
    simp only [if_true, present, bind_assoc]
    intro env a w' hx
    cases World.exec_performs (hp _) hx
    intro env a w' hx
    cases World.exec_performs (hp _) hx
    rfl
  | false =>
    simp only [Bool.false_eq_true, if_false, store, bind_assoc]
    refine ensures_askRead (c := .countActiveListeners roomID) trivial fun env a h hx => ?_
    obtain rfl := World.exec_countActiveListeners hI hk ha hx
    refine ensures_askRead (c := .countActiveParticipantSessions roomID) trivial
      fun env a h hx => ?_
    obtain rfl := World.exec_countActiveParticipants hI hk ha hx
    rfl

end Counts

/-! ## Every sequential run -/

/-- The ids of the active listener sessions that are stored for a room. -/
def Store.activeListeners (st : Store) (roomID : String) : Set String :=
  {id | ∃ k session, st.listenerSessions.lookup k = some session ∧ session.id = id ∧
    session.roomID = roomID ∧ session.status = .active}

def Store.activeParticipants (st : Store) (roomID : String) : Set String :=
  {id | ∃ k session, st.participantSessions.lookup k = some session ∧ session.id = id ∧
    session.roomID = roomID ∧ session.status = .active}

/-- The presence store holds the ids of the active sessions of every room. -/
structure World.PresenceAgrees (w : World) : Prop where
  listeners : ∀ roomID,
    (Presence.members w.presence.listeners roomID : Set String) = w.store.activeListeners roomID
  participants : ∀ roomID,
    (Presence.members w.presence.participants roomID : Set String) =
      w.store.activeParticipants roomID

section Keyed

variable {V : Type} {t : Table (Finset String)} {sessions : Table V} {room : V → String}
  {active : V → Prop} {ident : V → String}

/-- Records that are stored under their ids are shown by their ids. -/
theorem Presence.shows_iff (hident : ∀ k v, sessions.lookup k = some v → ident v = k) :
    Presence.Shows t sessions room active ↔ ∀ roomID, (Presence.members t roomID : Set String) =
      {id | ∃ k v, sessions.lookup k = some v ∧ ident v = id ∧ room v = roomID ∧ active v} := by
  have hkeys : ∀ roomID id, (∃ v, sessions.lookup id = some v ∧ room v = roomID ∧ active v) ↔
      ∃ k v, sessions.lookup k = some v ∧ ident v = id ∧ room v = roomID ∧ active v := by
    intro roomID id
    constructor
    · rintro ⟨v, hl, hv⟩
      exact ⟨id, v, hl, hident id v hl, hv⟩
    · rintro ⟨k, v, hl, rfl, hv⟩
      exact ⟨v, (hident k v hl).symm ▸ hl, hv⟩
  simp only [Presence.Shows, Set.ext_iff, Finset.mem_coe, Set.mem_ofPred_eq, hkeys]

end Keyed

theorem World.Keyed.presenceAgrees_iff {w : World} (hk : w.Keyed) :
    w.PresenceAgrees ↔ w.ledger.Agrees := by
  constructor
  · rintro ⟨hl, hp⟩
    exact ⟨(Presence.shows_iff hk.listenerSessions.ident_eq).mpr hl,
      (Presence.shows_iff hk.participantSessions.ident_eq).mpr hp⟩
  · rintro ⟨hl, hp⟩
    exact ⟨(Presence.shows_iff hk.listenerSessions.ident_eq).mp hl,
      (Presence.shows_iff hk.participantSessions.ident_eq).mp hp⟩

/-- **Presence and store agree.** After any sequential run of commands and
worker handlers on stores that do not fail, whatever else fails, the presence
store holds exactly the active sessions of every room; so `ActiveCounts` has
the same result whether or not it may ask the presence store. -/
theorem presence_agrees (s : Service) (I : Infra) (hs : s.hasPresence = true)
    (hI : I.KeepsStore) (hp : I.KeepsPresence) (jobs : List VoiceJob) (p : VoicePool)
    (h : (s.system I).serial jobs = some p) :
    p.state.PresenceAgrees ∧ ∀ roomID, ∃ counts, ∀ configured,
      (∃ envs r w, Program.eval (S := effects) (World.exec I) envs
        ({ s with hasPresence := configured }.program (.activeCounts roomID)) p.state =
          some (r, w)) ∧
      ∀ envs r w, Program.eval (S := effects) (World.exec I) envs
        ({ s with hasPresence := configured }.program (.activeCounts roomID)) p.state =
          some (r, w) → r = .ok (.counts counts) := by
  obtain ⟨ms, hms⟩ := System.serial_isRun h
  have hk := run_keyed hms
  have ha := (serial_reaches hI h).agrees hs hp Ledger.agrees_empty
  refine ⟨hk.presenceAgrees_iff.mpr ha, fun roomID => ⟨p.state.presence.counts roomID, ?_⟩⟩
  refine fun configured => ⟨exists_eval_of_peeks I _ (program_peeks _ trivial), fun _ r _ he => ?_⟩
  obtain ⟨-, hr⟩ := (activeCounts_ensures hI hp hk ha [] roomID).eval he
  exact hr

/-- A listener joins, and the bus does not accept the event. -/
def guestJoinsUnheard : VoiceJob :=
  (.joinRoom ⟨sampleRoom, "guest", ""⟩,
    plain 3 ++ drawing 4 ++ plain 2 ++ drawing 5 ++ plain 2 ++ [failingEnv])

/-- A listener who was told that joining failed is shown all the same. -/
theorem presence_agrees_unheard :
    ∃ p, (sampleService.system flakyEdge).serial (openRoom ++ [guestJoinsUnheard]) = some p ∧
      guestSession ∈ Presence.members p.state.presence.listeners sampleRoom ∧
      p.state.PresenceAgrees := by
  have hrun : ((sampleService.system flakyEdge).serial (openRoom ++ [guestJoinsUnheard])).any
      (fun p => guestSession ∈ Presence.members p.state.presence.listeners sampleRoom) = true := by
    decide +kernel
  obtain ⟨p, hp, hmark⟩ := (Option.any_eq_true _ _).mp hrun
  exact ⟨p, hp, of_decide_eq_true hmark, (presence_agrees _ _ rfl flakyEdge_keepsStore
    flakyEdge_keepsPresence _ p hp).1⟩

end WaveCast
