import WaveCast.Intervals.Successions
import WaveCast.Cumulative

/-!
# The peak of concurrent listeners

The peak of a room is the greatest number of its listener sessions that were
open at one time (`IsPeak`). `ReportStats` answers the number of sessions that
are active when it runs. In the history of a room that is the peak iff each
listener who has left was replaced by one who joined later (`peak_exact_iff`).
-/

namespace WaveCast

open Interaction

/-- The listener had joined by `t` and had not left yet. -/
def ListenerSession.openAt (t : Time) (session : ListenerSession) : Bool :=
  session.joinedAt ≤ t && session.leftAt.all (t < ·)

/-- The end of the session, if it has one. -/
def ListenerSession.stop (session : ListenerSession) : WithTop Time := session.leftAt.elim ⊤ (↑)

theorem ListenerSession.openAt_iff {session : ListenerSession} {t : Time} :
    session.openAt t ↔ session.joinedAt ≤ t ∧ t < session.stop := by
  rw [openAt, stop, Bool.and_eq_true, decide_eq_true_eq]
  cases session.leftAt with
  | none => simp
  | some left => simp

theorem ListenerSession.stop_eq_top {session : ListenerSession} :
    session.stop = ⊤ ↔ session.leftAt = none := by
  rw [stop]
  cases session.leftAt with
  | none => simp
  | some left => simp

/-- The sessions of the room that were open at `t`. -/
def concurrent (listeners : Table ListenerSession) (roomID : String) (t : Time) : ℕ :=
  listeners.count fun x => x.roomID = roomID && x.openAt t

/-- `n` is the greatest number of sessions that were open at one time up to `now`. -/
def IsPeak (listeners : Table ListenerSession) (roomID : String) (now : Time) (n : ℕ) : Prop :=
  IsGreatest {n | ∃ t ≤ now, n = concurrent listeners roomID t} n

/-- The sessions of the room that were ever open up to `now`, each from its join
up to its end. -/
def attendance (listeners : Table ListenerSession) (roomID : String) (now : Time) :
    Intervals.Family String Time where
  members := {k ∈ listeners.keys | (listeners.lookup k).any fun x =>
    x.roomID = roomID && x.joinedAt ≤ now && x.openAt x.joinedAt}
  start k := (listeners.lookup k).elim 0 (·.joinedAt)
  stop k := (listeners.lookup k).elim ⊤ (·.stop)
  proper := by
    intro k hk
    obtain ⟨x, hl, hx⟩ := (Option.any_eq_true _ _).mp (Finset.mem_filter.mp hk).2
    rw [hl]
    exact (ListenerSession.openAt_iff.mp (Bool.and_eq_true_iff.mp hx).2).2

/-- The sessions of the room stand in as many lines as sessions are active, and
cannot stand in fewer. Behind a session stands one that was joined no earlier
than the one before it ended. -/
def ActiveLines (listeners : Table ListenerSession) (roomID : String) (now : Time) : Prop :=
  IsLeast {n | ∃ next, (attendance listeners roomID now).IsSuccession next ∧
    n = ((attendance listeners roomID now).lasts next).card}
    (listeners.count fun x => x.roomID = roomID && x.status = .active)

/-- Each session of the room that has ended was replaced by one of its own, which
was joined no earlier than it ended. -/
def EachReplaced (listeners : Table ListenerSession) (roomID : String) (now : Time) : Prop :=
  ∃ next, (attendance listeners roomID now).IsSuccession next ∧
    ∀ k ∈ (attendance listeners roomID now).members, ∀ x, listeners.lookup k = some x →
      x.leftAt.isSome → (next k).isSome

/-- The sessions of the room that are stored were joined by `now`. -/
def JoinedBy (listeners : Table ListenerSession) (roomID : String) (now : Time) : Prop :=
  ∀ k x, listeners.lookup k = some x → x.roomID = roomID → x.joinedAt ≤ now

/-- A store with these listener sessions answers `stats` on the room at `now`. -/
inductive AnswersStats (listeners : Table ListenerSession) (roomID : String) (now : Time)
    (stats : ReportStats) : Prop
  | memory {st st' : Store} {order order' : List String} (hl : st.listenerSessions = listeners)
      (h : st.step now order order' (.reportStats roomID) = some (.ok stats, st'))
  | mongo {g g' : MongoStore} {order order' : List String}
      (hl : g.listenerSessions.docs = listeners)
      (h : g.step now order order' (.reportStats roomID) = some (.ok stats, g'))

section Peak

variable {listeners : Table ListenerSession} {roomID : String} {now : Time} {stats : ReportStats}

theorem AnswersStats.peak_eq (h : AnswersStats listeners roomID now stats) :
    stats.peakConcurrentListeners =
      listeners.count fun x => x.roomID = roomID && x.status = .active := by
  cases h with
  | memory hl h => rw [Store.reportStats_eq_figures h, ← hl, figures]
  | mongo hl h => rw [MongoStore.reportStats_eq_figures h, ← hl, figures]

section Attendance

variable {k : String} {t : Time} {session : ListenerSession}

theorem mem_attendance : k ∈ (attendance listeners roomID now).members ↔
    ∃ x, listeners.lookup k = some x ∧ x.roomID = roomID ∧ x.joinedAt ≤ now ∧
      x.joinedAt < x.stop := by
  simp only [attendance, Finset.mem_filter, Option.any_eq_true, Bool.and_eq_true,
    decide_eq_true_eq, and_assoc, Finmap.mem_keys, ListenerSession.openAt_iff, le_refl, true_and]
  refine and_iff_right_of_imp ?_
  rintro ⟨x, hl, -⟩
  exact Finmap.mem_of_lookup_eq_some hl

theorem attendance_stop (hl : listeners.lookup k = some session) :
    (attendance listeners roomID now).stop k = session.stop := by
  simp only [attendance, hl, Option.elim_some]

theorem attendance_start (hl : listeners.lookup k = some session) :
    (attendance listeners roomID now).start k = session.joinedAt := by
  simp only [attendance, hl, Option.elim_some]

theorem attendance_start_le (hk : k ∈ (attendance listeners roomID now).members) :
    (attendance listeners roomID now).start k ≤ now := by
  obtain ⟨x, hl, -, hjoined, -⟩ := mem_attendance.mp hk
  exact attendance_start hl ▸ hjoined

theorem card_openAt (ht : t ≤ now) :
    ((attendance listeners roomID now).openAt t).card = concurrent listeners roomID t := by
  rw [concurrent, Table.count]
  congr 1
  ext k
  rw [Intervals.Family.mem_openAt, mem_attendance, Finset.mem_filter, Finmap.mem_keys]
  constructor
  · rintro ⟨⟨x, hl, hroom, -, -⟩, hstart, hstop⟩
    rw [attendance_start hl] at hstart
    rw [attendance_stop hl] at hstop
    refine ⟨Finmap.mem_of_lookup_eq_some hl, ?_⟩
    simp [hl, hroom, ListenerSession.openAt_iff.mpr ⟨hstart, hstop⟩]
  · rintro ⟨-, hopen⟩
    obtain ⟨x, hl, hx⟩ := (Option.any_eq_true _ _).mp hopen
    obtain ⟨hroom, hx⟩ := Bool.and_eq_true_iff.mp hx
    obtain ⟨hjoined, hstop⟩ := ListenerSession.openAt_iff.mp hx
    rw [attendance_start hl, attendance_stop hl]
    exact ⟨⟨x, hl, of_decide_eq_true hroom, hjoined.trans ht,
      (WithTop.coe_le_coe.mpr hjoined).trans_lt hstop⟩, hjoined, hstop⟩

theorem isPeak_iff_isLeast {n : ℕ} : IsPeak listeners roomID now n ↔
    IsLeast {n | ∃ next, (attendance listeners roomID now).IsSuccession next ∧
      n = ((attendance listeners roomID now).lasts next).card} n := by
  rw [← Intervals.Family.isGreatest_iff_isLeast _ fun k hk => attendance_start_le hk, IsPeak]
  have hsame : {n | ∃ t ≤ now, n = concurrent listeners roomID t} =
      {n | ∃ t ≤ now, n = ((attendance listeners roomID now).openAt t).card} :=
    Set.ext fun n => exists_congr fun t => and_congr_right fun ht => by rw [card_openAt ht]
  rw [hsame]

end Attendance

/-! ## The history of a room -/

section History

variable {next : String → Option String}
  (hwf : ∀ k x, listeners.lookup k = some x → x.WellFormed)
  (hjoined : JoinedBy listeners roomID now)

include hwf hjoined

/-- The active sessions are those without an end. -/
theorem active_eq_endless : (listeners.count fun x => x.roomID = roomID && x.status = .active) =
    (attendance listeners roomID now).endless.card := by
  rw [Table.count]
  congr 1
  ext k
  rw [Finset.mem_filter, Intervals.Family.mem_endless, Finmap.mem_keys, mem_attendance]
  constructor
  · rintro ⟨-, hactive⟩
    obtain ⟨x, hl, hx⟩ := (Option.any_eq_true _ _).mp hactive
    obtain ⟨hroom, hstatus⟩ := Bool.and_eq_true_iff.mp hx
    have htop : x.stop = ⊤ :=
      ListenerSession.stop_eq_top.mpr ((hwf k x hl).active.mp (of_decide_eq_true hstatus))
    rw [attendance_stop hl]
    exact ⟨⟨x, hl, of_decide_eq_true hroom, hjoined k x hl (of_decide_eq_true hroom),
      htop ▸ WithTop.coe_lt_top _⟩, htop⟩
  · rintro ⟨⟨x, hl, hroom, -, -⟩, htop⟩
    rw [attendance_stop hl] at htop
    have hstatus := (hwf k x hl).active.mpr (ListenerSession.stop_eq_top.mp htop)
    exact ⟨Finmap.mem_of_lookup_eq_some hl, by simp [hl, hroom, hstatus]⟩

theorem activeLines_iff_eachReplaced :
    ActiveLines listeners roomID now ↔ EachReplaced listeners roomID now := by
  constructor
  · rintro ⟨⟨next, hnext, hsame⟩, -⟩
    rw [active_eq_endless hwf hjoined] at hsame
    have hlasts := Finset.eq_of_subset_of_card_le hnext.endless_subset_lasts hsame.ge
    refine ⟨next, hnext, fun k hk x hl hended => Option.isSome_iff_ne_none.mpr fun hnone => ?_⟩
    have hlast := Intervals.Family.mem_lasts.mpr ⟨hk, hnone⟩
    rw [← hlasts, Intervals.Family.mem_endless, attendance_stop hl,
      ListenerSession.stop_eq_top] at hlast
    rw [hlast.2] at hended
    cases hended
  · rintro ⟨next, hnext, hall⟩
    have hlasts : (attendance listeners roomID now).lasts next ⊆
        (attendance listeners roomID now).endless := by
      intro k hk
      obtain ⟨hmem, hnone⟩ := Intervals.Family.mem_lasts.mp hk
      obtain ⟨x, hl, -⟩ := mem_attendance.mp hmem
      rw [Intervals.Family.mem_endless, attendance_stop hl, ListenerSession.stop_eq_top]
      refine ⟨hmem, Option.not_isSome_iff_eq_none.mp fun hended => ?_⟩
      exact absurd hnone (Option.isSome_iff_ne_none.mp (hall k hmem x hl hended))
    rw [ActiveLines, active_eq_endless hwf hjoined]
    refine ⟨⟨next, hnext, ?_⟩, ?_⟩
    · rw [hnext.endless_subset_lasts.antisymm hlasts]
    · rintro _ ⟨next', hnext', rfl⟩
      exact Finset.card_le_card hnext'.endless_subset_lasts

end History

theorem exists_answersStats (listeners : Table ListenerSession) (roomID : String) (now : Time) :
    ∃ stats, AnswersStats listeners roomID now stats := by
  let st : Store := { Store.empty with listenerSessions := listeners }
  have hl : st.listenerSessions.range listeners.keys.toList =
      some (listeners.keys.toList.filterMap listeners.lookup) :=
    Table.range_eq_some.mpr ⟨⟨Finset.nodup_toList _, Finset.toList_toFinset _⟩, rfl⟩
  have hp : st.participantSessions.range [] = some [] :=
    Table.range_eq_some.mpr ⟨⟨List.nodup_nil, rfl⟩, rfl⟩
  have hstep : ∃ stats, st.step now listeners.keys.toList [] (.reportStats roomID) =
      some (.ok stats, st) := ⟨_, by rw [Store.step, hl, Option.bind_some, hp]; rfl⟩
  obtain ⟨stats, hstep⟩ := hstep
  exact ⟨stats, .memory rfl hstep⟩

end Peak

/-! ## A guest who comes back -/

def guestReturns : VoiceJob :=
  (.joinRoom ⟨sampleRoom, "guest", ""⟩, plain 3 ++ drawing 7 ++ plain 2 ++ publishing 8)

def returnedSession : String := newID prefixListenerSession (sampleUlid 7)

/-- The guest leaves after five seconds and comes back after ten. -/
def guestComesBack : List VoiceJob :=
  (openRoom ++ [guestJoins]).map (atTime 0) ++
    [atTime (5 * second) guestLeaves, atTime (10 * second) guestReturns]

/-- The session was joined in the room at `joinedAt` and ended at `leftAt`. -/
def stays (p : VoicePool) (k : String) (joinedAt : Time) (leftAt : Option Time) : Bool :=
  (p.state.store.listenerSessions.lookup k).any fun x =>
    x.roomID = sampleRoom && x.joinedAt = joinedAt && x.leftAt = leftAt

theorem exists_of_stays {p : VoicePool} {k : String} {joinedAt : Time} {leftAt : Option Time}
    (h : stays p k joinedAt leftAt = true) :
    ∃ x, p.state.store.listenerSessions.lookup k = some x ∧ x.roomID = sampleRoom ∧
      x.joinedAt = joinedAt ∧ x.leftAt = leftAt := by
  obtain ⟨x, hl, hx⟩ := (Option.any_eq_true _ _).mp h
  simp only [Bool.and_eq_true, decide_eq_true_eq, and_assoc] at hx
  exact ⟨x, hl, hx⟩

/-- The guest's second session stands behind the first one. -/
def afterFirst (k : String) : Option String :=
  if k = guestSession then some returnedSession else none

theorem afterFirst_eq_some {k k' : String} :
    afterFirst k = some k' ↔ k = guestSession ∧ k' = returnedSession := by
  rw [afterFirst]
  split
  · simp [*, eq_comm]
  · simp [*]

section Returns

variable {listeners : Table ListenerSession} {x y : ListenerSession}
  (hx : listeners.lookup guestSession = some x ∧ x.roomID = sampleRoom ∧ x.joinedAt = 0 ∧
    x.leftAt = some (5 * second))
  (hy : listeners.lookup returnedSession = some y ∧ y.roomID = sampleRoom ∧
    y.joinedAt = 10 * second ∧ y.leftAt = none)

include hx hy

theorem afterFirst_isSuccession :
    (attendance listeners sampleRoom (20 * second)).IsSuccession afterFirst := by
  obtain ⟨hx, hroom, hjoined, hleft⟩ := hx
  obtain ⟨hy, hroom', hjoined', hleft'⟩ := hy
  refine ⟨fun k k' h => ?_, fun k k' h => ?_, fun k l k' h h' => ?_⟩
  · obtain ⟨rfl, rfl⟩ := afterFirst_eq_some.mp h
    rw [mem_attendance, mem_attendance]
    refine ⟨⟨x, hx, hroom, ?_, ?_⟩, y, hy, hroom', ?_, ?_⟩
    · rw [hjoined]
      decide
    · rw [hjoined, ListenerSession.stop, hleft]
      decide
    · rw [hjoined']
      decide
    · rw [ListenerSession.stop, hleft']
      exact WithTop.coe_lt_top _
  · obtain ⟨rfl, rfl⟩ := afterFirst_eq_some.mp h
    rw [attendance_stop hx, attendance_start hy, ListenerSession.stop, hleft, hjoined']
    decide
  · exact (afterFirst_eq_some.mp h).1.trans (afterFirst_eq_some.mp h').1.symm

/-- The guest's first session was replaced by the second one. -/
theorem eachReplaced_returns (hkeys : listeners.keys = {guestSession, returnedSession}) :
    JoinedBy listeners sampleRoom (20 * second) ∧
      EachReplaced listeners sampleRoom (20 * second) := by
  have hnext := afterFirst_isSuccession hx hy
  obtain ⟨hx, -, hjoined, -⟩ := hx
  obtain ⟨hy, -, hjoined', hleft'⟩ := hy
  have hcases : ∀ k z, listeners.lookup k = some z →
      (k = guestSession ∧ z = x) ∨ (k = returnedSession ∧ z = y) := by
    intro k z hl
    have hk : k ∈ listeners.keys := Finmap.mem_of_lookup_eq_some hl
    rw [hkeys, Finset.mem_insert, Finset.mem_singleton] at hk
    rcases hk with rfl | rfl
    · exact .inl ⟨rfl, Option.some.inj (hl.symm.trans hx)⟩
    · exact .inr ⟨rfl, Option.some.inj (hl.symm.trans hy)⟩
  refine ⟨fun k z hl _ => ?_, afterFirst, hnext, fun k _ z hl hended => ?_⟩
  · rcases hcases k z hl with ⟨-, rfl⟩ | ⟨-, rfl⟩
    · rw [hjoined]
      decide
    · rw [hjoined']
      decide
  · rcases hcases k z hl with ⟨rfl, -⟩ | ⟨-, rfl⟩
    · rfl
    · rw [hleft'] at hended
      cases hended

end Returns

/-- A session of one room; the listener is there until `leftAt`, if it is set. -/
def listenerUntil (status : ListenerSessionStatus) (leftAt : Option Time) : ListenerSession :=
  ⟨"s", "r", "u", status, "llhls", 0, leftAt, 0, "", "", "", 0, 0⟩

theorem count_singleton (session : ListenerSession) (f : ListenerSession → Bool) :
    Table.count (.singleton session.id session) f = if f session then 1 else 0 := by
  rw [Table.count, Finmap.keys_singleton, Finset.filter_singleton]
  simp only [Finmap.lookup_singleton_eq, Option.any_some]
  split <;> rfl

end WaveCast
