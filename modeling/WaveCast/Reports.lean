import WaveCast.StoresAgree

/-!
# What a report counts

`ReportStats` makes one pass over the sessions of a store, in an order that the
store leaves open. Each figure is a count or a sum over the stored sessions and
so does not depend on the order (`Store.reportStats_eq_figures`,
`MongoStore.reportStats_eq_figures`).
-/

namespace WaveCast

open Documents

namespace Table

variable {V : Type}

/-- The number of values that satisfy `f`. -/
def count (t : Table V) (f : V → Bool) : ℕ := (t.keys.filter fun k => (t.lookup k).any f).card

/-- The sum of `f` over the values. -/
def total (t : Table V) (f : V → Int) : Int := ∑ k ∈ t.keys, (t.lookup k).elim 0 f

/-- What `g` takes on the values that satisfy `f`. -/
def distinct (t : Table V) (f : V → Bool) (g : V → String) : Finset String :=
  t.keys.biUnion fun k => ((t.lookup k).filter f).elim ∅ ({g ·})

theorem mem_distinct {t : Table V} {f : V → Bool} {g : V → String} {x : String} :
    x ∈ t.distinct f g ↔ ∃ k v, t.lookup k = some v ∧ f v = true ∧ g v = x := by
  simp only [distinct, Finset.mem_biUnion, Finmap.mem_keys]
  constructor
  · rintro ⟨k, -, hx⟩
    cases hl : (t.lookup k).filter f with
    | none => simp [hl] at hx
    | some v =>
      obtain ⟨hv, hf⟩ := Option.filter_eq_some_iff.mp hl
      exact ⟨k, v, hv, hf, by simpa [hl, eq_comm] using hx⟩
  · rintro ⟨k, v, hl, hf, rfl⟩
    refine ⟨k, Finmap.mem_of_lookup_eq_some hl, ?_⟩
    rw [hl, Option.filter_some, if_pos hf]
    exact Finset.mem_singleton_self _

section Range

variable {t : Table V} {order : List String} {vs : List V}

theorem range_eq_some : t.range order = some vs ↔
    (order.Nodup ∧ order.toFinset = t.keys) ∧ order.filterMap t.lookup = vs := by
  rw [range]
  split
  · simp [*]
  · simp [*]

theorem length_filter_filterMap (look : String → Option V) (f : V → Bool) (order : List String) :
    ((order.filterMap look).filter f).length =
      (order.filter fun k => (look k).any f).length := by
  induction order with
  | nil => rfl
  | cons k order ih =>
    rw [List.filterMap_cons, List.filter_cons]
    cases look k with
    | none => exact ih
    | some v =>
      rw [List.filter_cons, Option.any_some]
      split
      · rw [List.length_cons, List.length_cons, ih]
      · exact ih

theorem length_filter_range (h : t.range order = some vs) (f : V → Bool) :
    (vs.filter f).length = t.count f := by
  obtain ⟨⟨hnodup, hkeys⟩, rfl⟩ := range_eq_some.mp h
  rw [length_filter_filterMap, ← List.toFinset_card_of_nodup (hnodup.filter _),
    List.toFinset_filter, hkeys]
  rfl

theorem sum_filterMap (look : String → Option V) (f : V → Int) (order : List String) :
    ((order.filterMap look).map f).sum = (order.map fun k => (look k).elim 0 f).sum := by
  induction order with
  | nil => rfl
  | cons k order ih =>
    rw [List.filterMap_cons, List.map_cons, List.sum_cons]
    cases look k with
    | none => rw [ih, Option.elim_none, zero_add]
    | some v => rw [List.map_cons, List.sum_cons, ih, Option.elim_some]

theorem sum_range (h : t.range order = some vs) (f : V → Int) :
    (vs.map f).sum = t.total f := by
  obtain ⟨⟨hnodup, hkeys⟩, rfl⟩ := range_eq_some.mp h
  rw [total, ← hkeys, List.sum_toFinset _ hnodup, sum_filterMap]

theorem toFinset_range (h : t.range order = some vs) (f : V → Bool) (g : V → String) :
    ((vs.filter f).map g).toFinset = t.distinct f g := by
  ext x
  simp only [List.mem_toFinset, List.mem_map, List.mem_filter, mem_range h, mem_distinct]
  constructor
  · rintro ⟨v, ⟨⟨k, hl⟩, hf⟩, rfl⟩
    exact ⟨k, v, hl, hf, rfl⟩
  · rintro ⟨k, v, hl, hf, rfl⟩
    exact ⟨v, ⟨⟨k, hl⟩, hf⟩, rfl⟩

end Range

end Table

/-! ## The figures -/

/-- What `ReportStats` answers on these sessions at `now`. -/
def figures (now : Time) (listeners : Table ListenerSession)
    (participants : Table ParticipantSession) (roomID : String) : ReportStats :=
  { uniqueListeners := (listeners.distinct (·.roomID = roomID) (·.userID)).card
    uniqueSpeakers := (participants.distinct
      (fun p => p.roomID = roomID && roleUsesLiveKit p.role) (·.userID)).card
    totalJoinEvents := listeners.count (·.roomID = roomID)
    peakConcurrentListeners := listeners.count fun x => x.roomID = roomID && x.status = .active
    totalListeningSeconds :=
      listeners.total fun x => if x.roomID = roomID then Store.listeningSeconds now x else 0
    totalSpeakingSeconds := 0 }

/-- The seconds from one instant to a later one, as `ReportStats` counts them. -/
def secondsBetween (start stop : Time) : Int :=
  if stop > start then Duration.seconds (Time.sub stop start) else 0

theorem listeningSeconds_eq (now : Time) (session : ListenerSession) :
    Store.listeningSeconds now session =
      secondsBetween session.joinedAt (session.leftAt.getD now) := rfl

theorem secondsBetween_nonneg (start stop : Time) : 0 ≤ secondsBetween start stop := by
  rw [secondsBetween]
  split
  · rename_i h
    exact Duration.seconds_nonneg (Time.sub_nonneg h.le) (Time.sub_lt stop start)
  · exact le_rfl

theorem secondsBetween_mono {start stop stop' : Time} (h : stop ≤ stop') :
    secondsBetween start stop ≤ secondsBetween start stop' := by
  have hpos := secondsBetween_nonneg start stop'
  rw [secondsBetween]
  split
  · rename_i hlt
    rw [secondsBetween, if_pos (lt_of_lt_of_le hlt h)]
    exact Duration.seconds_mono (Time.sub_nonneg hlt.le) (Time.sub_mono h start)
      (Time.sub_lt stop' start)
  · exact hpos

theorem sum_map_filter {V : Type} (vs : List V) (p : V → Prop) [DecidablePred p] (f : V → Int) :
    ((vs.filter fun v => p v).map f).sum = (vs.map fun v => if p v then f v else 0).sum := by
  induction vs with
  | nil => rfl
  | cons v vs ih =>
    rw [List.filter_cons, List.map_cons, List.sum_cons, ← ih]
    by_cases hp : p v <;> simp [hp]

section Figures

variable {now : Time} {order order' : List String} {roomID : String} {stats : ReportStats}

theorem reportStats_range {listeners : Table ListenerSession}
    {participants : Table ParticipantSession} {ls : List ListenerSession}
    {ps : List ParticipantSession} (hl : listeners.range order = some ls)
    (hp : participants.range order' = some ps) :
    Store.reportStats now ls ps roomID = figures now listeners participants roomID := by
  simp only [Store.reportStats, figures, ReportStats.mk.injEq]
  refine ⟨congrArg _ (Table.toFinset_range hl _ _), congrArg _ (Table.toFinset_range hp _ _),
    Table.length_filter_range hl _, ?_, ?_, trivial⟩
  · rw [List.filter_filter, Table.length_filter_range hl]
    exact congrArg _ (funext fun x => Bool.and_comm _ _)
  · rw [sum_map_filter, Table.sum_range hl]

theorem Store.reportStats_eq_figures {st st' : Store}
    (h : st.step now order order' (.reportStats roomID) = some (.ok stats, st')) :
    stats = figures now st.listenerSessions st.participantSessions roomID := by
  obtain ⟨ls, hl, h⟩ := Option.bind_eq_some_iff.mp h
  obtain ⟨ps, hp, h⟩ := Option.map_eq_some_iff.mp h
  cases h
  exact reportStats_range hl hp

theorem MongoStore.reportStats_eq_figures {g g' : MongoStore}
    (h : g.step now order order' (.reportStats roomID) = some (.ok stats, g')) :
    stats = figures now g.listenerSessions.docs g.participantSessions.docs roomID := by
  obtain ⟨ls', hl', h⟩ := Option.bind_eq_some_iff.mp h
  obtain ⟨ps', hp', h⟩ := Option.map_eq_some_iff.mp h
  cases h
  obtain ⟨ls, hl, rfl⟩ := Option.map_eq_some_iff.mp hl'
  obtain ⟨ps, hp, rfl⟩ := Option.map_eq_some_iff.mp hp'
  rw [← reportStats_eq (.refl _) (.refl _)]
  exact reportStats_range hl hp

end Figures

end WaveCast
