import WaveCast.Candor
import WaveCast.Production

/-!
# Failed calls

Databases that can be reached fail only when a report is saved for a room that
has one (`production_failed`).
-/

namespace WaveCast

open Interaction WaveCast.Action Program Service

variable {redis : Redis.PresenceStore} {I : Infra} {env : ServerEnv} {b b' : Backends} {w : World}

/-- **Databases that can be reached** fail only when a report is replaced. -/
theorem Backs.exec_internal (h : Backs b w) (hset : ∀ d, 0 < d → 0 < redis.setTTL d) {e : Effect}
    (he : e.Proper b.store) {a : e.Answer}
    (hx : Backends.exec redis I.reliable env e b = some (a, b')) :
    Internal (outcome ⟨e, a⟩) ↔ ∃ c, e = .store c ∧ b.store.Replaces c := by
  have hp : Backends.perform redis I.reliable env e b = some (a, b') := by
    rw [Backends.exec] at hx
    split at hx
    · cases hx
    · exact hx
  cases e with
  | store c =>
    obtain ⟨⟨r, g'⟩, hg, hp⟩ := Option.map_eq_some_iff.mp hp
    cases hp
    have hnew : ∀ report, c = .saveReport report → ∀ old, b.store.reports.Holds old →
        old.id ≠ report.id := by
      rintro report rfl
      exact he
    by_cases hre : b.store.Replaces c
    · obtain ⟨-, ⟨text, rfl⟩, -⟩ := MongoStore.rejects hnew hre hg
      exact iff_of_true ⟨text, rfl⟩ ⟨c, rfl, hre⟩
    · have hname : ∀ room, c = .saveRoom room → room.liveKitRoomName = "lk_" ++ room.id := by
        rintro room rfl
        exact he
      obtain ⟨_, _, _, hm, -⟩ := h.store.answers hname hnew hre hg
      refine iff_of_false (mt internal_map.mp (Store.step_not_internal hm)) ?_
      rintro ⟨c', hc, hre'⟩
      cases hc
      exact hre hre'
  | presence c =>
    cases hp
    obtain ⟨hanswer, -⟩ := Redis.step_alike hset h.presence env.serverNow env.lastSeen c he
    refine iff_of_false (mt internal_map.mp ?_) (by simp)
    rw [hanswer]
    exact not_internal_ok _
  | newID pfx => exact iff_of_false (not_internal_ok ()) (by simp)
  | enqueue job => exact iff_of_false (not_internal_ok ()) (by simp)
  | _ =>
    cases hp
    exact iff_of_false (not_internal_ok ()) (by simp)

/-- The call has saved a report of the room. -/
def SavesReportOf (roomID : String) (x : VoiceExchange) : Prop :=
  ∃ report : RoomReport, x = ⟨.store (.saveReport report), .ok ()⟩ ∧ report.roomID = roomID

/-- A report of the room has been saved. -/
def ReportSaved {C E : Type} (t : List (Entry effects C E)) (roomID : String) : Prop :=
  ∃ e ∈ t, SavesReportOf roomID e.exchange

theorem Backs.replaces_iff {s : Service} {ms : List VoiceMove} {q : VoicePool}
    (h : (s.system I).run ms = some q) (hb : Backs b q.state) (report : RoomReport) :
    b.store.Replaces (.saveReport report) ↔ ReportSaved q.trace report.roomID := by
  have hlookup := lookup_reports (System.run_replays h) report.roomID
  constructor
  · rintro ⟨old, hold, hroom⟩
    rw [(hb.store.reports _ old).mpr ⟨hroom, hold⟩] at hlookup
    obtain ⟨e, he, hsaved⟩ := exists_write_of_lastWrite hlookup.symm
    exact ⟨e, he, old, (savedReport_eq_some.mp hsaved).1, hroom⟩
  · rintro ⟨e, he, old, hx, hroom⟩
    cases hlast : lastWrite reportSaves report.roomID q.trace with
    | none =>
      have hno := lastWrite_eq_none.mp hlast e he old
      exact absurd (savedReport_eq_some.mpr ⟨hx, hroom.symm⟩) hno
    | some stored =>
      obtain ⟨hroom', hheld⟩ := (hb.store.reports _ stored).mp (hlookup.trans hlast)
      exact ⟨stored, hheld, hroom'⟩

/-- **Which calls fail** in a run of the deployment. -/
theorem production_failed {s : Service} (hset : ∀ d, 0 < d → 0 < redis.setTTL d)
    (hlive : 0 < s.cfg.listenerSessionTimeout) {ms : List (Move Command ServerEnv)}
    {p : Pool effects Command ServerEnv AppError Reply Backends}
    (hp : (s.deployment redis I.reliable).run ms = some p) {i : ℕ} {cmd : Command} {e : Effect}
    {next : e.Answer → Action Reply} (hi : p.threads[i]? = some ⟨cmd, .call e next⟩) {a : e.Answer}
    (hx : Backends.exec redis I.reliable env e p.state = some (a, b')) :
    Internal (outcome ⟨e, a⟩) ↔ ∃ report, e = .store (.saveReport report) ∧
      ReportSaved p.trace report.roomID := by
  obtain ⟨ms', q, -, hq, hmatch⟩ := (s.inProcess redis I.reliable hset hlive).run hp
  obtain ⟨next', hi', -⟩ := hmatch.thread hi
  have hb : Backs p.state q.state := hmatch.states
  have hsaved : ∀ roomID, ReportSaved p.trace roomID ↔ ReportSaved q.trace roomID := by
    intro roomID
    refine hmatch.exists_entry fun e e' he => ?_
    cases he with
    | mk i cmd henv hsame =>
      rcases hsame with rfl | ⟨report, text, text', ha, ha'⟩
      · rfl
      · cases ha
        cases ha'
        simp [SavesReportOf]
  rw [hb.exec_internal hset (pending_proper hq hb hlive hi') hx]
  constructor
  · rintro ⟨c, rfl, hre⟩
    cases c with
    | saveReport report => exact ⟨report, rfl, (hsaved _).mpr ((hb.replaces_iff hq report).mp hre)⟩
    | _ => exact hre.elim
  · rintro ⟨report, rfl, hold⟩
    exact ⟨_, rfl, (hb.replaces_iff hq report).mpr ((hsaved _).mp hold)⟩

end WaveCast
