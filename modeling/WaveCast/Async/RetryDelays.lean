import WaveCast.Async.Retries

/-!
# The delays between the attempts of a job

`retryDelay` shifts the base delay left in 64 bits and compares it with the cap
afterwards. While the doubled delay stays below `2^63` this is the capped
exponential; past that the comparison sees what is left modulo `2^64`, and the
delay may come out too small, zero or negative.
-/

namespace WaveCast.Async

open Interaction

/-- `d` is a value of `time.Duration`. -/
def FitsInt64 (d : Duration) : Prop := -2 ^ 63 ≤ d ∧ d < 2 ^ 63

instance (d : Duration) : Decidable (FitsInt64 d) := inferInstanceAs (Decidable (_ ∧ _))

/-- The base delay, doubled for each attempt after the first, ten times at most. -/
def doubled (attempt : Int) (base : Duration) : Duration := base * 2 ^ (min (attempt - 1) 10).toNat

/-- The capped exponential, computed exactly. -/
def cappedDelay (attempt : Int) (base max : Duration) : Duration := min max (doubled attempt base)

/-- The doubled delay is below `2^63`, or what it leaves modulo `2^64` is below
`2^63` and no less than the cap. -/
def KeepsCap (attempt : Int) (base max : Duration) : Prop :=
  doubled attempt base < 2 ^ 63 ∨
    ∃ k : Int, max ≤ doubled attempt base - k * 2 ^ 64 ∧ doubled attempt base - k * 2 ^ 64 < 2 ^ 63

variable {attempt attempt' : Int} {base max : Duration}

/-- What 64 bits keep of a number is a 64-bit number and differs from it by a
multiple of `2^64`. -/
theorem bmod_spec (x : Int) :
    -2 ^ 63 ≤ x.bmod (2 ^ 64) ∧ x.bmod (2 ^ 64) < 2 ^ 63 ∧
      ∃ k : Int, x.bmod (2 ^ 64) = x - k * 2 ^ 64 := by
  have hk := Int.bmod_eq_self_sub_bdiv_mul x (2 ^ 64)
  refine ⟨?_, ?_, x.bdiv (2 ^ 64), by exact_mod_cast hk⟩
  · unfold Int.bmod
    norm_num
    omega
  · unfold Int.bmod
    norm_num
    omega

/-- The cap, taken of what 64 bits keep of `x`, is the cap of `x` itself exactly
when nothing is lost or the rest is no less than the cap. -/
theorem capped_bmod_iff {x max : Int} (hx : 0 < x) (hmin : -2 ^ 63 ≤ max) (hmax : max < 2 ^ 63) :
    (if x.bmod (2 ^ 64) > max then max else x.bmod (2 ^ 64)) = min max x ↔
      x < 2 ^ 63 ∨ ∃ k : Int, max ≤ x - k * 2 ^ 64 ∧ x - k * 2 ^ 64 < 2 ^ 63 := by
  obtain ⟨hlow, hhigh, k, hk⟩ := bmod_spec x
  generalize x.bmod (2 ^ 64) = rest at hlow hhigh hk ⊢
  by_cases hlt : x < 2 ^ 63
  · -- nothing wraps: `k = 0`
    have hrest : rest = x := by omega
    refine iff_of_true ?_ (.inl hlt)
    rw [hrest]
    split <;> omega
  · -- `x` is above every cap, so the cap is what must come out
    have hcapped : min max x = max := by omega
    rw [hcapped, or_iff_right hlt]
    constructor
    · intro heq
      refine ⟨k, ?_, by omega⟩
      split at heq <;> omega
    · rintro ⟨k', hle, hlt'⟩
      have hrest : rest = x - k' * 2 ^ 64 := by omega
      split <;> omega

theorem doubled_pos (hbase : 0 < base) : 0 < doubled attempt base :=
  Int.mul_pos hbase (by positivity)

theorem doubled_mono (hbase : 0 < base) (h : attempt ≤ attempt') :
    doubled attempt base ≤ doubled attempt' base := by
  unfold doubled
  have hexp : (min (attempt - 1) 10).toNat ≤ (min (attempt' - 1) 10).toNat := by omega
  exact Int.mul_le_mul_of_nonneg_left (pow_le_pow_right₀ (by norm_num) hexp) hbase.le

theorem doubled_le (hbase : 0 < base) : doubled attempt base ≤ base * 2 ^ 10 := by
  have hexp : (min (attempt - 1) 10).toNat ≤ 10 := by omega
  exact Int.mul_le_mul_of_nonneg_left (pow_le_pow_right₀ (by norm_num) hexp) hbase.le

theorem cappedDelay_pos (hbase : 0 < base) (hmax : 0 < max) : 0 < cappedDelay attempt base max :=
  lt_min hmax (doubled_pos hbase)

theorem cappedDelay_mono (hbase : 0 < base) (h : attempt ≤ attempt') :
    cappedDelay attempt base max ≤ cappedDelay attempt' base max :=
  min_le_min_left max (doubled_mono hbase h)

theorem retryDelay_eq_iff (hattempt : 1 ≤ attempt) (hbase : 0 < base) (hmax : FitsInt64 max) :
    retryDelay attempt base max = cappedDelay attempt base max ↔ KeepsCap attempt base max := by
  unfold retryDelay
  rw [if_neg (not_le.mpr hattempt)]
  exact capped_bmod_iff (doubled_pos hbase) hmax.1 hmax.2

theorem Runner.delayAfter_nonpos (r : Runner) (h : attempt ≤ 0) :
    r.delayAfter attempt = r.queue.cfg.retryBaseDelay := if_pos h

/-- The delays of the runner after the attempt are the capped exponential. -/
def Runner.BacksOff (r : Runner) (attempt : Int) : Prop :=
  r.delayAfter attempt =
    cappedDelay attempt r.queue.cfg.retryBaseDelay r.queue.cfg.retryMaxDelay

/-- The doubled delay of the runner after the attempt keeps the cap. -/
def Runner.KeepsCap (r : Runner) (attempt : Int) : Prop :=
  Async.KeepsCap attempt r.queue.cfg.retryBaseDelay r.queue.cfg.retryMaxDelay

variable {r : Runner}

theorem Runner.BacksOff.pos (h : r.BacksOff attempt) : 0 < r.delayAfter attempt :=
  h ▸ cappedDelay_pos r.queue.valid.retryBaseDelay r.queue.valid.retryMaxDelay

theorem Runner.BacksOff.le_max (h : r.BacksOff attempt) :
    r.delayAfter attempt ≤ r.queue.cfg.retryMaxDelay :=
  h ▸ min_le_left _ _

theorem Runner.BacksOff.mono (h : r.BacksOff attempt) (h' : r.BacksOff attempt')
    (hle : attempt ≤ attempt') : r.delayAfter attempt ≤ r.delayAfter attempt' := by
  rw [h, h']
  exact cappedDelay_mono r.queue.valid.retryBaseDelay hle

/-- **The retry delay.** After any attempt, the delay of a runner with 64-bit
delays is the capped exponential exactly when the doubled base delay keeps the
cap. It is then positive, within the cap and no shorter than after an earlier
such attempt, and where the cap is always kept no worker of the runner ever
schedules a retry in the past, in any run. -/
theorem retry_delay_iff (r : Runner) (hmax : FitsInt64 r.queue.cfg.retryMaxDelay) :
    (∀ attempt, 1 ≤ attempt → (r.BacksOff attempt ↔ r.KeepsCap attempt)) ∧
    (∀ attempt, r.BacksOff attempt →
      0 < r.delayAfter attempt ∧ r.delayAfter attempt ≤ r.queue.cfg.retryMaxDelay) ∧
    (∀ attempt attempt', r.BacksOff attempt → r.BacksOff attempt' → attempt ≤ attempt' →
      r.delayAfter attempt ≤ r.delayAfter attempt') ∧
    ((∀ attempt, 1 ≤ attempt → r.KeepsCap attempt) →
      ∀ ms p, queueSystem.run ms = some p → ∀ e ∈ p.trace, e.cmd = .processOnce r →
        ∀ jobID nextRun lastError now, e.exchange.call = .retry jobID nextRun lastError now →
          now < nextRun) := by
  have hiff : ∀ attempt, 1 ≤ attempt → (r.BacksOff attempt ↔ r.KeepsCap attempt) :=
    fun attempt hattempt => retryDelay_eq_iff hattempt r.queue.valid.retryBaseDelay hmax
  refine ⟨hiff, fun _ h => ⟨h.pos, h.le_max⟩, fun _ _ h h' => h.mono h', ?_⟩
  intro hkeeps ms p hrun e he hcmd jobID nextRun lastError now hcall
  obtain ⟨newer, older, ht⟩ := List.append_of_mem he
  have hkept := run_workerAsks r hrun
  rw [ht] at hkept
  have hasks := hkept.at fun r' hr' => QueueCommand.processOnce.inj (hr'.symm.trans hcmd)
  rw [hcall] at hasks
  obtain ⟨job, h', -, -, -, -, rfl⟩ := hasks
  refine lt_add_of_pos_right now ?_
  rcases lt_or_ge 0 job.attempts with hpos | hle
  · exact ((hiff _ hpos).mpr (hkeeps _ hpos)).pos
  · rw [r.delayAfter_nonpos hle]
    exact r.queue.valid.retryBaseDelay

/-- Whether the retry that a call schedules lies in the past. -/
def retryInPast : QueueEffect → Option Bool
  | .retry _ nextRun _ now => some (nextRun < now)
  | _ => none

/-- The default delays, five seconds and at most five minutes. -/
theorem retry_delay_default :
    (∀ attempt, 1 ≤ attempt → (sampleRunner 5).BacksOff attempt) ∧
      (sampleRunner 5).delayAfter 3 = 20 * second ∧
      ∃ p, queueSystem.run timelyMoves = some p ∧
        (∃ e ∈ p.trace, retryInPast e.exchange.call = some false) ∧
        ∀ e ∈ p.trace, e.cmd = .processOnce (sampleRunner 5) →
          ∀ jobID nextRun lastError now,
            e.exchange.call = .retry jobID nextRun lastError now → now < nextRun := by
  obtain ⟨hiff, -, -, hahead⟩ := retry_delay_iff (sampleRunner 5) (by decide)
  have hkeeps : ∀ attempt, 1 ≤ attempt → (sampleRunner 5).KeepsCap attempt :=
    fun attempt _ => .inl (lt_of_le_of_lt (doubled_le (by decide)) (by decide))
  have hrun : (queueSystem.run timelyMoves).any (fun p =>
      p.trace.any (retryInPast ·.exchange.call = some false)) = true := by decide +kernel
  obtain ⟨p, hp, hretry⟩ := (Option.any_eq_true _ _).mp hrun
  exact ⟨fun attempt h => (hiff attempt h).mpr (hkeeps attempt h), by decide, p, hp,
    by simpa using hretry, hahead hkeeps timelyMoves p hp⟩

/-- A base delay that one doubling takes to `2^63`. -/
def longRunner : Runner := ⟨newQueue ⟨0, 5, 0, 2 ^ 62, 0, false, 0⟩, "worker", fun _ => true⟩

/-- Two attempts fail. -/
def longMoves : List QueueMove :=
  enqueueMoves 5 ++
    .start (.processOnce longRunner) ::
      [callAt 1, callAt 1, failingAt 2, callAt 2, callAt 2].map (.call 1) ++
    .start (.processOnce longRunner) ::
      [callAt 400, callAt 400, failingAt 401, callAt 401, callAt 401].map (.call 2)

/-- The second retry is scheduled `2^63` nanoseconds ago. -/
theorem retry_delay_fails :
    FitsInt64 longRunner.queue.cfg.retryBaseDelay ∧ FitsInt64 longRunner.queue.cfg.retryMaxDelay ∧
      ¬ longRunner.BacksOff 2 ∧ longRunner.delayAfter 2 = -2 ^ 63 ∧
      ∃ p, queueSystem.run longMoves = some p ∧
        ∃ e ∈ p.trace, retryInPast e.exchange.call = some true := by
  have hrun : (queueSystem.run longMoves).any (fun p =>
      p.trace.any (retryInPast ·.exchange.call = some true)) = true := by decide +kernel
  obtain ⟨p, hp, hpast⟩ := (Option.any_eq_true _ _).mp hrun
  refine ⟨by decide, by decide, ?_, by decide +kernel, p, hp, by simpa using hpast⟩
  intro hbacks
  exact absurd hbacks.pos (by decide +kernel)

end WaveCast.Async
