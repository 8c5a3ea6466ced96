import Mathlib

/-!
# float64

Arithmetic of `float64` on the rationals: each operation rounds its exact result
to 53 bits, to the even one of two nearest. The range of the exponent is left
out: no result here leaves it. Rounding never reverses an order (`round_mono`)
and is exact on the integers of 53 bits (`round_intCast`).
-/

namespace Float64

/-! ## Operations -/

/-- The nearest integer, the even one of two. -/
def roundEven (q : ℚ) : ℤ :=
  if q - ⌊q⌋ < 1 / 2 then ⌊q⌋
  else if 1 / 2 < q - ⌊q⌋ then ⌊q⌋ + 1
  else if ⌊q⌋ % 2 = 0 then ⌊q⌋ else ⌊q⌋ + 1

/-- What one unit in the last place of `q` is worth. -/
def ulp (q : ℚ) : ℚ := 2 ^ (Int.log 2 |q| - 52)

/-- The nearest number of 53 bits, the even one of two. -/
def round (q : ℚ) : ℚ := roundEven (q / ulp q) * ulp q

def add (a b : ℚ) : ℚ := round (a + b)
def div (a b : ℚ) : ℚ := round (a / b)

/-- The conversion to an integer, which drops the fraction. -/
def trunc (q : ℚ) : ℤ := if 0 ≤ q then ⌊q⌋ else ⌈q⌉

/-! ## Rounding to integers -/

variable {a b q : ℚ}

theorem floor_le_roundEven (q : ℚ) : ⌊q⌋ ≤ roundEven q := by
  unfold roundEven
  split_ifs <;> omega

theorem roundEven_le_floor_add_one (q : ℚ) : roundEven q ≤ ⌊q⌋ + 1 := by
  unfold roundEven
  split_ifs <;> omega

@[simp] theorem roundEven_intCast (n : ℤ) : roundEven n = n := by
  simp [roundEven]

/-- Between two integers the greater one is nearer to the greater number. -/
theorem roundEven_mono (h : a ≤ b) : roundEven a ≤ roundEven b := by
  rcases (Int.floor_mono h).eq_or_lt with hfloor | hfloor
  · unfold roundEven
    rw [← hfloor]
    have hrest : a - ⌊a⌋ ≤ b - ⌊a⌋ := sub_le_sub_right h _
    split_ifs <;> first | omega | linarith
  · calc roundEven a
      _ ≤ ⌊a⌋ + 1 := roundEven_le_floor_add_one a
      _ ≤ ⌊b⌋ := hfloor
      _ ≤ roundEven b := floor_le_roundEven b

/-! ## Rounding to 53 bits -/

theorem ulp_pos (q : ℚ) : 0 < ulp q := zpow_pos two_pos _

theorem ulp_eq (h : 0 ≤ q) : ulp q = 2 ^ (Int.log 2 q - 52) := by
  rw [ulp, abs_of_nonneg h]

@[simp] theorem round_zero : round 0 = 0 := by
  have hzero : roundEven 0 = 0 := roundEven_intCast 0
  simp [round, hzero]

/-- A number is as good as `2 ^ 52` units in the last place. -/
theorem two_pow_mul_ulp (h : 0 ≤ q) : 2 ^ 52 * ulp q = 2 ^ Int.log 2 q := by
  rw [ulp_eq h, ← zpow_natCast, ← zpow_add₀ two_ne_zero]
  congr 1
  omega

theorem le_round (h : 0 < q) : 2 ^ Int.log 2 q ≤ round q := by
  have hlow : (2 : ℚ) ^ Int.log 2 q ≤ q := Int.zpow_log_le_self (by decide) h
  rw [← two_pow_mul_ulp h.le] at hlow ⊢
  have hunits : (2 : ℚ) ^ 52 ≤ q / ulp q := (le_div_iff₀ (ulp_pos q)).mpr hlow
  have hround := roundEven_mono (a := ((2 ^ 52 : ℤ) : ℚ)) (by exact_mod_cast hunits)
  rw [roundEven_intCast] at hround
  refine mul_le_mul_of_nonneg_right ?_ (ulp_pos q).le
  exact_mod_cast hround

theorem round_le (h : 0 < q) : round q ≤ 2 ^ (Int.log 2 q + 1) := by
  have hhigh : q < (2 : ℚ) ^ (Int.log 2 q + 1) := Int.lt_zpow_succ_log_self (by decide) q
  have hbits : (2 : ℚ) ^ (Int.log 2 q + 1) = 2 ^ 53 * ulp q := by
    rw [zpow_add_one₀ two_ne_zero, ← two_pow_mul_ulp h.le]
    ring
  rw [hbits] at hhigh ⊢
  have hunits : q / ulp q ≤ (2 : ℚ) ^ 53 := (div_le_iff₀ (ulp_pos q)).mpr hhigh.le
  have hround := roundEven_mono (b := ((2 ^ 53 : ℤ) : ℚ)) (by exact_mod_cast hunits)
  rw [roundEven_intCast] at hround
  refine mul_le_mul_of_nonneg_right ?_ (ulp_pos q).le
  exact_mod_cast hround

theorem round_nonneg (h : 0 ≤ q) : 0 ≤ round q := by
  rcases h.eq_or_lt with rfl | hpos
  · rw [round_zero]
  · exact (zpow_pos two_pos _).le.trans (le_round hpos)

/-- **Rounding is monotone**: inside a binade the units are the same, and from
one binade to the next the power of two lies between. -/
theorem round_mono (ha : 0 ≤ a) (h : a ≤ b) : round a ≤ round b := by
  rcases ha.eq_or_lt with rfl | hpos
  · rw [round_zero]
    exact round_nonneg h
  have hb := hpos.trans_le h
  rcases (Int.log_mono_right (b := 2) hpos h).eq_or_lt with hlog | hlog
  · have hulp : ulp a = ulp b := by rw [ulp_eq hpos.le, ulp_eq hb.le, hlog]
    rw [round, round, hulp]
    refine mul_le_mul_of_nonneg_right ?_ (ulp_pos b).le
    exact_mod_cast roundEven_mono (div_le_div_of_nonneg_right h (ulp_pos b).le)
  · calc round a
      _ ≤ 2 ^ (Int.log 2 a + 1) := round_le hpos
      _ ≤ 2 ^ Int.log 2 b := zpow_le_zpow_right₀ one_le_two hlog
      _ ≤ round b := le_round hb

/-- Integers of at most 53 bits are exact. -/
theorem round_natCast {n : ℕ} (h : n < 2 ^ 53) : round n = n := by
  rcases Nat.eq_zero_or_pos n with rfl | hpos
  · simp
  have hlog : Int.log 2 (n : ℚ) = Nat.log 2 n := Int.log_natCast 2 n
  have hle : Nat.log 2 n ≤ 52 := Nat.lt_succ_iff.mp (Nat.log_lt_of_lt_pow hpos.ne' h)
  -- the unit in the last place divides one
  have hulp : (n : ℚ) / ulp n = ((n * 2 ^ (52 - Nat.log 2 n) : ℤ) : ℚ) := by
    rw [ulp_eq (by positivity), hlog, div_eq_mul_inv, ← zpow_neg]
    push_cast
    rw [← zpow_natCast]
    congr 2
    omega
  rw [round, hulp, roundEven_intCast, ← hulp, div_mul_cancel₀ _ (ulp_pos _).ne']

theorem round_intCast {n : ℤ} (hn : 0 ≤ n) (h : n < 2 ^ 53) : round n = n := by
  lift n to ℕ using hn
  exact_mod_cast round_natCast (by exact_mod_cast h)

theorem trunc_mono (ha : 0 ≤ a) (h : a ≤ b) : trunc a ≤ trunc b := by
  rw [trunc, if_pos ha, trunc, if_pos (ha.trans h)]
  exact Int.floor_mono h

theorem trunc_nonneg (h : 0 ≤ q) : 0 ≤ trunc q := by
  rw [trunc, if_pos h]
  exact Int.floor_nonneg.mpr h

end Float64
