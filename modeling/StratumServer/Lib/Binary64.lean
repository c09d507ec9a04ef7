import Mathlib.Data.Int.Log
import Mathlib.Data.Rat.Floor
import StratumServer.Lib.RelativeError

/-!
# Rounding to 64-bit floating point

Numbers of the IEEE 754 format binary64 are integers of 53 bits times a power
of two.  `nearest` takes a rational number to the nearest one, and at a midpoint
to the one with an even integer; below the normal range the powers of two go
no further down.  There are no infinities: `nearest` is the arithmetic of the
format for results below `2 ^ 1023`.

`arithmetic` is the relative error of one half of the last place.
-/

namespace Binary64

open RelativeError

/-- The nearest integer; at a midpoint the even one. -/
def roundEven (x : ℚ) : Int :=
  if x - ⌊x⌋ < 1 / 2 then ⌊x⌋
  else if 1 / 2 < x - ⌊x⌋ then ⌊x⌋ + 1
  else ⌊x⌋ + ⌊x⌋ % 2

/-- The exponent of the power of two below a number. -/
def exponent (x : ℚ) : Int := max (Int.log 2 |x|) (-1022)

/-- The unit in the last place. -/
def ulp (x : ℚ) : ℚ := 2 ^ (exponent x - 52)

/-- The nearest number of the format. -/
def nearest (x : ℚ) : ℚ := roundEven (x / ulp x) * ulp x

theorem roundEven_error (x : ℚ) : |(roundEven x : ℚ) - x| ≤ 1 / 2 := by
  have hlow := Int.floor_le x
  have hhigh := Int.lt_floor_add_one x
  have hbit : (0 : ℚ) ≤ ((⌊x⌋ % 2 : Int) : ℚ) ∧ ((⌊x⌋ % 2 : Int) : ℚ) ≤ 1 := by
    constructor
    · exact_mod_cast Int.emod_nonneg ⌊x⌋ (by decide)
    · exact_mod_cast (show ⌊x⌋ % 2 ≤ 1 by omega)
  rw [abs_le]
  unfold roundEven
  split_ifs with hbelow habove
  · constructor <;> linarith
  · push_cast
    constructor <;> linarith
  · push_cast
    constructor <;> linarith [hbit.1, hbit.2]

/-- The integer that is less than a half away. -/
theorem roundEven_eq {x : ℚ} {n : Int} (h : |x - n| < 1 / 2) : roundEven x = n := by
  have hdist : |((roundEven x - n : Int) : ℚ)| < 1 := by
    calc |((roundEven x - n : Int) : ℚ)|
        = |((roundEven x : ℚ) - x) + (x - n)| := by push_cast; ring_nf
      _ ≤ |(roundEven x : ℚ) - x| + |x - n| := abs_add_le _ _
      _ < 1 := by linarith [roundEven_error x]
  have hzero : |roundEven x - n| < 1 := by exact_mod_cast hdist
  have := Int.abs_lt_one_iff.1 hzero
  omega

theorem roundEven_intCast (n : Int) : roundEven n = n :=
  roundEven_eq (by simp)

theorem ulp_pos (x : ℚ) : 0 < ulp x := zpow_pos (by norm_num) _

theorem low_pos : (0 : ℚ) < 2 ^ (-1022 : Int) := zpow_pos (by norm_num) _

theorem nearest_error (x : ℚ) : |nearest x - x| ≤ ulp x / 2 := by
  have hulp := ulp_pos x
  have hscaled : nearest x - x = (roundEven (x / ulp x) - x / ulp x) * ulp x := by
    unfold nearest
    field_simp
  calc |nearest x - x| = |(roundEven (x / ulp x) : ℚ) - x / ulp x| * ulp x := by
        rw [hscaled, abs_mul, abs_of_pos hulp]
    _ ≤ 1 / 2 * ulp x :=
        mul_le_mul_of_nonneg_right (roundEven_error _) hulp.le
    _ = ulp x / 2 := by ring

/-- In the normal range the last place is small against the number. -/
theorem ulp_le {x : ℚ} (h : 2 ^ (-1022 : Int) ≤ x) :
    ulp x / 2 ≤ 1 / 2 ^ 53 * x := by
  have hx : 0 < x := lt_of_lt_of_le low_pos h
  have hlog : -1022 ≤ Int.log 2 x := (Int.zpow_le_iff_le_log (by norm_num) hx).1 h
  have hexponent : exponent x = Int.log 2 x := by
    unfold exponent
    rw [abs_of_pos hx]
    exact max_eq_left hlog
  have hpower : (2 : ℚ) ^ Int.log 2 x ≤ x := Int.zpow_log_le_self (by norm_num) hx
  unfold ulp
  rw [hexponent, zpow_sub₀ (by norm_num : (2 : ℚ) ≠ 0)]
  norm_num
  linarith

theorem exponent_eq {x : ℚ} {e : Int} (hlow : 2 ^ e ≤ x) (hhigh : x < 2 ^ (e + 1))
    (he : -1022 ≤ e) : exponent x = e := by
  have hx : 0 < x := lt_of_lt_of_le (zpow_pos (by norm_num) _) hlow
  have hge := (Int.zpow_le_iff_le_log (R := ℚ) (b := 2) (by norm_num) hx).1 hlow
  have hlt := (Int.lt_zpow_iff_log_lt (R := ℚ) (b := 2) (by norm_num) hx).1 hhigh
  unfold exponent
  rw [abs_of_pos hx]
  omega

/-- A number between two powers of two, in units of its last place. -/
theorem nearest_eq {x : ℚ} {e : Int} (hlow : 2 ^ e ≤ x) (hhigh : x < 2 ^ (e + 1))
    (he : -1022 ≤ e) :
    nearest x = roundEven (x / 2 ^ (e - 52)) * 2 ^ (e - 52) := by
  unfold nearest ulp
  rw [exponent_eq hlow hhigh he]

/-- A number of at most 53 bits is a number of the format. -/
theorem nearest_of_bits {m : Nat} {e : Int} (hpos : 0 < m) (hm : m < 2 ^ 53)
    (he : -1074 ≤ e) : nearest (m * 2 ^ e) = m * 2 ^ e := by
  have hpow : (0 : ℚ) < 2 ^ e := zpow_pos (by norm_num) e
  have hx : (0 : ℚ) < m * 2 ^ e := mul_pos (by exact_mod_cast hpos) hpow
  have hhigh : (m * 2 ^ e : ℚ) < 2 ^ (e + 53) := by
    rw [zpow_add₀ two_ne_zero, mul_comm]
    refine mul_lt_mul_of_pos_left ?_ hpow
    exact_mod_cast hm
  have hlog := (Int.lt_zpow_iff_log_lt (R := ℚ) (b := 2) (by norm_num) hx).1 hhigh
  have hexponent : exponent (m * 2 ^ e) - 52 ≤ e := by
    unfold exponent
    rw [abs_of_pos hx]
    omega
  -- In units of the last place the number is whole.
  obtain ⟨d, hd⟩ := Int.le.dest hexponent
  have hwhole : (m * 2 ^ e : ℚ) / ulp (m * 2 ^ e) = ((m * 2 ^ d : Int) : ℚ) := by
    rw [div_eq_iff (ulp_pos _).ne']
    push_cast
    rw [mul_assoc, ulp, ← zpow_natCast, ← zpow_add₀ two_ne_zero, add_comm, hd]
  rw [nearest, hwhole, roundEven_intCast, ← hwhole,
    div_mul_cancel₀ _ (ulp_pos _).ne']

/-- One rounding. -/
theorem within_nearest {x : ℚ} (h : 2 ^ (-1022 : Int) ≤ x) :
    Within (1 - 1 / 2 ^ 53) 1 x (nearest x) := by
  have hx : 0 < x := lt_of_lt_of_le low_pos h
  obtain ⟨hlow, hhigh⟩ := abs_le.1 ((nearest_error x).trans (ulp_le h))
  constructor
  · rw [pow_one]
    linarith
  · rw [pow_one]
    nlinarith

/-- The arithmetic of the format, for positive numbers. -/
def arithmetic : Rounding ℚ where
  fl := nearest
  unit := 1 / 2 ^ 53
  low := 2 ^ (-1022 : Int)
  high := 2 ^ (1023 : Int)
  unit_pos := by positivity
  unit_lt_one := by norm_num
  low_pos := low_pos
  law _ h _ := within_nearest h

theorem two_mul_zpow (n : Int) : 2 * (2 : ℚ) ^ n = 2 ^ (n + 1) := by
  rw [zpow_add_one₀ two_ne_zero, mul_comm]

/-- A number with few roundings, far from the ends of the range, is rounded
once more. -/
theorem approx_nearest {k : Nat} {x y : ℚ} (h : arithmetic.Approx k x y)
    (hk : k ≤ 2 ^ 52) (hlow : 2 ^ (-1000 : Int) ≤ x)
    (hhigh : x ≤ 2 ^ (1000 : Int)) : arithmetic.Approx (k + 1) x (nearest y) := by
  have hunit : (k : ℚ) * (1 / 2 ^ 53) ≤ 1 / 2 := by
    have hk' : (k : ℚ) ≤ 2 ^ 52 := by exact_mod_cast hk
    linarith
  apply Rounding.within h hunit
  · calc 2 * 2 ^ (-1022 : Int) = (2 : ℚ) ^ (-1021 : Int) := two_mul_zpow _
      _ ≤ 2 ^ (-1000 : Int) := zpow_le_zpow_right₀ (by norm_num) (by norm_num)
      _ ≤ x := hlow
  · calc 2 * x ≤ 2 * 2 ^ (1000 : Int) := by linarith
      _ = 2 ^ (1001 : Int) := two_mul_zpow _
      _ ≤ 2 ^ (1023 : Int) := zpow_le_zpow_right₀ (by norm_num) (by norm_num)

end Binary64
