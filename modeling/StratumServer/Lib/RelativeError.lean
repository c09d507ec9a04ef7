import Mathlib.Algebra.BigOperators.Group.List.Basic
import Mathlib.Algebra.Order.Field.Basic
import Mathlib.Algebra.Order.Ring.Pow
import Mathlib.Data.List.Forall2
import Mathlib.Tactic.FieldSimp
import Mathlib.Tactic.GCongr
import Mathlib.Tactic.Linarith
import Mathlib.Tactic.Positivity
import Mathlib.Tactic.Ring

/-!
# Relative errors

Positive numbers and their approximations.  `Within ρ k x y` says that `x` and
`y` differ by at most `k` factors `ρ`, where `ρ` is a little below one.  The
relation is stated both ways, and factors add up: along a chain, in a product, in a
quotient; a sum keeps the factors of its terms.  So the error of a computation
is a count of its roundings.

A `Rounding` is an arithmetic that rounds: in its range a rounded number is
within one factor.  `Rounding.within` is the rule for a computed number, and
`Within.abs_sub_lt` turns a count of factors into an absolute error.
-/

namespace RelativeError

variable {K : Type} [Field K] [LinearOrder K] [IsStrictOrderedRing K]

/-- The two numbers differ by at most `k` factors `ρ`. -/
structure Within (ρ : K) (k : Nat) (x y : K) : Prop where
  le : ρ ^ k * x ≤ y
  ge : ρ ^ k * y ≤ x

namespace Within

variable {ρ : K} {j k : Nat} {x y z x' y' : K}

omit [IsStrictOrderedRing K] in
theorem symm (h : Within ρ k x y) : Within ρ k y x := ⟨h.ge, h.le⟩

section Factors

variable (hpos : 0 < ρ) (hle : ρ ≤ 1)

include hpos

theorem pos (h : Within ρ k x y) (hx : 0 < x) : 0 < y :=
  lt_of_lt_of_le (mul_pos (pow_pos hpos k) hx) h.le

theorem pos_iff (h : Within ρ k x y) : 0 < x ↔ 0 < y :=
  ⟨h.pos hpos, h.symm.pos hpos⟩

theorem trans (hxy : Within ρ j x y) (hyz : Within ρ k y z) :
    Within ρ (j + k) x z := by
  have hj := pow_pos hpos j
  have hk := pow_pos hpos k
  constructor
  · calc ρ ^ (j + k) * x = ρ ^ k * (ρ ^ j * x) := by ring
      _ ≤ ρ ^ k * y := mul_le_mul_of_nonneg_left hxy.le hk.le
      _ ≤ z := hyz.le
  · calc ρ ^ (j + k) * z = ρ ^ j * (ρ ^ k * z) := by ring
      _ ≤ ρ ^ j * y := mul_le_mul_of_nonneg_left hyz.ge hj.le
      _ ≤ x := hxy.ge

theorem mul (h : Within ρ j x y) (h' : Within ρ k x' y') (hx : 0 < x)
    (hx' : 0 < x') : Within ρ (j + k) (x * x') (y * y') := by
  have hy := h.pos hpos hx
  have hy' := h'.pos hpos hx'
  have hk := pow_pos hpos k
  constructor
  · calc ρ ^ (j + k) * (x * x') = (ρ ^ j * x) * (ρ ^ k * x') := by ring
      _ ≤ y * y' := mul_le_mul h.le h'.le (by positivity) hy.le
  · calc ρ ^ (j + k) * (y * y') = (ρ ^ j * y) * (ρ ^ k * y') := by ring
      _ ≤ x * x' := mul_le_mul h.ge h'.ge (by positivity) hx.le

theorem inv (h : Within ρ k x y) (hx : 0 < x) : Within ρ k x⁻¹ y⁻¹ := by
  have hy := h.pos hpos hx
  constructor
  · rw [← div_eq_mul_inv, div_le_iff₀ hx, inv_mul_eq_div, le_div_iff₀ hy]
    exact h.ge
  · rw [← div_eq_mul_inv, div_le_iff₀ hy, inv_mul_eq_div, le_div_iff₀ hx]
    exact h.le

theorem div (h : Within ρ j x y) (h' : Within ρ k x' y') (hx : 0 < x)
    (hx' : 0 < x') : Within ρ (j + k) (x / x') (y / y') := by
  rw [div_eq_mul_inv, div_eq_mul_inv]
  exact h.mul hpos (h'.inv hpos hx') hx (inv_pos.2 hx')

include hle

theorem refl (hx : 0 ≤ x) (k : Nat) : Within ρ k x x := by
  have hk : ρ ^ k ≤ 1 := pow_le_one₀ hpos.le hle
  exact ⟨mul_le_of_le_one_left hx hk, mul_le_of_le_one_left hx hk⟩

theorem mono (h : Within ρ j x y) (hx : 0 ≤ x) (hjk : j ≤ k) :
    Within ρ k x y := by
  have hpow : ρ ^ k ≤ ρ ^ j := pow_le_pow_of_le_one hpos.le hle hjk
  have hy : 0 ≤ y := le_trans (mul_nonneg (pow_pos hpos j).le hx) h.le
  exact ⟨(mul_le_mul_of_nonneg_right hpow hx).trans h.le,
    (mul_le_mul_of_nonneg_right hpow hy).trans h.ge⟩

end Factors

theorem add (h : Within ρ k x y) (h' : Within ρ k x' y') :
    Within ρ k (x + x') (y + y') := by
  constructor
  · rw [mul_add]
    exact add_le_add h.le h'.le
  · rw [mul_add]
    exact add_le_add h.ge h'.ge

theorem sum {xs ys : List K} (h : List.Forall₂ (Within ρ k) xs ys) :
    Within ρ k xs.sum ys.sum := by
  induction h with
  | nil => exact ⟨by simp, by simp⟩
  | cons hxy _ ih =>
    rw [List.sum_cons, List.sum_cons]
    exact hxy.add ih

section Unit

variable {u : K} (hu1 : u < 1)

include hu1

/-- So many factors are not less than one minus so many units. -/
theorem one_sub_le_pow (k : Nat) : 1 - k * u ≤ (1 - u) ^ k := by
  have hbernoulli := one_add_mul_le_pow (a := -u) (by linarith) k
  calc 1 - k * u = 1 + k * -u := by ring
    _ ≤ (1 + -u) ^ k := hbernoulli
    _ = (1 - u) ^ k := by rw [← sub_eq_add_neg]

/-- Few factors change a number by less than two. -/
theorem le_two_mul (h : Within (1 - u) k x y) (hx : 0 ≤ x) (hy : 0 ≤ y)
    (hk : k * u ≤ 1 / 2) : x ≤ 2 * y ∧ y ≤ 2 * x := by
  have hpow : 1 / 2 ≤ (1 - u) ^ k := by
    have := one_sub_le_pow hu1 k
    linarith
  have hxy := (mul_le_mul_of_nonneg_right hpow hx).trans h.le
  have hyx := (mul_le_mul_of_nonneg_right hpow hy).trans h.ge
  constructor <;> linarith

/-- The absolute error of a number up to a bound. -/
theorem abs_sub_lt (hu : 0 ≤ u) (h : Within (1 - u) k x y) (hx : 0 ≤ x) (hy : 0 ≤ y)
    (hk : k * u * (x + 1) < 1) : |y - x| < 1 := by
  have hpow := one_sub_le_pow hu1 k
  have hku : (k : K) * u < 1 := by
    have hnonneg : 0 ≤ (k : K) * u := by positivity
    nlinarith
  have hle := (mul_le_mul_of_nonneg_right hpow hx).trans h.le
  have hge := (mul_le_mul_of_nonneg_right hpow hy).trans h.ge
  rw [abs_sub_lt_iff]
  constructor
  · nlinarith
  · nlinarith

end Unit

end Within

/-- An arithmetic that rounds the numbers of a range with a relative error. -/
structure Rounding (K : Type) [Field K] [LinearOrder K] [IsStrictOrderedRing K] where
  fl : K → K
  unit : K
  low : K
  high : K
  unit_pos : 0 < unit
  unit_lt_one : unit < 1
  low_pos : 0 < low
  law : ∀ x, low ≤ x → x ≤ high → Within (1 - unit) 1 x (fl x)

namespace Rounding

variable (A : Rounding K)

/-- The approximation of a positive number with so many roundings. -/
abbrev Approx (k : Nat) (x y : K) : Prop := Within (1 - A.unit) k x y

variable {A} {k : Nat} {x y : K}

theorem factor_pos : 0 < 1 - A.unit := sub_pos.2 A.unit_lt_one

theorem factor_le_one : 1 - A.unit ≤ 1 := sub_le_self _ A.unit_pos.le

/-- A computed number is rounded once more. -/
theorem within (h : A.Approx k x y) (hk : k * A.unit ≤ 1 / 2)
    (hlow : 2 * A.low ≤ x) (hhigh : 2 * x ≤ A.high) :
    A.Approx (k + 1) x (A.fl y) := by
  have hx : 0 < x := by
    have := A.low_pos
    linarith
  have hy := h.pos factor_pos hx
  obtain ⟨hxy, hyx⟩ := h.le_two_mul A.unit_lt_one hx.le hy.le hk
  exact h.trans factor_pos (A.law y (by linarith) (by linarith))

end Rounding

end RelativeError
