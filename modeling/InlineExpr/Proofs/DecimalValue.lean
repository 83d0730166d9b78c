import InlineExpr.Number.Decimal
import Mathlib.Algebra.Order.Field.Rat
import Mathlib.Algebra.Order.Ring.Abs
import Mathlib.Tactic.FieldSimp
import Mathlib.Tactic.Linarith
import Mathlib.Tactic.Positivity
import Mathlib.Tactic.Ring

/-!
# The numbers that decimals stand for

A decimal stands for a rational number (`Decimal.value`), and sums, differences and products stand
for those of the numbers: no digit is lost (`value_add`, `value_sub`, `value_mul`). A product is the
one that needs room, since its scale is the sum of two. A number has every scale whose power of ten
makes it whole (`Decimal.HasScale`), also those that are too large for 64 bits.
-/

namespace InlineExpr

/-- The powers of ten are those of arithmetic. -/
lemma Numeral.tenPow_eq (n : ℕ) : Numeral.tenPow n = 10 ^ n := rfl

namespace Decimal

variable {a b d : Decimal} {s : ℤ}

section Scales

variable {x y : Int64}

/-- A scale is a whole number of 64 bits. -/
lemma toInt_bounds (x : Int64) : Numeral.minInt64 ≤ x.toInt ∧ x.toInt ≤ Numeral.maxInt64 :=
  ⟨x.le_toInt, x.toInt_le⟩

/-- The larger one of two scales is the larger number. -/
@[simp] lemma toInt_max (x y : Int64) : (max x y).toInt = max x.toInt y.toInt := by
  rw [show max x y = if x ≤ y then y else x from rfl, max_def]
  simp only [Int64.le_iff_toInt_le]
  exact apply_ite Int64.toInt _ _ _

/-- A sum that fits in 64 bits does not go around. -/
lemma toInt_add_of_fits (hlow : Numeral.minInt64 ≤ x.toInt + y.toInt)
    (hhigh : x.toInt + y.toInt ≤ Numeral.maxInt64) : (x + y).toInt = x.toInt + y.toInt := by
  rw [Int64.toInt_add]
  exact Int.bmod_eq_of_le hlow (Int.lt_add_one_of_le hhigh)

end Scales

/-- The number that a decimal stands for. -/
def value (d : Decimal) : ℚ :=
  d.coefficient / 10 ^ d.scale.toInt

/-- The number is some coefficient over the power of ten of that scale. -/
def HasScale (q : ℚ) (s : ℤ) : Prop :=
  ∃ c : ℤ, q = c / 10 ^ s

/-- Powers of ten are positive. -/
lemma ten_zpow_pos (s : ℤ) : (0 : ℚ) < 10 ^ s :=
  zpow_pos (by norm_num) s

/-- No power of ten is zero. -/
lemma ten_zpow_ne_zero (s : ℤ) : (10 : ℚ) ^ s ≠ 0 :=
  (ten_zpow_pos s).ne'

/-- Exponents of ten add up. -/
lemma ten_zpow_add (s t : ℤ) : (10 : ℚ) ^ (s + t) = 10 ^ s * 10 ^ t :=
  zpow_add₀ (by norm_num) s t

/-- Where no place is negative, the powers of ten that are formed are those of the scales. -/
lemma tenPow_toNat (hs : 0 ≤ s) : ((Numeral.tenPow s.toNat : ℕ) : ℚ) = 10 ^ s := by
  rw [Numeral.tenPow_eq, Nat.cast_pow, ← zpow_natCast, Int.toNat_of_nonneg hs]
  norm_num

/-- A decimal stands for a number that its power of ten makes the coefficient. -/
lemma value_eq_iff {q : ℚ} : d.value = q ↔ (d.coefficient : ℚ) = q * 10 ^ d.scale.toInt :=
  div_eq_iff (ten_zpow_ne_zero d.scale.toInt)

/-- Moved by its scale, a decimal is its coefficient. -/
@[simp] lemma value_mul_scale (d : Decimal) : d.value * 10 ^ d.scale.toInt = d.coefficient :=
  (value_eq_iff.1 rfl).symm

/-- The value of a decimal is its coefficient, moved by its scale. -/
lemma value_mk (c : ℤ) (x : Int64) : value ⟨c, x⟩ = c / 10 ^ x.toInt := rfl

/-- A decimal is zero just if its coefficient is. -/
lemma value_eq_zero_iff : d.value = 0 ↔ d.coefficient = 0 := by
  rw [value_eq_iff, zero_mul, Int.cast_eq_zero]

/-- A decimal is zero if its coefficient is. -/
lemma isZero_iff : d.isZero = true ↔ d.coefficient = 0 := by
  simp [isZero]

/-- What is recognised as one is one. -/
lemma value_of_isOne (h : d.isOne = true) : d.value = 1 := by
  simp only [isOne, Bool.and_eq_true, decide_eq_true_eq, beq_iff_eq] at h
  obtain ⟨⟨hscale, -⟩, hcoefficient⟩ := h
  rw [value_eq_iff, hcoefficient, Int.cast_natCast, tenPow_toNat hscale, one_mul]

/-- The coefficient at a scale that is not below that of the decimal is exact. -/
lemma coefficientAt_eq {x : Int64} (h : d.scale.toInt ≤ x.toInt) :
    (d.coefficientAt x : ℚ) = d.value * 10 ^ x.toInt := by
  have hx : x.toInt = d.scale.toInt + (x.toInt - d.scale.toInt) := by ring
  rw [coefficientAt, Int.cast_mul, Int.cast_natCast, tenPow_toNat (sub_nonneg.2 h), hx,
    ten_zpow_add, ← mul_assoc, value_mul_scale, ← hx]

/-- The number of a negated decimal is negated. -/
@[simp] lemma value_neg (d : Decimal) : d.neg.value = -d.value := by
  rw [value, neg, Int.cast_neg, neg_div]
  rfl

/-- A sum is exact, whatever the scales. -/
@[simp] lemma value_add (a b : Decimal) : (a.add b).value = a.value + b.value := by
  have ha : a.scale.toInt ≤ (max a.scale b.scale).toInt := by
    rw [toInt_max]
    exact le_max_left _ _
  have hb : b.scale.toInt ≤ (max a.scale b.scale).toInt := by
    rw [toInt_max]
    exact le_max_right _ _
  rw [value_eq_iff, add, Int.cast_add, coefficientAt_eq ha, coefficientAt_eq hb, add_mul]

/-- A difference is exact, whatever the scales. -/
@[simp] lemma value_sub (a b : Decimal) : (a.sub b).value = a.value - b.value := by
  rw [sub]
  split
  · rename_i hb
    rw [value_eq_zero_iff.2 (isZero_iff.1 hb), sub_zero]
  · split
    · rename_i ha
      rw [value_neg, value_eq_zero_iff.2 (isZero_iff.1 ha), zero_sub]
    · rw [value_add, value_neg, sub_eq_add_neg]

/-- A product is exact where the sum of the scales fits in 64 bits. -/
lemma value_mul (hscale : (a.scale + b.scale).toInt = a.scale.toInt + b.scale.toInt) :
    (a.mul b).value = a.value * b.value := by
  rw [mul]
  split
  · rename_i ha
    rw [value_of_isOne ha, one_mul]
  · split
    · rename_i hb
      rw [value_of_isOne hb, mul_one]
    · rw [value_eq_iff, hscale, Int.cast_mul, ten_zpow_add, ← value_mul_scale a,
        ← value_mul_scale b]
      ring

/-- The numbers of a scale are those that the power of ten of the scale makes whole. -/
lemma hasScale_iff {q : ℚ} : HasScale q s ↔ ∃ c : ℤ, (c : ℚ) = q * 10 ^ s :=
  exists_congr fun _ => (eq_div_iff (ten_zpow_ne_zero s)).trans eq_comm

/-- A number of a scale has every larger scale. -/
lemma HasScale.mono {q : ℚ} {t : ℤ} (h : HasScale q s) (hst : s ≤ t) : HasScale q t := by
  obtain ⟨c, hc⟩ := hasScale_iff.1 h
  refine hasScale_iff.2 ⟨c * 10 ^ (t - s).toNat, ?_⟩
  have ht : t = s + (t - s).toNat := by omega
  rw [Int.cast_mul, hc, Int.cast_pow, Int.cast_ofNat, mul_assoc, ← zpow_natCast, ← ten_zpow_add,
    ← ht]

end Decimal

end InlineExpr
