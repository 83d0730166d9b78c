import InlineExpr.Number.Binary64
import Mathlib.Algebra.Order.Field.Rat
import Mathlib.Algebra.Order.Field.Power
import Mathlib.Algebra.Order.Ring.Abs
import Mathlib.Tactic.FieldSimp
import Mathlib.Tactic.Linarith
import Mathlib.Tactic.NormNum
import Mathlib.Tactic.Positivity
import Mathlib.Tactic.Ring

/-!
# The nearest number of the format

What rounding to binary floating point is supposed to find (`Binary64.Nearest`): the number of the
format that is nearest to a given one, and of two that are equally near the one with the even
significand. There is no more than one such number (`Nearest.unique`), and rounding keeps the order
(`Nearest.mono`).

Exponents have no upper bound here. Where the format ends is decided after rounding.
-/

namespace InlineExpr.Binary64

section Powers

variable {e f : ℤ}

/-- Powers of two are positive. -/
lemma two_zpow_pos (e : ℤ) : (0 : ℚ) < 2 ^ e :=
  zpow_pos (by norm_num) e

/-- Exponents of two add up. -/
lemma two_zpow_add (e f : ℤ) : (2 : ℚ) ^ (e + f) = 2 ^ e * 2 ^ f :=
  zpow_add₀ (by norm_num) e f

/-- Powers of two grow with the exponent. -/
lemma two_zpow_le (h : e ≤ f) : (2 : ℚ) ^ e ≤ 2 ^ f :=
  zpow_le_zpow_right₀ (by norm_num) h

/-- A multiple of a power of two is one of a smaller power of two. -/
lemma two_zpow_eq_mul (h : e ≤ f) : (2 : ℚ) ^ f = (2 ^ (f - e).toNat : ℤ) * 2 ^ e := by
  have hpow : ((2 ^ (f - e).toNat : ℤ) : ℚ) = 2 ^ (f - e) := by
    rw [Int.cast_pow, Int.cast_ofNat, ← zpow_natCast, Int.toNat_of_nonneg (sub_nonneg.2 h)]
  rw [hpow, ← two_zpow_add, sub_add_cancel]

end Powers

section Format

variable {x y : ℚ} {m e : ℤ}

/-- A significand and an exponent of a number. -/
structure IsFloat (x : ℚ) (m e : ℤ) : Prop where
  eq : x = m * 2 ^ e
  lt : |m| < 2 ^ precision
  le : minExponent ≤ e

/-- The numbers of the format, if it had no end. -/
def InFormat (x : ℚ) : Prop :=
  ∃ m e, IsFloat x m e

/-- The significand and the exponent that a number has in the format: the top bit is set unless the
exponent is the least one. -/
structure IsNormal (x : ℚ) (m e : ℤ) : Prop extends IsFloat x m e where
  normal : e = minExponent ∨ 2 ^ (precision - 1) ≤ |m|

/-- The significand of a number is even. -/
def IsEven (x : ℚ) : Prop :=
  ∃ m e, IsNormal x m e ∧ Even m

/-- `x` is the number of the format that is nearest to `q`, a tie going to the even significand. -/
structure Nearest (q x : ℚ) : Prop where
  mem : InFormat x
  closest : ∀ y, InFormat y → |x - q| ≤ |y - q|
  even : ∀ y, InFormat y → y ≠ x → |y - q| = |x - q| → IsEven x

/-- The opposite number has the opposite significand. -/
lemma IsFloat.neg (h : IsFloat x m e) : IsFloat (-x) (-m) e where
  eq := by rw [h.eq, Int.cast_neg, neg_mul]
  lt := (abs_neg m).trans_lt h.lt
  le := h.le

/-- The format is symmetric. -/
lemma InFormat.neg (h : InFormat x) : InFormat (-x) := by
  obtain ⟨m, e, h⟩ := h
  exact ⟨-m, e, h.neg⟩

/-- Zero is a number of the format. -/
lemma inFormat_zero : InFormat 0 :=
  ⟨0, minExponent, (by rw [Int.cast_zero, zero_mul]), by decide, le_refl _⟩

/-- The opposite of an even significand is even. -/
lemma IsEven.neg (h : IsEven x) : IsEven (-x) := by
  obtain ⟨m, e, h, heven⟩ := h
  refine ⟨-m, e, ⟨h.toIsFloat.neg, ?_⟩, heven.neg⟩
  rw [abs_neg]
  exact h.normal

/-- Rounding knows no sign. -/
lemma Nearest.neg {q : ℚ} (h : Nearest q x) : Nearest (-q) (-x) := by
  have hdist (y q : ℚ) : |-y - q| = |y - -q| := by
    rw [← abs_neg, neg_sub', neg_neg]
  refine ⟨h.mem.neg, fun y hy => ?_, fun y hy hne htie => ?_⟩
  · rw [hdist, neg_neg, ← hdist]
    exact h.closest (-y) hy.neg
  · rw [hdist, neg_neg, ← hdist] at htie
    exact (h.even (-y) hy.neg (fun he => hne (neg_eq_iff_eq_neg.1 he)) htie).neg

/-- A number of the format is nearest to itself. -/
lemma nearest_of_mem (h : InFormat x) : Nearest x x where
  mem := h
  closest y _ := by
    rw [sub_self, abs_zero]
    exact abs_nonneg _
  even y _ hne htie := by
    rw [sub_self, abs_zero, abs_eq_zero, sub_eq_zero] at htie
    exact absurd htie hne

/-- The magnitude of a number is told by that of its significand. -/
lemma IsFloat.abs_eq (h : IsFloat x m e) : |x| = |m| * 2 ^ e := by
  rw [h.eq, abs_mul, abs_of_pos (two_zpow_pos e), Int.cast_abs]

/-- The bound on significands, as a rational number. -/
lemma two_pow_precision : (((2 : ℤ) ^ precision : ℤ) : ℚ) = 2 ^ (precision : ℤ) := by
  rw [Int.cast_pow, Int.cast_ofNat, zpow_natCast]

/-- The top bit of a significand, as a rational number. -/
lemma two_pow_pred_precision :
    (((2 : ℤ) ^ (precision - 1) : ℤ) : ℚ) = 2 ^ ((precision : ℤ) - 1) := by
  rw [Int.cast_pow, Int.cast_ofNat, ← zpow_natCast, Nat.cast_pred (by decide)]

/-- The exponent bounds a number from above. -/
lemma IsFloat.abs_lt (h : IsFloat x m e) : |x| < 2 ^ (precision + e) := by
  rw [h.abs_eq, two_zpow_add, ← two_pow_precision]
  exact mul_lt_mul_of_pos_right (Int.cast_lt.2 h.lt) (two_zpow_pos e)

/-- With the top bit set, the exponent bounds a number from below. -/
lemma IsFloat.le_abs (h : IsFloat x m e) (hm : 2 ^ (precision - 1) ≤ |m|) :
    2 ^ ((precision : ℤ) - 1 + e) ≤ |x| := by
  rw [h.abs_eq, two_zpow_add, ← two_pow_pred_precision]
  exact mul_le_mul_of_nonneg_right (Int.cast_le.2 hm) (two_zpow_pos e).le

/-- What lies below half of the least number rounds to zero. -/
lemma nearest_zero {q : ℚ} (h : |q| < 2 ^ (minExponent - 1)) : Nearest q 0 := by
  have hfar : ∀ y, InFormat y → y ≠ 0 → |0 - q| < |y - q| := by
    rintro y ⟨m, e, hy⟩ hne
    have hm : m ≠ 0 := by
      rintro rfl
      exact hne (by rw [hy.eq, Int.cast_zero, zero_mul])
    have hle : (2 : ℚ) ^ minExponent ≤ |y| := by
      rw [hy.abs_eq]
      calc (2 : ℚ) ^ minExponent ≤ 2 ^ e := two_zpow_le hy.le
        _ ≤ |m| * 2 ^ e := le_mul_of_one_le_left (two_zpow_pos e).le
          (by exact_mod_cast Int.one_le_abs hm)
    have hhalf : (2 : ℚ) ^ minExponent = 2 ^ (minExponent - 1) * 2 := by
      rw [← zpow_add_one₀ two_ne_zero, sub_add_cancel]
    have htriangle := abs_sub_abs_le_abs_sub y q
    rw [zero_sub, abs_neg]
    linarith
  refine ⟨inFormat_zero, fun y hy => ?_, fun y hy hne htie => absurd htie (hfar y hy hne).ne'⟩
  by_cases hy0 : y = 0
  · rw [hy0]
  · exact (hfar y hy hy0).le

/-- Numbers of large exponents are multiples of small powers of two. -/
lemma IsFloat.exists_multiple (h : IsFloat x m e) {f : ℤ} (hf : f ≤ e) :
    ∃ k : ℤ, x = k * 2 ^ f ∧ (Even m → Even k) := by
  refine ⟨m * 2 ^ (e - f).toNat, ?_, fun hm => hm.mul_right _⟩
  rw [h.eq, two_zpow_eq_mul hf, Int.cast_mul, mul_assoc]

end Format

section Order

variable {q q' x y : ℚ}

/-- Even significands are not adjacent. -/
lemma exists_between_of_isEven (hx : IsEven x) (hy : IsEven y) (hpos : 0 ≤ x) (hlt : x < y) :
    ∃ z, InFormat z ∧ x < z ∧ z < y := by
  obtain ⟨m, e, ⟨hx, hnormal⟩, hm⟩ := hx
  obtain ⟨n, f, ⟨hy, -⟩, hn⟩ := hy
  have hnonneg : 0 ≤ m := by
    rw [hx.eq, mul_nonneg_iff_of_pos_right (two_zpow_pos e)] at hpos
    exact Int.cast_nonneg_iff.1 hpos
  -- the larger number does not have the smaller exponent
  have hexp : e ≤ f := by
    by_contra hfe
    have hmin := hy.le
    have htop : 2 ^ (precision - 1) ≤ |m| := hnormal.resolve_left (by omega)
    have hlow := hx.le_abs htop
    have hhigh := hy.abs_lt
    have hpow : (2 : ℚ) ^ (precision + f) ≤ 2 ^ ((precision : ℤ) - 1 + e) :=
      two_zpow_le (by omega)
    rw [abs_of_nonneg hpos] at hlow
    rw [abs_of_nonneg (hpos.trans hlt.le)] at hhigh
    linarith
  -- so both are even multiples of one power of two
  obtain ⟨k, hk, heven⟩ := hy.exists_multiple hexp
  have hmk : m < k := by
    rw [hx.eq, hk] at hlt
    exact Int.cast_lt.1 (lt_of_mul_lt_mul_right hlt (two_zpow_pos e).le)
  obtain ⟨i, hi⟩ := hm
  obtain ⟨j, hj⟩ := heven hn
  have hprecision := hx.lt
  rw [abs_of_nonneg hnonneg, show precision = 53 from rfl] at hprecision
  refine ⟨(m + 1 : ℤ) * 2 ^ e, ⟨m + 1, e, rfl, ?_, hx.le⟩, ?_, ?_⟩
  · rw [abs_of_nonneg (by omega), show precision = 53 from rfl]
    omega
  · rw [hx.eq]
    exact mul_lt_mul_of_pos_right (Int.cast_lt.2 (by omega)) (two_zpow_pos e)
  · rw [hk]
    exact mul_lt_mul_of_pos_right (Int.cast_lt.2 (by omega)) (two_zpow_pos e)

/-- The larger one of two numbers is nearer to what is not below their middle. -/
lemma abs_sub_le_iff_of_lt (h : x < y) : |y - q| ≤ |x - q| ↔ x + y ≤ 2 * q := by
  have hfactor : (x - q) ^ 2 - (y - q) ^ 2 = (y - x) * (2 * q - (x + y)) := by ring
  rw [← sq_le_sq, ← sub_nonneg, hfactor, mul_nonneg_iff_of_pos_left (sub_pos.2 h), sub_nonneg]

/-- The smaller one of two numbers is nearer to what is not above their middle. -/
lemma abs_sub_le_iff_of_gt (h : x < y) : |x - q| ≤ |y - q| ↔ 2 * q ≤ x + y := by
  have hfactor : (y - q) ^ 2 - (x - q) ^ 2 = (y - x) * (x + y - 2 * q) := by ring
  rw [← sq_le_sq, ← sub_nonneg, hfactor, mul_nonneg_iff_of_pos_left (sub_pos.2 h), sub_nonneg]

/-- Nothing of the format lies between two numbers that are equally near. -/
lemma Nearest.not_between {z : ℚ} (hx : Nearest q x) (hy : Nearest q y) (hz : InFormat z) :
    ¬ (x < z ∧ z < y) := by
  rintro ⟨hxz, hzy⟩
  have hlow := (abs_sub_le_iff_of_gt hxz).1 (hx.closest z hz)
  have hhigh := (abs_sub_le_iff_of_lt hzy).1 (hy.closest z hz)
  linarith

/-- Of two numbers that are equally near, neither comes before the other. -/
lemma Nearest.le (hx : Nearest q x) (hy : Nearest q y) : y ≤ x := by
  by_contra hlt
  rw [not_le] at hlt
  have htie := le_antisymm (hx.closest y hy.mem) (hy.closest x hx.mem)
  have hxe := hx.even y hy.mem hlt.ne' htie.symm
  have hye := hy.even x hx.mem hlt.ne htie
  rcases le_or_gt 0 x with hpos | hneg
  · obtain ⟨z, hz, hbetween⟩ := exists_between_of_isEven hxe hye hpos hlt
    exact hx.not_between hy hz hbetween
  · rcases le_or_gt y 0 with hneg' | hpos'
    · obtain ⟨z, hz, hyz, hzx⟩ :=
        exists_between_of_isEven hye.neg hxe.neg (neg_nonneg.2 hneg') (neg_lt_neg hlt)
      exact hx.not_between hy hz.neg ⟨lt_neg.1 hzx, neg_lt.1 hyz⟩
    · exact hx.not_between hy inFormat_zero ⟨hneg, hpos'⟩

/-- There is no more than one nearest number. -/
lemma Nearest.unique (hx : Nearest q x) (hy : Nearest q y) : x = y :=
  le_antisymm (hy.le hx) (hx.le hy)

/-- Rounding keeps the order. -/
lemma Nearest.mono (hx : Nearest q x) (hy : Nearest q' y) (h : q ≤ q') : x ≤ y := by
  by_contra hyx
  rw [not_le] at hyx
  -- each of them is nearer to its number than the other one, so both numbers are in their middle
  have hxq := (abs_sub_le_iff_of_lt hyx).1 (hx.closest y hy.mem)
  have hyq := (abs_sub_le_iff_of_gt hyx).1 (hy.closest x hx.mem)
  obtain rfl : q = q' := le_antisymm h (by linarith)
  exact hyx.ne (hy.unique hx)

end Order

section Candidates

variable {q r : ℚ} {m e : ℤ}

/-- `m` is the whole number that is nearest to `r`, a tie going to the even one. -/
structure NearestInt (r : ℚ) (m : ℤ) : Prop where
  le : |m - r| ≤ 1 / 2
  even : |m - r| = 1 / 2 → Even m

/-- Whole numbers differ by one at least. -/
lemma one_le_add_of_ne {k : ℤ} (h : k ≠ m) : 1 ≤ |(k : ℚ) - r| + |m - r| := by
  have hone : (1 : ℚ) ≤ |(k : ℚ) - m| := by
    rw [← Int.cast_sub, ← Int.cast_abs]
    exact_mod_cast Int.one_le_abs (sub_ne_zero.2 h)
  calc (1 : ℚ) ≤ |(k : ℚ) - m| := hone
    _ = |(k - r) - (m - r)| := by rw [sub_sub_sub_cancel_right]
    _ ≤ |(k : ℚ) - r| + |m - r| := abs_sub _ _

/-- No whole number is closer than the nearest one. -/
lemma NearestInt.closest (h : NearestInt r m) (k : ℤ) : |(m : ℚ) - r| ≤ |k - r| := by
  by_cases hk : k = m
  · rw [hk]
  · have := one_le_add_of_ne (r := r) hk
    have := h.le
    linarith

/-- When another whole number is as close, the nearest one is even. -/
lemma NearestInt.even_of_tie (h : NearestInt r m) {k : ℤ} (hk : k ≠ m)
    (htie : |(k : ℚ) - r| = |m - r|) : Even m := by
  have := one_le_add_of_ne (r := r) hk
  have := h.le
  exact h.even (by linarith)

/-- Distances scale with the last bit. -/
lemma abs_mul_sub (k e : ℤ) (q : ℚ) :
    |(k : ℚ) * 2 ^ e - q| = |k - q / 2 ^ e| * 2 ^ e := by
  have hpos := two_zpow_pos e
  conv_rhs =>
    rw [← abs_of_pos hpos, ← abs_mul, abs_of_pos hpos, sub_mul, div_mul_cancel₀ _ hpos.ne']

/-- `e` is the exponent of the last bit that the significand of `q` has room for. -/
structure LastBit (q : ℚ) (e : ℤ) : Prop where
  nonneg : 0 ≤ q
  le : minExponent ≤ e
  lt : q < 2 ^ (precision + e)
  normal : e = minExponent ∨ 2 ^ ((precision : ℤ) - 1 + e) ≤ q

/-- A significand that has reached the next power of two, and the exponent that it has then. -/
def carry (m : ℕ) (e : ℤ) : ℕ × ℤ :=
  if m = 2 * hiddenBit then (hiddenBit, e + 1) else (m, e)

section Rounded

variable {m : ℕ} (hq : LastBit q e) (h : NearestInt (q / 2 ^ e) m)

include hq h

/-- The significand has as many bits as the format, or it has just reached the next power of two. -/
lemma LastBit.bounds : m ≤ 2 ^ precision ∧ (e = minExponent ∨ 2 ^ (precision - 1) ≤ m) := by
  have hpos := two_zpow_pos e
  obtain ⟨hlow, hhigh⟩ := abs_le.1 h.le
  rw [Int.cast_natCast] at hlow hhigh
  refine ⟨?_, hq.normal.imp_right fun htop => ?_⟩
  · have hlt := hq.lt
    rw [two_zpow_add, ← div_lt_iff₀ hpos, zpow_natCast] at hlt
    have : (m : ℚ) < ((2 ^ precision + 1 : ℕ) : ℚ) := by
      push_cast
      linarith
    exact Nat.lt_succ_iff.1 (Nat.cast_lt.1 this)
  · rw [two_zpow_add, ← le_div_iff₀ hpos, ← Nat.cast_pred (by decide), zpow_natCast] at htop
    have : ((2 ^ (precision - 1) : ℕ) : ℚ) < ((m + 1 : ℕ) : ℚ) := by
      push_cast
      linarith
    exact Nat.lt_succ_iff.1 (Nat.cast_lt.1 this)

/-- The rounded significand, carried where needed, is the normal one. -/
lemma LastBit.isNormal_carry : IsNormal (m * 2 ^ e) (carry m e).1 (carry m e).2 := by
  obtain ⟨hle, hnormal⟩ := hq.bounds h
  have he := hq.le
  rw [carry]
  split
  · rename_i hm
    have hlt : |(hiddenBit : ℤ)| < 2 ^ precision := by decide
    have hge : 2 ^ (precision - 1) ≤ |(hiddenBit : ℤ)| := by decide
    refine ⟨⟨?_, hlt, he.trans (lt_add_one e).le⟩, .inr hge⟩
    rw [hm, two_zpow_add, zpow_one]
    push_cast
    ring
  · rename_i hm
    refine ⟨⟨by rw [Int.cast_natCast], ?_, he⟩, ?_⟩
    · rw [Nat.abs_cast]
      exact_mod_cast lt_of_le_of_ne hle hm
    · rw [Nat.abs_cast]
      exact_mod_cast hnormal

/-- Rounding to an even whole number gives an even significand. -/
lemma LastBit.isEven (hm : Even (m : ℤ)) : IsEven (m * 2 ^ e) := by
  refine ⟨_, _, hq.isNormal_carry h, ?_⟩
  have heven : Even (hiddenBit : ℤ) := by decide
  rw [carry]
  split
  · exact heven
  · exact hm

omit hq in
/-- No multiple of the last bit is closer than the rounded one. -/
lemma abs_mul_sub_le (k : ℤ) : |(m : ℚ) * 2 ^ e - q| ≤ |k * 2 ^ e - q| := by
  rw [← Int.cast_natCast (R := ℚ) m, abs_mul_sub, abs_mul_sub]
  exact mul_le_mul_of_nonneg_right (h.closest k) (two_zpow_pos e).le

/-- What is not a multiple of the last bit lies below the first bit of the number, and is no nearer
to it than that. -/
lemma LastBit.exists_multiple_or_lt {y : ℚ} (hy : InFormat y) :
    (∃ k : ℤ, y = k * 2 ^ e) ∨ |(m : ℚ) * 2 ^ e - q| < |y - q| := by
  obtain ⟨n, f, hy⟩ := hy
  rcases le_or_gt e f with hef | hfe
  · obtain ⟨k, hk, -⟩ := hy.exists_multiple hef
    exact .inl ⟨k, hk⟩
  · have hlow : (2 : ℚ) ^ ((precision : ℤ) - 1 + e) ≤ q :=
      hq.normal.resolve_left (hy.le.trans_lt hfe).ne'
    have hyt : y < 2 ^ ((precision : ℤ) - 1 + e) :=
      ((le_abs_self y).trans_lt hy.abs_lt).trans_le (two_zpow_le (by omega))
    have htop := abs_mul_sub_le h (2 ^ (precision - 1))
    rw [two_pow_pred_precision, ← two_zpow_add, abs_of_nonpos (sub_nonpos.2 hlow)] at htop
    rw [abs_of_neg (sub_neg.2 (hyt.trans_le hlow))]
    exact .inr (by linarith)

/-- Rounding to a whole number of last bits finds the nearest number. -/
lemma LastBit.nearest : Nearest q (m * 2 ^ e) := by
  refine ⟨⟨_, _, (hq.isNormal_carry h).toIsFloat⟩, fun y hy => ?_, fun y hy hne htie => ?_⟩
  · rcases hq.exists_multiple_or_lt h hy with ⟨k, rfl⟩ | hlt
    · exact abs_mul_sub_le h k
    · exact hlt.le
  · rcases hq.exists_multiple_or_lt h hy with ⟨k, rfl⟩ | hlt
    · rw [← Int.cast_natCast (R := ℚ) m, abs_mul_sub, abs_mul_sub] at htie
      have hk : k ≠ m := fun hk => hne (by rw [hk, Int.cast_natCast])
      exact hq.isEven h (h.even_of_tie hk (mul_right_cancel₀ (two_zpow_pos e).ne' htie))
    · exact absurd htie hlt.ne'

end Rounded

end Candidates

end InlineExpr.Binary64
