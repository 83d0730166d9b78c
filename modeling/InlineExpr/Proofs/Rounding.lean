import InlineExpr.Proofs.Literals
import InlineExpr.Proofs.NearestFloat
import Mathlib.Order.Compare

/-!
# Rounding to binary floating point

A numeral reads as the number of the format that is nearest to it (`ofRatio_stands`,
`ofScientific_stands`): its logarithm has the exponent of the last bit found, and the ratio is
divided to that bit. Numbers so far out that no power of ten is formed for them round to zero, or to
an infinity where the format ends (`Stands`). Binary numbers are ordered like what they stand for
(`compare?_of_stands`).
-/

namespace InlineExpr.Binary64

section Steps

variable {num den : ℕ}

/-- A whole number within half a denominator is nearest to the ratio. -/
lemma nearestInt_of_abs_le {m : ℤ} (hden : 0 < den) (h : 2 * |m * den - num| ≤ den)
    (heven : 2 * |m * den - num| = den → Even m) : NearestInt (num / den) m := by
  have hden' : (0 : ℚ) < den := Nat.cast_pos.2 hden
  have hdist : |(m : ℚ) - num / den| = (|m * den - num| : ℤ) / den := by
    rw [Int.cast_abs]
    push_cast
    rw [← abs_of_pos hden', ← abs_div, abs_of_pos hden', sub_div, mul_div_cancel_right₀ _ hden'.ne']
  constructor
  · rw [hdist, div_le_div_iff₀ hden' two_pos, one_mul, mul_comm]
    exact_mod_cast h
  · intro htie
    rw [hdist, div_eq_div_iff hden'.ne' two_ne_zero, one_mul, mul_comm] at htie
    exact heven (by exact_mod_cast htie)

/-- The quotient is rounded to the nearest whole number. -/
lemma nearestInt_divideToEven (num : ℕ) (hden : 0 < den) :
    NearestInt (num / den) (divideToEven num den : ℕ) := by
  have hmod := Nat.mod_lt num hden
  have hdiv : (num : ℤ) = (num / den : ℕ) * den + (num % den : ℕ) := by
    exact_mod_cast (Nat.div_add_mod' num den).symm
  have hbelow : |((num / den : ℕ) : ℤ) * den - num| = (num % den : ℕ) := by
    rw [hdiv, sub_add_cancel_left, abs_neg, Nat.abs_cast]
  have habove : |((num / den + 1 : ℕ) : ℤ) * den - num| = den - (num % den : ℕ) := by
    rw [hdiv, Nat.cast_succ, add_one_mul, add_sub_add_left_eq_sub, abs_of_nonneg (by omega)]
  rw [divideToEven]
  split
  · exact nearestInt_of_abs_le hden (by omega) (by omega)
  · split
    · exact nearestInt_of_abs_le hden (by omega) (by omega)
    · -- between two whole numbers the even one is taken
      rcases Nat.mod_two_eq_zero_or_one (num / den) with heven | hodd
      · rw [heven, add_zero]
        exact nearestInt_of_abs_le hden (by omega)
          fun _ => (Int.even_coe_nat _).2 (Nat.even_iff.2 heven)
      · rw [hodd]
        refine nearestInt_of_abs_le hden (by omega) fun _ => (Int.even_coe_nat _).2 ?_
        rw [Nat.even_iff]
        omega

/-- Scaling a ratio by a power of two keeps the denominator positive. -/
lemma scaleRatio_pos (num : ℕ) (hden : 0 < den) (e : ℤ) : 0 < (scaleRatio num den e).2 := by
  rw [scaleRatio]
  split
  · exact hden
  · exact Nat.mul_pos hden (Nat.two_pow_pos _)

/-- The power of two that is computed, as a rational number. -/
lemma cast_twoPow (n : ℕ) : ((Numeral.twoPow n : ℕ) : ℚ) = 2 ^ (n : ℤ) := by
  rw [zpow_natCast]
  exact_mod_cast rfl

/-- A scaled ratio is the ratio times the power of two. -/
lemma scaleRatio_div (num den : ℕ) (e : ℤ) :
    ((scaleRatio num den e).1 : ℚ) / (scaleRatio num den e).2 = num / den * 2 ^ e := by
  rw [scaleRatio]
  split
  · rw [Nat.cast_mul, cast_twoPow, Int.toNat_of_nonneg ‹_›, mul_div_right_comm]
  · rw [Nat.cast_mul, cast_twoPow, Int.toNat_of_nonneg (by omega), zpow_neg, ← div_div,
      div_inv_eq_mul]

/-- The logarithm of a ratio is that of its numerator less that of its denominator, or one less. -/
lemma log2Ratio_spec (hnum : 0 < num) (hden : 0 < den) :
    (2 : ℚ) ^ log2Ratio num den ≤ num / den ∧ (num : ℚ) / den < 2 ^ (log2Ratio num den + 1) := by
  have hden' : (0 : ℚ) < den := Nat.cast_pos.2 hden
  have hlog {n : ℕ} (hn : 0 < n) :
      (2 : ℚ) ^ (n.log2 : ℤ) ≤ n ∧ (n : ℚ) < 2 ^ ((n.log2 : ℤ) + 1) := by
    constructor
    · rw [zpow_natCast]
      exact_mod_cast Nat.log2_self_le hn.ne'
    · rw [← Nat.cast_succ, zpow_natCast]
      exact_mod_cast Nat.lt_log2_self
  obtain ⟨hnumlow, hnumhigh⟩ := hlog hnum
  obtain ⟨hdenlow, hdenhigh⟩ := hlog hden
  have hlow : (2 : ℚ) ^ ((num.log2 : ℤ) - den.log2 - 1) ≤ num / den := by
    rw [le_div_iff₀ hden']
    calc (2 : ℚ) ^ ((num.log2 : ℤ) - den.log2 - 1) * den
        ≤ 2 ^ ((num.log2 : ℤ) - den.log2 - 1) * 2 ^ ((den.log2 : ℤ) + 1) :=
          mul_le_mul_of_nonneg_left hdenhigh.le (two_zpow_pos _).le
      _ = 2 ^ (num.log2 : ℤ) := by
          rw [← two_zpow_add]
          congr 1
          ring
      _ ≤ num := hnumlow
  have hhigh : (num : ℚ) / den < 2 ^ ((num.log2 : ℤ) - den.log2 + 1) := by
    rw [div_lt_iff₀ hden']
    calc (num : ℚ) < 2 ^ ((num.log2 : ℤ) + 1) := hnumhigh
      _ = 2 ^ ((num.log2 : ℤ) - den.log2 + 1) * 2 ^ (den.log2 : ℤ) := by
          rw [← two_zpow_add]
          congr 1
          ring
      _ ≤ 2 ^ ((num.log2 : ℤ) - den.log2 + 1) * den :=
          mul_le_mul_of_nonneg_left hdenlow (two_zpow_pos _).le
  rw [log2Ratio]
  dsimp only
  generalize (num.log2 : ℤ) - den.log2 = e at *
  -- which of the two it is shows where the ratio lies to the power of two between them
  have hbetween : (scaleRatio num den (-e)).2 ≤ (scaleRatio num den (-e)).1 ↔
      (2 : ℚ) ^ e ≤ num / den := by
    have hpos : (0 : ℚ) < (scaleRatio num den (-e)).2 := Nat.cast_pos.2 (scaleRatio_pos num hden _)
    rw [← one_le_div (two_zpow_pos e), div_eq_mul_inv, ← zpow_neg, ← scaleRatio_div,
      one_le_div hpos, Nat.cast_le]
  split
  · exact ⟨hbetween.1 ‹_›, hhigh⟩
  · rw [sub_add_cancel]
    exact ⟨hlow, not_le.1 (mt hbetween.2 ‹_›)⟩

end Steps

section Values

variable {v w : ℚ} {x y : Binary64}

/-- The power of two that the format ends at. -/
def limit : ℚ :=
  2 ^ (precision + maxExponent)

/-- Four hundred powers of ten outgrow twelve hundred powers of two. -/
lemma two_zpow_le_ten_zpow : (2 : ℚ) ^ (1200 : ℤ) ≤ 10 ^ (400 : ℤ) := by
  rw [show (1200 : ℤ) = 3 * 400 from rfl, zpow_mul]
  exact zpow_le_zpow_left₀ (by norm_num) (by norm_num) (by norm_num)

/-- Large powers of ten lie beyond the greatest number of the format. -/
lemma limit_le : limit ≤ 10 ^ (400 : ℤ) :=
  (two_zpow_le (by decide)).trans two_zpow_le_ten_zpow

/-- Small powers of ten lie below half of the least number. -/
lemma ten_zpow_le : (10 : ℚ) ^ (-400 : ℤ) ≤ 2 ^ (minExponent - 1) := by
  calc (10 : ℚ) ^ (-400 : ℤ) = (10 ^ (400 : ℤ))⁻¹ := zpow_neg _ _
    _ ≤ (2 ^ (1200 : ℤ))⁻¹ := inv_anti₀ (two_zpow_pos _) two_zpow_le_ten_zpow
    _ = 2 ^ (-1200 : ℤ) := (zpow_neg _ _).symm
    _ ≤ 2 ^ (minExponent - 1) := two_zpow_le (by decide)

/-- A binary number stands for `v`, an infinity for everything from the limit on. -/
def Stands (v : ℚ) : Binary64 → Prop
  | nan => False
  | infinite negative => if negative then v ≤ -limit else limit ≤ v
  | finite negative m e => v = Numeral.signed negative m * 2 ^ e ∧ minExponent ≤ e ∧ |v| < limit

/-- A number with the sign it was written with. -/
def signed (negative : Bool) (q : ℚ) : ℚ :=
  if negative then -q else q

/-- Zero has no sign. -/
lemma signed_zero (negative : Bool) : signed negative 0 = 0 := by
  cases negative with
  | true => exact neg_zero
  | false => rfl

/-- The sign does not change the magnitude. -/
lemma abs_signed (negative : Bool) (q : ℚ) : |signed negative q| = |q| := by
  cases negative with
  | true => exact abs_neg q
  | false => rfl

/-- A signed whole number, as a rational number. -/
lemma cast_signed (negative : Bool) (n : ℕ) :
    ((Numeral.signed negative n : ℤ) : ℚ) = signed negative n := by
  cases negative with
  | true => exact Int.cast_neg _
  | false => rfl

/-- The sign of a product is that of its first factor, if the second has none. -/
lemma signed_mul (negative : Bool) (q r : ℚ) : signed negative (q * r) = signed negative q * r := by
  cases negative with
  | true => exact (neg_mul q r).symm
  | false => rfl

/-- Rounding to the nearest number keeps the sign. -/
lemma Nearest.signed {q : ℚ} (negative : Bool) (h : Nearest q v) :
    Nearest (signed negative q) (Binary64.signed negative v) := by
  cases negative with
  | true => exact h.neg
  | false => exact h

/-- A number of the format is written with its significand and exponent, unless the format has
ended. -/
lemma stands_of_isNormal {m : ℕ} {e : ℤ} (negative : Bool) (h : IsNormal v m e) :
    Stands (signed negative v)
      (if maxExponent < e then infinite negative else finite negative m e) := by
  have hpos : 0 ≤ v := by
    rw [h.eq]
    exact mul_nonneg (Int.cast_nonneg (Int.natCast_nonneg m)) (two_zpow_pos e).le
  split
  · rename_i hlt
    have hmin : e ≠ minExponent := by
      have : minExponent < maxExponent := by decide
      omega
    have hlimit : limit ≤ v := by
      calc limit ≤ 2 ^ ((precision : ℤ) - 1 + e) := two_zpow_le (by omega)
        _ ≤ |v| := h.le_abs (h.normal.resolve_left hmin)
        _ = v := abs_of_nonneg hpos
    cases negative with
    | true => exact neg_le_neg hlimit
    | false => exact hlimit
  · refine ⟨?_, h.le, ?_⟩
    · rw [cast_signed, ← signed_mul, h.eq, Int.cast_natCast]
    · rw [abs_signed]
      exact h.abs_lt.trans_le (two_zpow_le (by omega))

/-- The exponent of the last bit follows from the logarithm. -/
lemma lastBit_log2Ratio {num den : ℕ} (hnum : 0 < num) (hden : 0 < den) :
    LastBit (num / den) (max minExponent (log2Ratio num den - (precision - 1 : ℕ))) := by
  obtain ⟨hlow, hhigh⟩ := log2Ratio_spec hnum hden
  rw [Nat.cast_pred (by decide)]
  refine ⟨by positivity, le_max_left _ _, hhigh.trans_le (two_zpow_le (by omega)), ?_⟩
  rcases max_choice minExponent (log2Ratio num den - ((precision : ℤ) - 1)) with h | h
  · exact .inl h
  · right
    rw [h, add_sub_cancel]
    exact hlow

/-- A zero of either sign stands for zero. -/
lemma stands_zero (negative : Bool) : Stands 0 (finite negative 0 minExponent) := by
  refine ⟨?_, le_refl _, ?_⟩
  · rw [cast_signed, ← signed_mul, Nat.cast_zero, zero_mul, signed_zero]
  · rw [abs_zero]
    exact two_zpow_pos _

/-- A ratio is rounded to the nearest number of the format. -/
lemma ofRatio_stands (negative : Bool) (num : ℕ) {den : ℕ} (hden : 0 < den) :
    ∃ v, Nearest (signed negative (num / den)) v ∧ Stands v (ofRatio negative num den) := by
  rcases num.eq_zero_or_pos with rfl | hnum
  · rw [Nat.cast_zero, zero_div, signed_zero]
    exact ⟨0, nearest_of_mem inFormat_zero, stands_zero negative⟩
  · have hbit := lastBit_log2Ratio hnum hden
    rw [ofRatio, if_neg hnum.ne']
    dsimp only
    generalize max minExponent (log2Ratio num den - (precision - 1 : ℕ)) = e at *
    have hint := nearestInt_divideToEven (scaleRatio num den (-e)).1 (scaleRatio_pos num hden (-e))
    rw [scaleRatio_div, zpow_neg, ← div_eq_mul_inv] at hint
    exact ⟨_, (hbit.nearest hint).signed negative,
      stands_of_isNormal negative (hbit.isNormal_carry hint)⟩

/-- Every number has a nearest one. -/
lemma exists_nearest {q : ℚ} (hq : 0 ≤ q) : ∃ v, Nearest q v := by
  obtain ⟨v, hv, -⟩ := ofRatio_stands false q.num.toNat q.den_pos
  have hnum : ((q.num.toNat : ℕ) : ℚ) = q.num := by
    rw [← Int.cast_natCast, Int.toNat_of_nonneg (Rat.num_nonneg.2 hq)]
  rw [hnum, signed, if_neg Bool.false_ne_true, Rat.num_div_den] at hv
  exact ⟨v, hv⟩

/-- The format, had it no end, would go on with the limit. -/
lemma inFormat_limit : InFormat limit := by
  refine ⟨2 ^ (precision - 1), maxExponent + 1, ?_, by decide, by decide⟩
  rw [two_pow_pred_precision, ← two_zpow_add]
  rfl

/-- A numeral is read as the nearest number of the format. -/
lemma ofScientific_stands (negative : Bool) {ds : Text} (hds : ∀ c ∈ ds, c.isDigit = true)
    (exponent : ℤ) : ∃ v, Nearest (signed negative (Numeral.ofDigits ds * 10 ^ exponent)) v ∧
      Stands v (ofScientific negative ds exponent) := by
  rw [ofScientific]
  split
  · rename_i hzero
    rw [hzero, Nat.cast_zero, zero_mul, signed_zero]
    exact ⟨0, nearest_of_mem inFormat_zero, stands_zero negative⟩
  · rename_i hne
    obtain ⟨hlow, hhigh⟩ := Numeral.ofDigits_bounds hds hne
    have hten := Decimal.ten_zpow_pos exponent
    have hpos : (0 : ℚ) ≤ Numeral.ofDigits ds * 10 ^ exponent := by positivity
    generalize (ds.dropWhile (· == '0')).length = len at *
    split
    · -- beyond the greatest number
      have hlimit : limit ≤ Numeral.ofDigits ds * 10 ^ exponent := by
        calc limit ≤ 10 ^ (400 : ℤ) := limit_le
          _ ≤ 10 ^ ((len : ℤ) - 1 + exponent) := zpow_le_zpow_right₀ (by norm_num) (by omega)
          _ = 10 ^ ((len : ℤ) - 1) * 10 ^ exponent := Decimal.ten_zpow_add _ _
          _ ≤ Numeral.ofDigits ds * 10 ^ exponent := mul_le_mul_of_nonneg_right hlow hten.le
      obtain ⟨v, hv⟩ := exists_nearest hpos
      have hvlimit := (nearest_of_mem inFormat_limit).mono hv hlimit
      refine ⟨signed negative v, hv.signed negative, ?_⟩
      cases negative with
      | true => exact neg_le_neg hvlimit
      | false => exact hvlimit
    · split
      · -- below half of the least number
        refine ⟨0, nearest_zero ?_, stands_zero negative⟩
        rw [abs_signed, abs_of_nonneg hpos]
        calc Numeral.ofDigits ds * (10 : ℚ) ^ exponent
            < 10 ^ (len : ℤ) * 10 ^ exponent := mul_lt_mul_of_pos_right hhigh hten
          _ = 10 ^ (len + exponent) := (Decimal.ten_zpow_add _ _).symm
          _ ≤ 10 ^ (-400 : ℤ) := zpow_le_zpow_right₀ (by norm_num) (by omega)
          _ ≤ 2 ^ (minExponent - 1) := ten_zpow_le
      · split
        · have h := ofRatio_stands negative (Numeral.ofDigits ds * Numeral.tenPow exponent.toNat)
            Nat.one_pos
          rwa [Nat.cast_mul, Decimal.tenPow_toNat ‹_›, Nat.cast_one, div_one] at h
        · have hpow : 0 < Numeral.tenPow (-exponent).toNat := Nat.pow_pos (by decide)
          have h := ofRatio_stands negative (Numeral.ofDigits ds) hpow
          rwa [Decimal.tenPow_toNat (by omega), zpow_neg, div_inv_eq_mul] at h

/-- The number at which a binary number stands in the order: infinities stand where the format
ends. -/
def clamp (v : ℚ) : ℚ :=
  max (-limit) (min v limit)

/-- Clamping keeps the order. -/
lemma clamp_mono (h : v ≤ w) : clamp v ≤ clamp w :=
  max_le_max_left _ (min_le_min_right _ h)

/-- The limit is positive. -/
lemma limit_pos : 0 < limit :=
  two_zpow_pos _

/-- From the limit on, a number is clamped to it. -/
lemma clamp_of_le (h : limit ≤ v) : clamp v = limit := by
  have := limit_pos
  rw [clamp, min_eq_right h, max_eq_right (by linarith)]

/-- Down from the opposite of the limit, a number is clamped to that. -/
lemma clamp_of_le_neg (h : v ≤ -limit) : clamp v = -limit :=
  max_eq_left ((min_le_left _ _).trans h)

/-- A number inside of the limits is not clamped. -/
lemma clamp_of_abs_lt (h : |v| < limit) : clamp v = v := by
  obtain ⟨hlow, hhigh⟩ := abs_lt.1 h
  rw [clamp, min_eq_left hhigh.le, max_eq_right hlow.le]

/-- Two comparisons are alike when both orders agree in what is less. -/
lemma compare_eq_of_lt_iff {α β : Type} [LinearOrder α] [LinearOrder β] {a b : α} {c d : β}
    (hlt : a < b ↔ c < d) (hgt : b < a ↔ d < c) : compare a b = compare c d := by
  rcases lt_trichotomy c d with h | rfl | h
  · rw [compare_lt_iff_lt.2 h, compare_lt_iff_lt.2 (hlt.2 h)]
  · rw [compare_eq_iff_eq.2 rfl, compare_eq_iff_eq]
    exact le_antisymm (not_lt.1 (mt hgt.1 (lt_irrefl c))) (not_lt.1 (mt hlt.1 (lt_irrefl c)))
  · rw [compare_gt_iff_gt.2 h, compare_gt_iff_gt.2 (hgt.2 h)]

/-- Counted in the least unit, a binary number is a whole number. -/
lemma units_eq (negative : Bool) (m : ℕ) {e : ℤ} (h : minExponent ≤ e) :
    (units negative m e : ℚ) = Numeral.signed negative m * 2 ^ e * 2 ^ (-minExponent) := by
  rw [units, cast_signed, cast_signed, Nat.cast_mul, cast_twoPow,
    Int.toNat_of_nonneg (sub_nonneg.2 h), signed_mul, mul_assoc, ← two_zpow_add, sub_eq_add_neg]

/-- Finite numbers are ordered by their multiples of the least one. -/
lemma compare_units {s t : Bool} {m n : ℕ} {e f : ℤ} (hx : Stands v (finite s m e))
    (hy : Stands w (finite t n f)) : compare (units s m e) (units t n f) = compare v w := by
  obtain ⟨hv, he, -⟩ := hx
  obtain ⟨hw, hf, -⟩ := hy
  have hpos := two_zpow_pos (-minExponent)
  have hlt {s t : Bool} {m n : ℕ} {e f : ℤ} {v w : ℚ} (hv : v = Numeral.signed s m * 2 ^ e)
      (hw : w = Numeral.signed t n * 2 ^ f) (he : minExponent ≤ e) (hf : minExponent ≤ f) :
      units s m e < units t n f ↔ v < w := by
    rw [← Int.cast_lt (R := ℚ), units_eq s m he, units_eq t n hf, ← hv, ← hw]
    exact mul_lt_mul_iff_left₀ hpos
  exact compare_eq_of_lt_iff (hlt hv hw he hf) (hlt hw hv hf he)

/-- Binary numbers are ordered like what they stand for. -/
lemma compare?_of_stands (hx : Stands v x) (hy : Stands w y) :
    compare? x y = some (compare (clamp v) (clamp w)) := by
  have hlimit := limit_pos
  have hfinite {v : ℚ} {s : Bool} {m : ℕ} {e : ℤ} (h : Stands v (finite s m e)) :
      clamp v = v ∧ -limit < v ∧ v < limit :=
    ⟨clamp_of_abs_lt h.2.2, (abs_lt.1 h.2.2).1, (abs_lt.1 h.2.2).2⟩
  match x, y with
  | nan, _ => exact hx.elim
  | infinite _, nan | finite _ _ _, nan => exact hy.elim
  | infinite true, infinite true =>
    rw [clamp_of_le_neg hx, clamp_of_le_neg hy, compare_eq_iff_eq.2 rfl]
    rfl
  | infinite false, infinite false =>
    rw [clamp_of_le hx, clamp_of_le hy, compare_eq_iff_eq.2 rfl]
    rfl
  | infinite true, infinite false =>
    rw [clamp_of_le_neg hx, clamp_of_le hy, compare_lt_iff_lt.2 (by linarith)]
    rfl
  | infinite false, infinite true =>
    rw [clamp_of_le hx, clamp_of_le_neg hy, compare_gt_iff_gt.2 (by linarith)]
    rfl
  | infinite true, finite t n f =>
    obtain ⟨hw, hlow, -⟩ := hfinite hy
    rw [clamp_of_le_neg hx, hw, compare_lt_iff_lt.2 hlow]
    rfl
  | infinite false, finite t n f =>
    obtain ⟨hw, -, hhigh⟩ := hfinite hy
    rw [clamp_of_le hx, hw, compare_gt_iff_gt.2 hhigh]
    rfl
  | finite s m e, infinite true =>
    obtain ⟨hv, hlow, -⟩ := hfinite hx
    rw [hv, clamp_of_le_neg hy, compare_gt_iff_gt.2 hlow]
    rfl
  | finite s m e, infinite false =>
    obtain ⟨hv, -, hhigh⟩ := hfinite hx
    rw [hv, clamp_of_le hy, compare_lt_iff_lt.2 hhigh]
    rfl
  | finite s m e, finite t n f =>
    rw [(hfinite hx).1, (hfinite hy).1, ← compare_units hx hy]
    rfl

end Values

end InlineExpr.Binary64
