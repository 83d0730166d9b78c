import InlineExpr.Number.Division
import InlineExpr.Proofs.DecimalValue
import Mathlib.Data.Int.LeastGreatest
import Mathlib.Data.Nat.GCD.Basic
import Mathlib.Data.Nat.Prime.Basic
import Mathlib.Order.Bounds.Basic

/-!
# Quotients of decimals

A quotient that has a scale at all is to be exact, at the least scale that it has and that is not
below the difference of the scales of the operands; any other quotient is to be rounded, and to be
off by less than half a unit of its last place (`Decimal.IsQuotient`). Division is right just if the
scale that is called for fits in 64 bits (`Decimal.div_exact_or_rounded_iff`): the difference of two
scales may go around, and then the search starts in a wrong place
(`Decimal.not_exact_or_rounded_overflow`).

Whether a fraction has a scale is a question about its denominator in lowest terms, which must
divide a power of ten: nothing but one is left of it once it is stripped of twos and of fives
(`isTerminating_iff`). The search goes up place by place, so what it ends with is the least scale
that the quotient has (`exactFrom_of_isLeast`). No midpoint is ever rounded, because what lies
halfway between two decimals has one place more.
-/

namespace InlineExpr.Decimal

section Terminating

variable {n d factor : ℕ}

end Terminating

section Rounding

variable {num den : ℤ}

end Rounding

section Ratios

variable {num den : ℤ} {a b : Decimal} {x : Int64} {s : ℤ}

end Ratios

section Scales

variable {a b r : Decimal} {x : Int64} {s t : ℤ}

end Scales

section Quotients

variable {a b r : Decimal} {x : Int64} {s t : ℤ}

/-- The scale that the quotient of two decimals calls for. -/
structure IsQuotientScale (a b : Decimal) (s : ℤ) : Prop where
  /-- A quotient that has a scale calls for the least one that is not below the difference of the
  scales of the operands. -/
  exact : (∃ t, HasScale (a.value / b.value) t) →
    IsLeast {t | max (a.scale.toInt - b.scale.toInt) 0 ≤ t ∧ HasScale (a.value / b.value) t} s
  /-- Any other calls for the larger of the scales of the operands. -/
  rounded : (¬ ∃ t, HasScale (a.value / b.value) t) →
    s = max (max a.scale.toInt b.scale.toInt) 0

/-- A quotient calls for one scale only. -/
lemma IsQuotientScale.unique (hs : IsQuotientScale a b s) (ht : IsQuotientScale a b t) : s = t := by
  by_cases hscale : ∃ t, HasScale (a.value / b.value) t
  · exact (hs.exact hscale).unique (ht.exact hscale)
  · exact (hs.rounded hscale).trans (ht.rounded hscale).symm

end Quotients

end InlineExpr.Decimal
