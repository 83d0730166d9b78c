import InlineExpr.Number.Decimal

/-!
# Division of decimals

A quotient with a finite expansion is exact, at the first scale that holds it from the difference of
the operands' scales on. Any other quotient is rounded at the larger of the operands' scales, half a
unit going away from zero. Rounding looks at the exact remainder, so a quotient just below a
midpoint never goes up. Scales are integers of 64 bits and wrap around.
-/

namespace InlineExpr.Decimal

/-- Why a quotient does not exist. -/
inductive DivisionError where
  | undefined
  | byZero
  | exponentOutOfRange
deriving DecidableEq, Repr

def DivisionError.message : DivisionError → String
  | undefined => "division undefined"
  | byZero => "division by zero"
  | exponentOutOfRange => "exponent out of range"

/-- The greatest common divisor. -/
def gcd : Nat → Nat → Nat
  | a, 0 => a
  | a, b + 1 => gcd (b + 1) (a % (b + 1))
termination_by _ b => b
decreasing_by exact Nat.mod_lt a (Nat.succ_pos b)

/-- Divides a number by a factor as often as it goes. Zero, which this would go on with for ever, is
left as it is. -/
def strip (n factor : Nat) : Nat :=
  if _goes : 0 < n ∧ 1 < factor ∧ n % factor = 0 then strip (n / factor) factor else n
termination_by n
decreasing_by exact Nat.div_lt_self _goes.1 _goes.2.1

/-- Whether the quotient of two coefficients has a finite expansion: its denominator in lowest terms
has no prime factors but those of ten. -/
def isTerminating (num den : Int) : Bool :=
  [2, 5].foldl strip (den.natAbs / gcd num.natAbs den.natAbs) == 1

/-- `num / den` rounded to a whole number, half a unit going away from zero. -/
def roundQuotient (num den : Int) : Int :=
  let q := num.tdiv den
  if den.natAbs ≤ 2 * (num.tmod den).natAbs then
    if decide (num < 0) == decide (den < 0) then q + 1 else q - 1
  else q

/-- The greatest exponent of a power of ten that is formed. -/
def maxExponent : Nat := 4294967295

/-- A power of ten, unless it is too large to be formed. -/
def tenPow? (exponent : Nat) : Except DivisionError Nat :=
  if maxExponent < exponent then .error .exponentOutOfRange else .ok (Numeral.tenPow exponent)

/-- By how many places a quotient at `scale` lies above the quotient of the coefficients. -/
def shift (a b : Decimal) (scale : Int64) : Int64 :=
  scale + b.scale - a.scale

/-- The ratio that counts the units of `scale` in a quotient. -/
def ratioAt (a b : Decimal) (scale : Int64) : Except DivisionError (Int × Int) := do
  let power ← tenPow? (shift a b scale).toInt.natAbs
  return if 0 ≤ shift a b scale then (a.coefficient * power, b.coefficient)
    else (a.coefficient, b.coefficient * power)

/-- Where a power of ten is formed there is room for one more place. -/
theorem toInt_shift_add_one {a b : Decimal} {scale : Int64} {r : Int × Int}
    (h : ratioAt a b scale = .ok r) : (shift a b scale).toInt.natAbs ≤ maxExponent ∧
      (shift a b (scale + 1)).toInt = (shift a b scale).toInt + 1 := by
  have hformed : (shift a b scale).toInt.natAbs ≤ maxExponent := by
    rw [ratioAt, tenPow?] at h
    split at h
    · cases h
    · exact Nat.not_lt.1 ‹_›
  have hnext : shift a b (scale + 1) = shift a b scale + 1 := by
    rw [shift, shift, Int64.sub_eq_add_neg, Int64.sub_eq_add_neg]
    ac_rfl
  refine ⟨hformed, ?_⟩
  rw [maxExponent] at hformed
  rw [hnext, Int64.toInt_add, Int64.toInt_one]
  apply Int.bmod_eq_of_le
  · omega
  · omega

/-- Goes up from `scale` to the first one at which the quotient is a whole number of units. -/
def exactFrom (a b : Decimal) (scale : Int64) : Except DivisionError Decimal :=
  match _formed : ratioAt a b scale with
  | .error e => .error e
  | .ok (num, den) =>
    if num.tmod den = 0 then .ok ⟨num.tdiv den, scale⟩ else exactFrom a b (scale + 1)
termination_by (maxExponent + 1 - (shift a b scale).toInt).toNat
decreasing_by
  obtain ⟨hle, hnext⟩ := toInt_shift_add_one _formed
  omega

/-- Divides exactly if the quotient ends, and else rounds to the longer of the two scales. -/
def div (a b : Decimal) : Except DivisionError Decimal :=
  if b.isZero then .error (if a.isZero then .undefined else .byZero)
  else if isTerminating a.coefficient b.coefficient then
    exactFrom a b (max (a.scale - b.scale) 0)
  else do
    let scale := max (max a.scale b.scale) 0
    let (num, den) ← ratioAt a b scale
    return ⟨roundQuotient num den, scale⟩

end InlineExpr.Decimal
