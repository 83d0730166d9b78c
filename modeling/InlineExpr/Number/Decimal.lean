import InlineExpr.Number.Numeral

/-!
# Decimals

An exact decimal is a whole coefficient over a power of ten. Two decimals of one value may differ
in scale, and the scale of a result is part of the arithmetic: it decides the digits that are
written. A scale is a number of 64 bits with a sign, so a sum or difference of scales that does not
fit goes around.
-/

namespace InlineExpr

/-- The number `coefficient / 10 ^ scale`. -/
structure Decimal where
  coefficient : Int
  scale : Int64
deriving DecidableEq, Repr

namespace Decimal

/-- Whether a decimal is zero, at whatever scale. -/
def isZero (d : Decimal) : Bool :=
  d.coefficient == 0

/-- Whether a decimal is one, written without an exponent or with digits to cancel it. A power of
ten that equals the coefficient has an exponent no greater than the coefficient's logarithm. -/
def isOne (d : Decimal) : Bool :=
  decide (0 ≤ d.scale.toInt) && decide (d.scale.toInt ≤ d.coefficient.natAbs.log2) &&
    d.coefficient == Numeral.tenPow d.scale.toInt.toNat

/-- The coefficient of `d` at the scale `s`, which must not be below that of `d`. -/
def coefficientAt (d : Decimal) (s : Int64) : Int :=
  d.coefficient * Numeral.tenPow (s.toInt - d.scale.toInt).toNat

/-- The opposite number. -/
def neg (d : Decimal) : Decimal :=
  { d with coefficient := -d.coefficient }

/-- The sum, at the larger of the two scales. -/
def add (a b : Decimal) : Decimal :=
  let s := max a.scale b.scale
  ⟨a.coefficientAt s + b.coefficientAt s, s⟩

/-- The difference, at the larger of the two scales. A zero on one side lends no scale. -/
def sub (a b : Decimal) : Decimal :=
  if b.isZero then a
  else if a.isZero then b.neg
  else a.add b.neg

/-- The product, at the sum of the scales. A factor that is one leaves the other as it is. -/
def mul (a b : Decimal) : Decimal :=
  if a.isOne then b
  else if b.isOne then a
  else ⟨a.coefficient * b.coefficient, a.scale + b.scale⟩

instance : Neg Decimal := ⟨neg⟩
instance : Add Decimal := ⟨add⟩
instance : Sub Decimal := ⟨sub⟩
instance : Mul Decimal := ⟨mul⟩

end Decimal

end InlineExpr
