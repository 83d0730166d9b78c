import InlineExpr.Number.Decimal

/-!
# Decimals as text

A decimal is read from plain or scientific notation, with underscores allowed among the digits. It
is written in plain notation: a negative scale as trailing zeros, a positive one as that many
digits behind the point.
-/

namespace InlineExpr.Decimal

/-- A whole number as a scale, if it fits in 64 bits. -/
def scale? (s : Int) : Option Int64 :=
  if Numeral.minInt64 ≤ s ∧ s ≤ Numeral.maxInt64 then some (.ofInt s) else none

/-- Reads a row of digits with underscores behind the first of them. -/
def digits? : Text → Option Nat
  | [] => none
  | '_' :: _ => none
  | t =>
    if t.all fun c => c.isDigit || c == '_' then
      some (Numeral.ofDigits (t.filter Char.isDigit))
    else none

/-- Digits with a sign, read as a whole number. -/
def coefficient? (t : Text) : Option Int :=
  let (negative, ds) := Numeral.sign t
  (digits? ds).map (Numeral.signed negative)

/-- A numeral without its point, and the number of places that stood behind it. Underscores are no
places, and a point at the very end is dropped. -/
def withoutPoint (t : Text) : Text × Nat :=
  let lead := t.takeWhile (· != '.')
  match t.dropWhile (· != '.') with
  | [] => (lead, 0)
  | _ :: places => (lead ++ places, (places.filter (· != '_')).length)

/-- A numeral's part in front of its exponent, and the exponent. -/
def withoutExponent? (t : Text) : Option (Text × Int) :=
  let lead := t.takeWhile (!Numeral.isExponentMark ·)
  match t.dropWhile (!Numeral.isExponentMark ·) with
  | [] => some (lead, 0)
  | _ :: e => (Numeral.exponent? e).map fun e => (lead, e)

/-- Reads a decimal in plain or scientific notation. -/
def ofText? (t : Text) : Option Decimal := do
  let (significand, exponent) ← withoutExponent? t
  let (ds, places) := withoutPoint significand
  let c ← coefficient? ds
  let s ← scale? (places - exponent)
  return ⟨c, s⟩

/-- The digits of `n` with zeros in front, at least `width` of them. -/
def paddedDigits (n width : Nat) : Text :=
  let ds := Nat.toDigits 10 n
  List.replicate (width - ds.length) '0' ++ ds

/-- The magnitude of a decimal in plain notation. -/
def magnitudeText (d : Decimal) : Text :=
  let n := d.coefficient.natAbs
  let s := d.scale.toInt
  if s ≤ 0 then
    Nat.toDigits 10 n ++ List.replicate (-s).toNat '0'
  else
    let places := s.toNat
    let ds := paddedDigits n (places + 1)
    ds.take (ds.length - places) ++ '.' :: ds.drop (ds.length - places)

/-- A decimal as it is written in results. -/
def toText (d : Decimal) : Text :=
  if d.coefficient < 0 then '-' :: d.magnitudeText else d.magnitudeText

end InlineExpr.Decimal
