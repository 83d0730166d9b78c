import InlineExpr.Number.Numeral

/-!
# Binary floating point

The numbers of the 64-bit binary format: 53 bits of significand and exponents from −1074 to 971.
A numeral reads as the number of the format nearest to its exact value, a tie going to the even
significand, and as an infinity where the format ends.
-/

namespace InlineExpr

/-- A number of the 64-bit binary format. A finite one is its significand times a power of two,
with the sign kept for zero as well. -/
inductive Binary64 where
  | nan
  | infinite (negative : Bool)
  | finite (negative : Bool) (significand : Nat) (exponent : Int)
deriving DecidableEq, Repr

namespace Binary64

/-- The number of bits of a significand. -/
def precision : Nat := 53

/-- The top bit of a significand, which is set unless the exponent is the least one. -/
def hiddenBit : Nat :=
  Numeral.twoPow (precision - 1)

def minExponent : Int := -1074

def maxExponent : Int := 971

/-- The whole number nearest to `num / den`, a tie going to the even one. -/
def divideToEven (num den : Nat) : Nat :=
  let q := num / den
  let r := num % den
  if 2 * r < den then q
  else if den < 2 * r then q + 1
  else q + q % 2

/-- A ratio times a power of two, as a ratio. -/
def scaleRatio (num den : Nat) (e : Int) : Nat × Nat :=
  if 0 ≤ e then (num * Numeral.twoPow e.toNat, den) else (num, den * Numeral.twoPow (-e).toNat)

/-- The greatest `e` with `2 ^ e ≤ num / den`. -/
def log2Ratio (num den : Nat) : Int :=
  let e : Int := (num.log2 : Int) - den.log2
  let (n, d) := scaleRatio num den (-e)
  if d ≤ n then e else e - 1

/-- The number of the format nearest to `num / den`. -/
def ofRatio (negative : Bool) (num den : Nat) : Binary64 :=
  if num = 0 then finite negative 0 minExponent
  else
    let e := max minExponent (log2Ratio num den - (precision - 1 : Nat))
    let (n, d) := scaleRatio num den (-e)
    let m := divideToEven n d
    let (m, e) := if m = 2 * hiddenBit then (hiddenBit, e + 1) else (m, e)
    if maxExponent < e then infinite negative else finite negative m e

/-- The number of the format nearest to the numeral `digits` times ten to the `exponent`. The two
outer cases lie so far beyond the ends of the format that no power of ten need be formed. -/
def ofScientific (negative : Bool) (digits : Text) (exponent : Int) : Binary64 :=
  let n := Numeral.ofDigits digits
  let magnitude : Int := (digits.dropWhile (· == '0')).length + exponent
  if n = 0 then finite negative 0 minExponent
  else if 400 < magnitude then infinite negative
  else if magnitude < -400 then finite negative 0 minExponent
  else if 0 ≤ exponent then ofRatio negative (n * Numeral.tenPow exponent.toNat) 1
  else ofRatio negative n (Numeral.tenPow (-exponent).toNat)

/-- The magnitude of an exponent. Digits behind the point at which the magnitude reaches 65536 are
not taken in. -/
def exponentMagnitude (ds : Text) : Nat :=
  ds.foldl (fun e c => if e < 65536 then 10 * e + (c.toNat - '0'.toNat) else e) 0

/-- The exponent behind a significand: nothing, or a mark, an optional sign and digits. -/
def exponentPart? : Text → Option Int
  | [] => some 0
  | c :: t =>
    let (negative, ds) := Numeral.sign t
    if Numeral.isExponentMark c && Numeral.isDigits ds then
      some (Numeral.signed negative (exponentMagnitude ds))
    else none

/-- Reads digits with an optional point among or around them, and an optional exponent. -/
def ofNumeral? (negative : Bool) (t : Text) : Option Binary64 :=
  let whole := t.takeWhile Char.isDigit
  let rest := t.dropWhile Char.isDigit
  let (fraction, rest) :=
    match rest with
    | '.' :: r => (r.takeWhile Char.isDigit, r.dropWhile Char.isDigit)
    | r => ([], r)
  if whole.isEmpty && fraction.isEmpty then none
  else (exponentPart? rest).map fun e =>
    ofScientific negative (whole ++ fraction) (e - fraction.length)

/-- Reads a number: a numeral, or the name of an infinity or of no number in any mix of cases, with
an optional sign. -/
def ofText? (t : Text) : Option Binary64 :=
  let (negative, rest) := Numeral.sign t
  let word := rest.lowerAscii
  if word = "inf".toList || word = "infinity".toList then some (infinite negative)
  else if word = "nan".toList then some nan
  else ofNumeral? negative rest

/-- A finite number with its sign, in units of the smallest positive number of the format. -/
def units (negative : Bool) (significand : Nat) (exponent : Int) : Int :=
  Numeral.signed negative (significand * Numeral.twoPow (exponent - minExponent).toNat)

/-- The order of two numbers; what is no number has no order. -/
def compare? : Binary64 → Binary64 → Option Ordering
  | nan, _ | _, nan => none
  | infinite true, infinite true | infinite false, infinite false => some .eq
  | infinite true, _ | _, infinite false => some .lt
  | infinite false, _ | _, infinite true => some .gt
  | finite s m e, finite s' m' e' => some (compare (units s m e) (units s' m' e'))

/-- The range of the whole numbers that an index may have: 64 bits with a sign. -/
def clampIndex (i : Int) : Int :=
  max Numeral.minInt64 (min Numeral.maxInt64 i)

/-- A finite number without its fraction, clamped to the range of an index. -/
def truncate? : Binary64 → Option Int
  | finite negative m e =>
    let magnitude := if 0 ≤ e then m * Numeral.twoPow e.toNat else m / Numeral.twoPow (-e).toNat
    some (clampIndex (Numeral.signed negative magnitude))
  | _ => none

def signBit (negative : Bool) : Nat :=
  if negative then Numeral.twoPow 63 else 0

/-- The 64 bits of the format: sign, exponent field and fraction field. -/
def bits : Binary64 → Nat
  | nan => 0x7FF8000000000000
  | infinite negative => signBit negative + 0x7FF0000000000000
  | finite negative m e =>
    if m < hiddenBit then signBit negative + m
    else signBit negative + ((e - minExponent).toNat + 1) * hiddenBit + (m - hiddenBit)

end Binary64

end InlineExpr
