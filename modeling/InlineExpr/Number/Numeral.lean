import InlineExpr.Text.Basic

/-!
# Numerals

Pieces that the two readers of numbers share: an optional sign, a run of digits and the exponent of
scientific notation.
-/

namespace InlineExpr.Numeral

/-- Takes a sign off the front of a text; `true` stands for a minus. -/
def sign : Text → Bool × Text
  | '-' :: t => (true, t)
  | '+' :: t => (false, t)
  | t => (false, t)

/-- The natural number that a row of decimal digits denotes. -/
def ofDigits (ds : Text) : Nat :=
  Nat.ofDigitChars 10 ds 0

/-- Whether a text is a row of digits. -/
def isDigits (t : Text) : Bool :=
  !t.isEmpty && t.all Char.isDigit

def twoPow (n : Nat) : Nat :=
  Nat.pow 2 n

def tenPow (n : Nat) : Nat :=
  Nat.pow 10 n

def minInt64 : Int := -9223372036854775808

def maxInt64 : Int := 9223372036854775807

/-- A number with the sign it was written with. -/
def signed (negative : Bool) (n : Nat) : Int :=
  if negative then -(n : Int) else n

/-- The mark that begins the exponent of scientific notation. -/
def isExponentMark (c : Char) : Bool :=
  c == 'e' || c == 'E'

/-- The value of an exponent: an optional sign and one or more digits. -/
def exponent? (t : Text) : Option Int :=
  let (negative, ds) := sign t
  if isDigits ds then some (signed negative (ofDigits ds)) else none

end InlineExpr.Numeral
