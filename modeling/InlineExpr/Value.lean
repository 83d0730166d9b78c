import InlineExpr.Number.Binary64

/-!
# Values

What stands on the value stack: a text, or the truth value of a predicate. There is no type of
numbers; an operator that needs one reads it off the text. The empty text and the placeholder
`null` are one and the same absent value.
-/

namespace InlineExpr

/-- What operands and results are. -/
inductive Value where
  | text (t : Text)
  | bool (b : Bool)
deriving DecidableEq, Repr

namespace Value

/-- The text that stands for an absent value. -/
def placeholder : Text := "null".toList

def boolText (b : Bool) : Text :=
  if b then "true".toList else "false".toList

/-- The text as it was written, the placeholder included. -/
def rawText : Value → Text
  | text t => t
  | bool b => boolText b

/-- The text of a value, empty for the placeholder. -/
def asText : Value → Text
  | text t => if t = placeholder then [] else t
  | bool b => boolText b

/-- Whether a value is absent. A truth value never is. -/
def isAbsent : Value → Bool
  | text t => t.isEmpty || t == placeholder
  | bool _ => false

/-- The truth value of a boolean, or of the words `true` and `false` in any mix of cases. -/
def asBool? : Value → Option Bool
  | bool b => some b
  | text t =>
    if t.lowerAscii = "true".toList then some true
    else if t.lowerAscii = "false".toList then some false
    else none

/-- The number a text reads as, for ordering and for indices. A truth value is no number. -/
def asNumber? : Value → Option Binary64
  | v@(text _) => Binary64.ofText? v.asText
  | bool _ => none

end Value

end InlineExpr
