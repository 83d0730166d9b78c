import InlineExpr.Text.EditDistance
import InlineExpr.Text.Order

/-!
# Suggestions

The listed names nearest to a name that was not found: within edit distance 1 of a name of up to
three characters, within 2 of a longer one, at most three, nearest first and by name among equals.
-/

namespace InlineExpr.Text

/-- The largest edit distance at which a name is suggested for `target`. -/
def suggestionRadius (target : Text) : Nat :=
  if target.length ≤ 3 then 1 else 2

/-- Nearest first; among equally near names the smaller one. -/
def nearer (target a b : Text) : Bool :=
  let da := editDistance target a
  let db := editDistance target b
  decide (da < db) || (da == db && !precedes b a)

/-- Whether a name is near enough to the target, but another one. -/
def isSuggestion (target name : Text) : Bool :=
  decide (editDistance target name ≤ suggestionRadius target) && name != target

/-- The names to suggest for `target`, best first. -/
def suggestions (target : Text) (available : List Text) : List Text :=
  ((available.filter (isSuggestion target)).mergeSort (nearer target)).take 3

end InlineExpr.Text
