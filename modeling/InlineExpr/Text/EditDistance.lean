import InlineExpr.Text.Basic

/-!
# Edit distance

The least number of insertions, deletions and substitutions of single characters that turn one
text into another, computed one row at a time: a row holds the distances from one text to every
suffix of the other.
-/

namespace InlineExpr.Text

/-- The distances from the empty text to each suffix of `t`, the whole text first. -/
def baseRow : Text → List Nat
  | [] => [0]
  | _ :: t => (t.length + 1) :: baseRow t

/-- The row of `x :: s` against the suffixes of a text, from the row of `s`. -/
def nextRow (x : Char) : Text → List Nat → List Nat
  | [], below => [below.headD 0 + 1]
  | y :: t, below =>
    let row := nextRow x t below.tail
    let keep := below.tail.headD 0 + if x = y then 0 else 1
    min (below.headD 0 + 1) (min (row.headD 0 + 1) keep) :: row

/-- The distances from `s` to each suffix of `t`, the whole text first. -/
def distanceRow (s t : Text) : List Nat :=
  s.foldr (fun x below => nextRow x t below) (baseRow t)

/-- The number of insertions, deletions and replacements between two texts. -/
def editDistance (s t : Text) : Nat :=
  (distanceRow s t).headD 0

end InlineExpr.Text
