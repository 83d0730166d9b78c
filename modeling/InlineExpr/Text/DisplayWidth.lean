import InlineExpr.Text.DisplayWidth.Start

/-!
# Display width

The number of columns a text takes in a terminal. It is the sum of the columns of its characters,
except in sequences that are shown as one sign: a carriage return and a line feed, emoji sequences,
and signs that merge several letters. The text is read from its end, since what a character takes
depends on the characters behind it.
-/

namespace InlineExpr.Text

/-- A character in front of a text of which the columns and the start are known. -/
def measureCons (c : Char) (r : Int × Start) : Int × Start :=
  (r.1 + (r.2.prepend c).1, (r.2.prepend c).2)

/-- The columns of a text, and its start. -/
def measure (t : Text) : Int × Start :=
  t.foldr measureCons (0, .empty)

/-- The number of columns a text takes in a terminal. -/
def displayWidth (t : Text) : Nat :=
  (measure t).1.toNat

end InlineExpr.Text
