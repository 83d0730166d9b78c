import InlineExpr.Text.Basic

/-!
# Positions in a text

A position names the place after a piece of text that has been read: its line, counted from one,
and its column, which is one more than the number of bytes since the last newline.
-/

namespace InlineExpr

/-- A line and a column, both counted from one. -/
structure Position where
  line : Nat
  column : Nat
deriving DecidableEq, Repr

namespace Position

/-- The position behind a text that was consumed. -/
def after (consumed : Text) : Position where
  line := 1 + consumed.count '\n'
  column := 1 + Text.byteSize (consumed.reverse.takeWhile (· != '\n'))

/-- The position in `source` at which `rest`, an end piece of it, begins. -/
def before (source rest : Text) : Position :=
  after (source.take (source.length - rest.length))

end Position

end InlineExpr
