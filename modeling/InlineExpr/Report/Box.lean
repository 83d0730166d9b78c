import InlineExpr.Text.DisplayWidth

/-!
# Boxed tables

A table of texts inside a border, with a rule below its header. Every column is as wide as its
widest line and every cell has a blank on either side; neighbouring columns have one blank between
them. A cell with newlines takes several lines.
-/

namespace InlineExpr.Box

/-- The lines of a cell. -/
abbrev Cell := List Text

/-- The width of a cell: that of its widest line. -/
def cellWidth (cell : Cell) : Nat :=
  (cell.map Text.displayWidth).foldl max 0

/-- The width of each column, as its widest cell needs it. -/
def columnWidths : List (List Cell) → List Nat
  | [] => []
  | row :: rows =>
    rows.foldl (fun ws r => List.zipWith max ws (r.map cellWidth)) (row.map cellWidth)

/-- A line of a cell with its blanks, filled up to the column's width. -/
def paddedLine (width : Nat) (line : Text) : Text :=
  [' '] ++ line ++ List.replicate (width - line.displayWidth) ' ' ++ [' ']

/-- One line of a row, drawn between bars. -/
def rowLine (widths : List Nat) (row : List Cell) (i : Nat) : Text :=
  let parts := List.zipWith (fun w (cell : Cell) => paddedLine w (cell.getD i [])) widths row
  ['│'] ++ Text.join [' '] parts ++ ['│']

/-- The lines of a row, as many as its tallest cell has. -/
def rowLines (widths : List Nat) (row : List Cell) : List Text :=
  (List.range ((row.map List.length).foldl max 0)).map (rowLine widths row)

/-- A line that closes off rows. -/
def rule (widths : List Nat) (left fill right : Char) : Text :=
  let inner := (widths.map (· + 2)).foldl (· + ·) 0 + (widths.length - 1)
  [left] ++ List.replicate inner fill ++ [right]

/-- The lines of a table with a header and rows of the same length. -/
def lines (header : List Text) (rows : List (List Text)) : List Text :=
  let head := header.map Text.splitLines
  let body := rows.map (·.map Text.splitLines)
  let widths := columnWidths (head :: body)
  [rule widths '┌' '─' '┐'] ++ rowLines widths head ++ [rule widths '╞' '═' '╡']
    ++ body.flatMap (rowLines widths) ++ [rule widths '└' '─' '┘']

/-- A table with its header, as lines of text. -/
def render (header : List Text) (rows : List (List Text)) : Text :=
  Text.join ['\n'] (lines header rows)

end InlineExpr.Box
