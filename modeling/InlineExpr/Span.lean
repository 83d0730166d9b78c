import InlineExpr.Text.Basic

/-!
# Logic spans

A logic span is written `#{…}`. The first span of a text begins at the first `#{` and ends at the
first `}` that leaves at least one character between the two.
-/

namespace InlineExpr

/-- A text cut at a piece of interest. -/
structure Cut where
  before : Text
  inner : Text
  after : Text
deriving DecidableEq, Repr

namespace Span

/-- The mark that opens a span. -/
def opening : Text := ['#', '{']

/-- The mark that closes a span. -/
def closing : Text := ['}']

/-- A body as a span. -/
def wrap (body : Text) : Text :=
  opening ++ body ++ closing

/-- Splits a text at its first closing brace. -/
def splitClosing? : Text → Option (Text × Text)
  | [] => none
  | c :: t =>
    if c = '}' then some ([], t)
    else (splitClosing? t).map fun (body, rest) => (c :: body, rest)

/-- The body and the rest behind an opening mark. The first character belongs to the body whatever
it is. -/
def close? : Text → Option (Text × Text)
  | [] => none
  | c :: t => (splitClosing? t).map fun (body, rest) => (c :: body, rest)

/-- Cuts a text at its first span. -/
def find? : Text → Option Cut
  | [] => none
  | c :: t =>
    match c, t with
    | '#', '{' :: rest => (close? rest).map fun (body, after) => ⟨[], body, after⟩
    | _, _ => (find? t).map fun cut => { cut with before := c :: cut.before }

/-- The body of a text that is delimited as a span; any other text unchanged. -/
def body (t : Text) : Text :=
  ((t.after? opening).bind (·.before? closing)).getD t

end Span

end InlineExpr
