import InlineExpr.Span

/-!
# Constant references

A reference to a constant is written `$CONSTANTS.NAME$`, the name being one or more letters, digits
and underscores.
-/

namespace InlineExpr

/-- The characters that names consist of. -/
def isNameChar (c : Char) : Bool :=
  c.isAlphanum || c == '_'

namespace Reference

/-- The mark in front of a name. -/
def opening : Text := "$CONSTANTS.".toList

/-- The mark behind a name. -/
def closing : Text := ['$']

/-- A name as a reference. -/
def wrap (name : Text) : Text :=
  opening ++ name ++ closing

/-- The name and the rest of a text that begins with a reference. -/
def atStart? (t : Text) : Option (Text × Text) :=
  match t.after? opening with
  | none => none
  | some inner =>
    let name := inner.takeWhile isNameChar
    match name, inner.dropWhile isNameChar with
    | _ :: _, '$' :: rest => some (name, rest)
    | _, _ => none

/-- Cuts a text at its first reference. -/
def find? : Text → Option Cut
  | [] => none
  | c :: t =>
    match atStart? (c :: t) with
    | some (name, rest) => some ⟨[], name, rest⟩
    | none => (find? t).map fun cut => { cut with before := c :: cut.before }

/-- The name inside a text that is delimited as a reference; any other text unchanged. -/
def name (t : Text) : Text :=
  ((t.after? opening).bind (·.before? closing)).getD t

end Reference

end InlineExpr
