import InlineExpr.Eval.Expression
import InlineExpr.Reference
import InlineExpr.Text.Suggestion
import InlineExpr.Token

/-!
# Evaluation of a text

A text is evaluated by replacement. As long as it holds a logic span, the first span is replaced by
the value of its expression. Then, as long as it holds a reference, the first reference is replaced
by the resolved text of its constant, and the table takes that text in. Neither need ever end,
because the pieces around a replacement may join to a new span or reference; so the number of steps
is bounded.
-/

namespace InlineExpr.Eval

/-- An error of an expression as an error of the span with that body: an empty expression is named
by the whole span. -/
def blameSpan (body : Text) : EvalError → EvalError
  | .emptyExpression _ => .emptyExpression (Span.wrap body)
  | e => e

/-- The text that takes the place of a span. -/
def span (resolve : Text → Eval Text) (body : Text) : Eval Text :=
  mapError (blameSpan body) (expression resolve (tokenize body))

/-- Resolves a constant: its value is evaluated, and the table takes in the result. -/
def constant (resolve : Text → Eval Text) (name : Text) : Eval Text := do
  let ctx ← context
  match ctx.table.get? name with
  | none => fail (.unknownConstant name (Text.suggestions name ctx.table.names))
  | some value =>
    enter name
    let resolved ← andThen (resolve value) Context.leave
    update (·.define name resolved)
    return resolved

mutual

/-- Evaluates a text within a number of steps. -/
def text (steps : Nat) (t : Text) : Eval Text :=
  match steps with
  | 0 => exhausted
  | n + 1 =>
    match Span.find? t with
    | none => references n t
    | some cut => do
      let v ← span (text n) cut.inner
      text n (cut.before ++ v ++ cut.after)

/-- Replaces the references of a text within a number of steps. -/
def references (steps : Nat) (t : Text) : Eval Text :=
  match steps with
  | 0 => exhausted
  | n + 1 =>
    match Reference.find? t with
    | none => pure t
    | some cut => do
      let v ← constant (text n) cut.inner
      references n (cut.before ++ v ++ cut.after)

end

end InlineExpr.Eval
