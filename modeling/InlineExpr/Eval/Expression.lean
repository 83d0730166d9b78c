import InlineExpr.Eval.Basic
import InlineExpr.Stacks

/-!
# Evaluation of an expression

An expression that was cut into tokens is evaluated from left to right on two stacks. How the text
of an operand is resolved is a parameter.
-/

namespace InlineExpr.Eval

/-- Does something to the stacks, with the separators of the context. -/
def onStacks (f : Stacks → Except EvalError Unit × Stacks) (s : Stacks) : Eval Stacks :=
  fun ctx =>
    match f { s with operands := { s.operands with separators := ctx.separators } } with
    | (.ok _, s) => .value s { ctx with separators := s.operands.separators }
    | (.error e, s) => .error e { ctx with separators := s.operands.separators }

/-- Takes in one token: an operator of the registry goes to the stacks, any other token is resolved
and its text becomes a value. -/
def token (resolve : Text → Eval Text) (s : Stacks) (t : Text) : Eval Stacks := do
  let reg := (← context).registry
  match reg.lookup? t with
  | some op => onStacks (Stacks.accept reg op) s
  | none => return s.push (.text (← resolve t))

/-- Reads tokens onto the stacks, one after another. -/
def tokens (resolve : Text → Eval Text) : Stacks → List Text → Eval Stacks
  | s, [] => pure s
  | s, t :: ts => do tokens resolve (← token resolve s t) ts

/-- Evaluates an expression. Its result is the topmost value once every operator has been
applied. -/
def expression (resolve : Text → Eval Text) (ts : List Text) : Eval Text := do
  let s ← tokens resolve .empty ts
  let s ← onStacks Stacks.drain s
  match s.operands.values with
  | v :: _ => return v.asText
  | [] => fail (.emptyExpression (Text.join [' '] ts))

end InlineExpr.Eval
