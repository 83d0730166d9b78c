import InlineExpr.Eval.Replacement

/-!
# Engines

An engine holds what stays the same from one evaluation to the next. Each evaluation begins in a
fresh context, in which no constant is being resolved and no separator has been counted.
-/

namespace InlineExpr

/-- The operators an evaluation knows and how deeply constants may be nested. -/
structure Engine where
  registry : Registry := .standard
  maxDepth : Nat := Context.defaultMaxDepth

namespace Engine

/-- A number of steps that no evaluation which ends comes near to. -/
def stepLimit : Nat := Nat.pow 2 62

/-- The context that an evaluation begins in. -/
def start (engine : Engine) (table : Table) : Context :=
  .fresh table engine.registry engine.maxDepth

/-- Evaluates a text on a table. -/
def eval (engine : Engine) (t : Text) (table : Table) : Outcome Text :=
  Eval.text stepLimit t (engine.start table)

/-- Evaluates an expression that is cut into tokens already. -/
def evalTokens (engine : Engine) (ts : List Text) (table : Table) : Outcome Text :=
  Eval.expression (Eval.text stepLimit) ts (engine.start table)

end Engine

end InlineExpr
