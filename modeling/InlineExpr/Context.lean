import InlineExpr.EvalError
import InlineExpr.Registry
import InlineExpr.Table

/-!
# Contexts

What an evaluation carries along: the table, which takes in the resolved values, the operators, the
chain of constants that are being resolved, and the count of separators.
-/

namespace InlineExpr

structure Context where
  table : Table
  registry : Registry
  /-- How many constants may be nested in one another. -/
  maxDepth : Nat
  /-- The constants being resolved, outermost first. -/
  chain : List Text
  /-- How deeply the evaluation is nested in constants; counted apart from the chain. -/
  depth : Nat
  /-- The separators met since a function last ran. -/
  separators : Nat
deriving DecidableEq

namespace Context

/-- How many constants may be nested unless another limit is set. -/
def defaultMaxDepth : Nat := 64

/-- A context in which nothing is being resolved. -/
def fresh (table : Table) (registry : Registry) (maxDepth : Nat) : Context :=
  ⟨table, registry, maxDepth, [], 0, 0⟩

/-- The context in which the value of a constant is resolved. -/
def entered (ctx : Context) (name : Text) : Context :=
  { ctx with chain := ctx.chain ++ [name], depth := ctx.depth + 1 }

/-- Begins to resolve a constant. The limit is looked at before the cycle. -/
def enter (ctx : Context) (name : Text) : Except EvalError Context :=
  if ctx.maxDepth ≤ ctx.depth then .error .depthExceeded
  else if name ∈ ctx.chain then .error (.cyclicReference (ctx.chain ++ [name]))
  else .ok (ctx.entered name)

/-- Leaves the constant that was entered last, if there is one. -/
def leave (ctx : Context) : Context :=
  { ctx with chain := ctx.chain.dropLast, depth := ctx.depth - 1 }

/-- Gives a constant a value in the table. -/
def define (ctx : Context) (name value : Text) : Context :=
  { ctx with table := ctx.table.insert name value }

end Context

end InlineExpr
