import InlineExpr.Context

/-!
# Evaluations

An evaluation runs on a context. It ends with a result or an error, in either case in a changed
context, or the steps that it was allowed run out.
-/

namespace InlineExpr

/-- How an evaluation ends. -/
inductive Outcome (α : Type) where
  | value (a : α) (ctx : Context)
  | error (e : EvalError) (ctx : Context)
  | outOfSteps
deriving DecidableEq

/-- An evaluation, which begins in a context. -/
def Eval (α : Type) := Context → Outcome α

namespace Eval

variable {α β : Type}

/-- A value at once. -/
protected def pure (a : α) : Eval α :=
  fun ctx => .value a ctx

/-- Goes on with the result of an evaluation, in the context it leaves. -/
protected def bind (x : Eval α) (f : α → Eval β) : Eval β :=
  fun ctx =>
    match x ctx with
    | .value a ctx => f a ctx
    | .error e ctx => .error e ctx
    | .outOfSteps => .outOfSteps

instance : Monad Eval where
  pure := Eval.pure
  bind := Eval.bind

/-- The context as it is. -/
def context : Eval Context :=
  fun ctx => .value ctx ctx

/-- An error at once. -/
def fail (e : EvalError) : Eval α :=
  fun ctx => .error e ctx

/-- Stops for want of steps. -/
def exhausted : Eval α :=
  fun _ => .outOfSteps

/-- Changes the context. -/
def update (f : Context → Context) : Eval Unit :=
  fun ctx => .value () (f ctx)

/-- Gives another error in the place of one. -/
def mapError (f : EvalError → EvalError) (x : Eval α) : Eval α :=
  fun ctx =>
    match x ctx with
    | .error e ctx => .error (f e) ctx
    | outcome => outcome

/-- Changes the context after an evaluation, whether it ends with a result or an error. -/
def andThen (x : Eval α) (f : Context → Context) : Eval α :=
  fun ctx =>
    match x ctx with
    | .value a ctx => .value a (f ctx)
    | .error e ctx => .error e (f ctx)
    | .outOfSteps => .outOfSteps

/-- Begins to resolve a constant. -/
def enter (name : Text) : Eval Unit :=
  fun ctx =>
    match ctx.enter name with
    | .ok ctx => .value () ctx
    | .error e => .error e ctx

end Eval

end InlineExpr
