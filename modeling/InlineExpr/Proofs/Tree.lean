import InlineExpr.Proofs.Marks
import InlineExpr.Proofs.Operands

/-!
# Expression trees

Well-formed expressions as trees, with the row of tokens that writes a tree down (`Expr.tokens`) and
the value that the tree itself has (`Expr.eval`): the parts from left to right, then the operator on
their values. Which trees a row of tokens can stand for without further parentheses is decided by
how tightly their parts bind (`Expr.Fits`).
-/

namespace InlineExpr

/-- What stands for a value in an expression: a text, or a reference to a constant. -/
inductive Operand where
  | text (t : Text)
  | constant (name : Text)
deriving DecidableEq

mutual

/-- An expression. -/
inductive Expr where
  | operand (a : Operand)
  | binary (op : Operator) (left right : Expr)
  | choice (predicate whenTrue whenFalse : Expr)
  | group (e : Expr)
  | call (f : Operator) (args : Args)

/-- The arguments of a call, one or more. -/
inductive Args where
  | last (e : Expr)
  | more (e : Expr) (args : Args)

end

namespace Operand

/-- The token of an operand. -/
def token : Operand → Text
  | text t => t
  | constant name => Reference.wrap name

/-- The text that an operand stands for if the values of the table stand for themselves. -/
def read (table : Table) : Operand → Except EvalError Text
  | text t => .ok t
  | constant name =>
    match table.get? name with
    | some v => .ok v
    | none => .error (.unknownConstant name (Text.suggestions name table.names))

/-- The operands that need no more than one look at the table: a text is plain and no operator, and
the constant that is named is missing or has a plain value and can be entered. -/
def IsPlain (ctx : Context) : Operand → Prop
  | text t => t.IsPlain ∧ Operator.ofToken? t = none
  | constant name =>
    Reference.IsName name ∧ ∀ v ∈ ctx.table.get? name,
      v.IsPlain ∧ name ∉ ctx.chain ∧ ctx.depth < ctx.maxDepth

instance (ctx : Context) : (a : Operand) → Decidable (a.IsPlain ctx)
  | text t => inferInstanceAs (Decidable (t.IsPlain ∧ _))
  | constant name =>
    inferInstanceAs (Decidable (Reference.IsName name ∧ ∀ v ∈ ctx.table.get? name, _))

end Operand

mutual

/-- The tokens that write an expression down. -/
def Expr.tokens : Expr → List Text
  | .operand a => [a.token]
  | .binary op left right => left.tokens ++ op.token :: right.tokens
  | .choice predicate whenTrue whenFalse =>
    predicate.tokens ++ Operator.question.token :: (whenTrue.tokens ++
      Operator.colon.token :: whenFalse.tokens)
  | .group e => Operator.openParen.token :: (e.tokens ++ [Operator.closeParen.token])
  | .call f args =>
    f.token :: Operator.openParen.token :: (args.tokens ++ [Operator.closeParen.token])

/-- The tokens of arguments, with a separator between neighbours. -/
def Args.tokens : Args → List Text
  | .last e => e.tokens
  | .more e args => e.tokens ++ Operator.comma.token :: args.tokens

end

mutual

/-- The operands of an expression, from left to right. -/
def Expr.operands : Expr → List Operand
  | .operand a => [a]
  | .binary _ left right => left.operands ++ right.operands
  | .choice predicate whenTrue whenFalse =>
    predicate.operands ++ (whenTrue.operands ++ whenFalse.operands)
  | .group e => e.operands
  | .call _ args => args.operands

/-- The operands of arguments, from left to right. -/
def Args.operands : Args → List Operand
  | .last e => e.operands
  | .more e args => e.operands ++ args.operands

end

/-- The number of separators between arguments. -/
def Args.separators : Args → Nat
  | .last _ => 0
  | .more _ args => args.separators + 1

/-- The number of arguments. -/
def Args.size (args : Args) : Nat :=
  args.separators + 1

mutual

/-- The expressions that bind at least as tightly as `priority`. A binary operator has on its left
what binds as tightly as itself and on its right what binds more tightly; a choice has anything but
another choice as its last branch. -/
def Expr.Fits : Expr → (priority : Nat) → Prop
  | .operand _, priority => priority ≤ 6
  | .binary op left right, priority =>
    priority ≤ op.priority ∧ op.IsBinary ∧ left.Fits op.priority ∧ right.Fits (op.priority + 1)
  | .choice predicate whenTrue whenFalse, priority =>
    priority ≤ 1 ∧ predicate.Fits 1 ∧ whenTrue.Fits 1 ∧ whenFalse.Fits 2
  | .group e, priority => priority ≤ 6 ∧ e.Fits 1
  | .call f args, priority =>
    priority ≤ 6 ∧ f.kind = .function ∧ f.Takes args.size ∧ args.Fit

/-- Arguments are any expressions. -/
def Args.Fit : Args → Prop
  | .last e => e.Fits 1
  | .more e args => e.Fits 1 ∧ args.Fit

end

mutual

/-- The value of an expression whose operands stand for the texts that `read` gives: its parts have
their values from left to right, both branches of a choice included, and then its operator takes
exactly these. -/
def Expr.eval (read : Operand → Except EvalError Text) : Expr → Except EvalError Value
  | .operand a => return .text (← read a)
  | .binary op left right => do
    let a ← left.eval read
    let b ← right.eval read
    op.result [a, b]
  | .choice predicate whenTrue whenFalse => do
    let p ← predicate.eval read
    let t ← whenTrue.eval read
    let f ← whenFalse.eval read
    Operator.colon.result [p, t, f]
  | .group e => e.eval read
  | .call f args => do f.result (← args.eval read)

/-- The values of arguments, from left to right. -/
def Args.eval (read : Operand → Except EvalError Text) : Args → Except EvalError (List Value)
  | .last e => return [← e.eval read]
  | .more e args => do
    let v ← e.eval read
    let vs ← args.eval read
    return v :: vs

end

/-- Arguments have one value each. -/
lemma Args.length_of_eval {read : Operand → Except EvalError Text} {args : Args} {vs : List Value}
    (h : args.eval read = .ok vs) : vs.length = args.size := by
  match args with
  | .last e =>
    rw [Args.eval] at h
    obtain ⟨v, _, h⟩ := eq_ok_of_bind h
    cases h
    rfl
  | .more e args =>
    rw [Args.eval] at h
    obtain ⟨v, _, h⟩ := eq_ok_of_bind h
    obtain ⟨ws, hws, h⟩ := eq_ok_of_bind h
    cases h
    rw [List.length_cons, Args.length_of_eval hws]
    rfl

end InlineExpr
