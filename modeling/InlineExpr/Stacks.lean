import InlineExpr.Reduction
import InlineExpr.Registry

/-!
# The stacks of an expression

An expression is evaluated on two stacks, one of operators and one of values. Besides them there is
a count of the separators met since a function last ran: separators are unwound just before the
function whose parameters they separate, and a function forgets them when it has run, whatever its
outcome.
-/

namespace InlineExpr

/-- The values of an expression and the separators counted for the next function. -/
structure Operands where
  values : List Value
  separators : Nat
deriving DecidableEq, Repr

/-- The stacks of an expression, the topmost operator first. -/
structure Stacks where
  operators : List Entry
  operands : Operands
deriving DecidableEq, Repr

/-- Performs an operator on the operands. The parentheses and the first mark of a choice leave them
as they are. -/
def Operator.perform (op : Operator) (o : Operands) : Except EvalError Unit × Operands :=
  match op.reduction? (o.separators + 1) with
  | none => (.ok (), if op = comma then { o with separators := o.separators + 1 } else o)
  | some r =>
    let separators := if op.kind = .function then 0 else o.separators
    match r.apply o.values with
    | (.ok v, rest) => (.ok (), ⟨v :: rest, separators⟩)
    | (.error e, rest) => (.error e, ⟨rest, separators⟩)

namespace Stacks

/-- The stacks that an expression begins with. -/
def empty : Stacks :=
  ⟨[], ⟨[], 0⟩⟩

/-- Performs a function that stands directly below a parenthesis that was closed. -/
def fire : List Entry → Operands → Except EvalError Unit × Stacks
  | [], o => (.ok (), ⟨[], o⟩)
  | f :: ops, o =>
    if f.operator.kind = .function then
      match f.operator.perform o with
      | (r, o) => (r, ⟨ops, o⟩)
    else (.ok (), ⟨f :: ops, o⟩)

/-- Performs operators from the top until `nested + 1` of the registry's own opening parentheses
have come off. A closing parenthesis among them asks for one more; an opening one that is not the
registry's own closes nothing. -/
def unwind (reg : Registry) :
    (nested : Nat) → List Entry → Operands → Except EvalError Unit × Stacks
  | _, [], o => (.error .unbalancedParenthesis, ⟨[], o⟩)
  | nested, e :: ops, o =>
    if e.operator = .closeParen then unwind reg (nested + 1) ops o
    else if reg.owns e .openParen then
      match nested with
      | 0 => fire ops o
      | nested + 1 => unwind reg nested ops o
    else
      match e.operator.perform o with
      | (.ok _, o) => unwind reg nested ops o
      | (.error x, o) => (.error x, ⟨ops, o⟩)

/-- Applies an operator that is not on the stack itself. -/
def apply (reg : Registry) (op : Operator) (s : Stacks) : Except EvalError Unit × Stacks :=
  match op with
  | .closeParen => unwind reg 0 s.operators s.operands
  | .openParen => fire s.operators s.operands
  | op =>
    match op.perform s.operands with
    | (r, o) => (r, { s with operands := o })

/-- Whether the top operator is applied before `op` is pushed: it binds at least as tightly, and it
is neither a separator nor an opening parenthesis of the registry. -/
def yields (reg : Registry) (op : Operator) (top : Entry) : Bool :=
  decide (op.priority ≤ top.operator.priority) && !reg.owns top .comma && !reg.owns top .openParen

/-- Applies the operators that come before `op`, topmost first. -/
def reduce (reg : Registry) (op : Operator) : List Entry → Operands → Except EvalError Unit × Stacks
  | [], o => (.ok (), ⟨[], o⟩)
  | top :: ops, o =>
    if yields reg op top then
      match top.operator.perform o with
      | (.ok _, o) => reduce reg op ops o
      | (.error x, o) => (.error x, ⟨ops, o⟩)
    else (.ok (), ⟨top :: ops, o⟩)

/-- Takes in an operator of the registry: a closing parenthesis is applied at once, any other one is
pushed after those that come before it. -/
def accept (reg : Registry) (op : Operator) (s : Stacks) : Except EvalError Unit × Stacks :=
  if op = .closeParen then apply reg op s
  else
    match reduce reg op s.operators s.operands with
    | (.ok _, s) => (.ok (), { s with operators := ⟨op, true⟩ :: s.operators })
    | (.error x, s) => (.error x, s)

/-- Applies operators that are left over, topmost first. -/
def applyAll : List Entry → Operands → Except EvalError Unit × Stacks
  | [], o => (.ok (), ⟨[], o⟩)
  | e :: ops, o =>
    match e.operator.perform o with
    | (.ok _, o) => applyAll ops o
    | (.error x, o) => (.error x, ⟨ops, o⟩)

/-- Performs all that is left at the end of an expression. -/
def drain (s : Stacks) : Except EvalError Unit × Stacks :=
  applyAll s.operators s.operands

/-- Puts an operand on the values. -/
def push (v : Value) (s : Stacks) : Stacks :=
  { s with operands := { s.operands with values := v :: s.operands.values } }

end Stacks

end InlineExpr
