import InlineExpr.EvalError
import InlineExpr.Number.DecimalText
import InlineExpr.Text.Order
import InlineExpr.Value

/-!
# Reductions

What each operator computes. A reduction takes its operands off the top of the values, the last one
first, and has one result or an error; operands that were taken stay taken.
-/

namespace InlineExpr

/-- A computation that takes values off a stack, topmost first. -/
abbrev Reduction (α : Type) := ExceptT EvalError (StateM (List Value)) α

namespace Reduction

/-- The outcome of a reduction, and the values it leaves. -/
def apply {α : Type} (r : Reduction α) (values : List Value) : Except EvalError α × List Value :=
  r.run values

/-- Takes the topmost value, for the operator `op`. -/
def operand (op : Operator) : Reduction Value := do
  match ← get with
  | [] => throw (.missingOperand op)
  | v :: rest =>
    set rest
    return v

/-- Fails with the error of `e`, or goes on with its value. -/
def ofExcept {α : Type} : Except EvalError α → Reduction α
  | .ok a => pure a
  | .error e => throw e

end Reduction

namespace Operator

/-- A value as a decimal, for an operator that computes with numbers. -/
def decimalOf (op : Operator) (v : Value) : Except EvalError Decimal :=
  match Decimal.ofText? v.asText with
  | some d => .ok d
  | none => .error (.arithmetic op (.notANumber v.asText))

/-- A value as a truth value, for an operator that decides. -/
def boolOf (op : Operator) (v : Value) : Except EvalError Bool :=
  match v.asBool? with
  | some b => .ok b
  | none => .error (.typeMismatch op .boolean v.asText)

/-- A value read as an index: a finite number without its fraction. -/
def indexOf (op : Operator) (v : Value) : Except EvalError Int :=
  match v.asNumber?.bind Binary64.truncate? with
  | some i => .ok i
  | none => .error (.typeMismatch op .number v.asText)

/-- Takes the right operand, then the left one, and combines them. -/
def binary (op : Operator) (f : Value → Value → Except EvalError Value) : Reduction Value := do
  let right ← Reduction.operand op
  let left ← Reduction.operand op
  Reduction.ofExcept (f left right)

/-- An operator on two numbers, written out again as a text. -/
def arithmetic (op : Operator) (f : Decimal → Decimal → Except Decimal.DivisionError Decimal)
    (left right : Value) : Except EvalError Value := do
  let a ← decimalOf op left
  let b ← decimalOf op right
  match f a b with
  | .ok d => .ok (.text d.toText)
  | .error e => .error (.arithmetic op (.division e))

/-- The order of two values: that of their numbers if both have one, else that of their texts. What
is no number has no order to a number. -/
def order? (left right : Value) : Option Ordering :=
  match left.asNumber?, right.asNumber? with
  | some a, some b => Binary64.compare? a b
  | _, _ => some (left.asText.order right.asText)

/-- Whether two values stand in an order that `accept` admits. -/
def ordered (accept : Ordering → Bool) (left right : Value) : Except EvalError Value :=
  .ok (.bool ((order? left right).any accept))

/-- An operator on two truth values. -/
def logical (op : Operator) (f : Bool → Bool → Bool) (left right : Value) :
    Except EvalError Value := do
  let a ← boolOf op left
  let b ← boolOf op right
  return .bool (f a b)

/-- One of two values, as the predicate decides. -/
def choose (predicate whenTrue whenFalse : Value) : Except EvalError Value := do
  let b ← boolOf colon predicate
  return if b then whenTrue else whenFalse

/-- The characters of `t` from index `first` up to, but not including, index `last`. -/
def slice (t : Text) (first last : Int) : Except EvalError Value :=
  if 0 ≤ first ∧ first ≤ last ∧ last ≤ t.length then
    .ok (.text ((t.drop first.toNat).take (last - first).toNat))
  else .error (.outOfBounds substring first last t.length)

/-- The slice of a text from an index to its end, or between two indices. -/
def sliceParameters (count : Nat) : Reduction Value :=
  match count with
  | 2 => do
    let first ← Reduction.ofExcept (indexOf substring (← Reduction.operand substring))
    let target ← Reduction.operand substring
    Reduction.ofExcept (slice target.asText first target.asText.length)
  | 3 => do
    let last ← Reduction.ofExcept (indexOf substring (← Reduction.operand substring))
    let first ← Reduction.ofExcept (indexOf substring (← Reduction.operand substring))
    let target ← Reduction.operand substring
    Reduction.ofExcept (slice target.asText first last)
  | _ => throw (.parameterCount substring count)

/-- What an operator computes when `count` parameters were counted for it. The separator, the first
mark of a choice and the parentheses compute nothing. -/
def reduction? (op : Operator) (count : Nat) : Option (Reduction Value) :=
  match op with
  | plus => some (binary op (arithmetic op fun a b => .ok (a + b)))
  | minus => some (binary op (arithmetic op fun a b => .ok (a - b)))
  | times => some (binary op (arithmetic op fun a b => .ok (a * b)))
  | divide => some (binary op (arithmetic op Decimal.div))
  | isEmpty => some do return .bool (← Reduction.operand op).isAbsent
  | isNotEmpty => some do return .bool (!(← Reduction.operand op).isAbsent)
  | startsWith => some (binary op fun t affix => .ok (.bool (affix.asText.isPrefixOf t.asText)))
  | endsWith => some (binary op fun t affix => .ok (.bool (affix.asText.isSuffixOf t.asText)))
  | length => some do
    return .text (Nat.toDigits 10 (← Reduction.operand op).asText.length)
  | substring => some (sliceParameters count)
  | equal => some (binary op fun a b => .ok (.bool (a.asText == b.asText)))
  | notEqual => some (binary op fun a b => .ok (.bool (a.asText != b.asText)))
  | greater => some (binary op (ordered Ordering.isGT))
  | less => some (binary op (ordered Ordering.isLT))
  | greaterEqual => some (binary op (ordered Ordering.isGE))
  | lessEqual => some (binary op (ordered Ordering.isLE))
  | conj => some (binary op (logical op and))
  | disj => some (binary op (logical op or))
  | colon => some do
    let whenFalse ← Reduction.operand op
    let whenTrue ← Reduction.operand op
    let predicate ← Reduction.operand op
    Reduction.ofExcept (choose predicate whenTrue whenFalse)
  | question | comma | openParen | closeParen => none

end Operator

end InlineExpr
