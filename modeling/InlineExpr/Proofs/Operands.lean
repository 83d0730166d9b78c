import InlineExpr.Stacks
import Mathlib.Data.List.Basic

/-!
# Operators and their operands

An operator of an expression has a number of operands (`Operator.Takes`), and what it makes of them
(`Operator.result`) does not depend on the values below: performed on a stack, it takes its own
operands off the top and puts its result in their place (`Operator.perform_own`). A function counts
its operands by the separators between them and forgets the separators whatever comes of it.
-/

namespace InlineExpr

/-- A sequence that has a result had one in both of its parts. -/
lemma eq_ok_of_bind {ε α β : Type} {x : Except ε α} {f : α → Except ε β} {b : β}
    (h : (x >>= f) = .ok b) : ∃ a, x = .ok a ∧ f a = .ok b := by
  cases x with
  | ok a => exact ⟨a, rfl, h⟩
  | error e => cases h

namespace Reduction

variable {α β : Type}

/-- A reduction has the same outcome on the operands `own`, the last one on top, whatever values are
below them, and a result replaces exactly these operands. -/
def Owns (r : Reduction α) (own : List Value) : Prop :=
  ∀ rest, ∃ left, r.apply (own.reverse ++ rest) = ((r.apply own.reverse).1, left) ∧
    ∀ a, (r.apply own.reverse).1 = .ok a → left = rest

/-- A sequence takes operands for its first part and then for its second. -/
lemma apply_bind (r : Reduction α) (f : α → Reduction β) (values : List Value) :
    (r >>= f).apply values =
      match r.apply values with
      | (.ok a, rest) => (f a).apply rest
      | (.error e, rest) => (.error e, rest) := by
  change (ExceptT.bindCont f (r.apply values).1).run (r.apply values).2 = _
  cases hr : r.apply values with
  | mk x rest => cases x <;> rfl

/-- A result found without operands has none of its own. -/
lemma ofExcept_owns (x : Except EvalError α) : (ofExcept x).Owns [] := by
  intro rest
  cases x with
  | ok a => exact ⟨rest, rfl, fun _ _ => rfl⟩
  | error e => exact ⟨rest, rfl, fun _ _ => rfl⟩

/-- A value at once has no operands of its own. -/
lemma pure_owns (a : α) : Owns (pure a) [] :=
  ofExcept_owns (.ok a)

/-- Asking for an operand owns that operand. -/
lemma operand_owns (op : Operator) (v : Value) : (operand op).Owns [v] :=
  fun rest => ⟨rest, rfl, fun _ _ => rfl⟩

/-- What is taken first stood on top. -/
lemma Owns.bind {r : Reduction α} {f : α → Reduction β} {below own : List Value}
    (hr : r.Owns own) (hf : ∀ a, (f a).Owns below) : (r >>= f).Owns (below ++ own) := by
  intro rest
  obtain ⟨left, hleft, okLeft⟩ := hr (below.reverse ++ rest)
  obtain ⟨alone, halone, okAlone⟩ := hr below.reverse
  rw [List.reverse_append, List.append_assoc, apply_bind, apply_bind, hleft, halone]
  cases hx : (r.apply own.reverse).1 with
  | error e => exact ⟨left, rfl, nofun⟩
  | ok a =>
    rw [okLeft a hx, okAlone a hx]
    exact hf a rest

end Reduction

namespace Operator

open Reduction

/-- The operators written between their two operands. -/
def IsBinary (op : Operator) : Prop :=
  op.kind = .arithmetic ∨ op.kind = .predicate

/-- An operator between two operands is no separator and no parenthesis. -/
lemma IsBinary.ne_mark {op : Operator} (h : op.IsBinary) :
    op ≠ comma ∧ op ≠ openParen ∧ op ≠ closeParen := by
  cases op <;> simp_all [IsBinary, kind]

/-- The numbers of operands of an operator. The marks that compute nothing have none. -/
def Takes : Operator → Nat → Prop
  | isEmpty, n | isNotEmpty, n | length, n => n = 1
  | startsWith, n | endsWith, n => n = 2
  | substring, n => 1 ≤ n
  | colon, n => n = 3
  | question, _ | comma, _ | openParen, _ | closeParen, _ => False
  | _, n => n = 2

/-- A binary operator has two operands, and binds them more tightly than a choice would. -/
lemma IsBinary.binds_operands {op : Operator} (h : op.IsBinary) :
    2 ≤ op.priority ∧ op.kind ≠ .function ∧ op.Takes 2 := by
  cases op <;> simp_all [IsBinary, kind, priority, Takes]

/-- A function binds most tightly, parentheses apart. -/
lemma function_binds {op : Operator} (h : op.kind = .function) :
    op ≠ closeParen ∧ op.priority = 6 := by
  cases op <;> simp_all [kind, priority]

/-- What an operator makes of its operands, the first one first. -/
def result (op : Operator) (own : List Value) : Except EvalError Value :=
  match op.reduction? own.length with
  | some r => (r.apply own.reverse).1
  | none => .error (.missingOperand op)

/-- An operator on two operands makes of them what its function does. -/
lemma result_binary {op : Operator} {f : Value → Value → Except EvalError Value}
    (h : op.reduction? 2 = some (op.binary f)) (v w : Value) : op.result [v, w] = f v w := by
  have happly : ((op.binary f).apply [w, v]).1 = f v w := by
    change ((Reduction.ofExcept (f v w)).apply []).1 = f v w
    cases f v w <;> rfl
  rw [result, show [v, w].length = 2 from rfl, h]
  exact happly

/-- An operator on two operands owns these two. -/
lemma binary_owns (op : Operator) (f : Value → Value → Except EvalError Value) (a b : Value) :
    (binary op f).Owns [a, b] :=
  .bind (operand_owns op b) fun _ => .bind (operand_owns op a) fun _ => ofExcept_owns _

/-- A slice owns its text and its indices, whatever their number. -/
lemma sliceParameters_owns (own : List Value) : (sliceParameters own.length).Owns own := by
  -- an index is read as a number before what is below it is taken, which takes nothing itself
  match own with
  | [t, i] =>
    change Owns (operand _ >>= _) ([t] ++ [i])
    apply Owns.bind (operand_owns _ i)
    intro _
    change Owns (Reduction.ofExcept _ >>= _) ([t] ++ [])
    apply Owns.bind (ofExcept_owns _)
    intro _
    exact .bind (operand_owns _ t) fun _ => ofExcept_owns _
  | [t, i, j] =>
    change Owns (operand _ >>= _) ([t, i] ++ [j])
    apply Owns.bind (operand_owns _ j)
    intro _
    change Owns (Reduction.ofExcept _ >>= _) ([t, i] ++ [])
    apply Owns.bind (ofExcept_owns _)
    intro _
    change Owns (operand _ >>= _) ([t] ++ [i])
    apply Owns.bind (operand_owns _ i)
    intro _
    change Owns (Reduction.ofExcept _ >>= _) ([t] ++ [])
    apply Owns.bind (ofExcept_owns _)
    intro _
    exact .bind (operand_owns _ t) fun _ => ofExcept_owns _
  | [] => exact fun rest => ⟨rest, rfl, nofun⟩
  | [t] => exact fun rest => ⟨t :: rest, rfl, nofun⟩
  | t :: i :: j :: k :: own => exact fun rest => ⟨_, rfl, nofun⟩

/-- An operator owns as many operands as it takes. -/
lemma reduction_owns {op : Operator} {own : List Value} (h : op.Takes own.length) :
    ∃ r, op.reduction? own.length = some r ∧ r.Owns own := by
  cases op with
  | substring => exact ⟨_, rfl, sliceParameters_owns own⟩
  | isEmpty | isNotEmpty | length =>
    obtain ⟨v, rfl⟩ := List.length_eq_one_iff.1 h
    exact ⟨_, rfl, .bind (operand_owns _ v) fun _ => pure_owns _⟩
  | colon =>
    obtain ⟨p, t, f, rfl⟩ := List.length_eq_three.1 h
    refine ⟨_, rfl, ?_⟩
    change Owns (operand _ >>= _) ([p, t] ++ [f])
    apply Owns.bind (operand_owns _ f)
    intro _
    change Owns (operand _ >>= _) ([p] ++ [t])
    apply Owns.bind (operand_owns _ t)
    intro _
    exact .bind (operand_owns _ p) fun _ => ofExcept_owns _
  | question | comma | openParen | closeParen => exact h.elim
  | _ =>
    obtain ⟨a, b, rfl⟩ := List.length_eq_two.1 h
    exact ⟨_, rfl, binary_owns _ _ a b⟩

/-- Only the slice asks how many parameters were counted. -/
lemma reduction?_eq {op : Operator} (h : op ≠ substring) (m n : Nat) :
    op.reduction? m = op.reduction? n := by
  cases op with
  | substring => exact absurd rfl h
  | _ => rfl

/-- The separators that are left once an operator was performed: a function forgets them. -/
def separatorsAfter (op : Operator) (separators : Nat) : Nat :=
  if op.kind = .function then 0 else separators

/-- Operators other than the separator count nothing. -/
lemma separators_perform (op : Operator) (o : Operands) (h : op ≠ comma)
    (ho : o.separators = 0) : (op.perform o).2.separators = 0 := by
  rw [perform]
  cases op.reduction? (o.separators + 1) with
  | none => rwa [if_neg h]
  | some r =>
    dsimp only
    have hkind : (if op.kind = .function then 0 else o.separators) = 0 := by
      rw [ho, ite_self]
    cases r.apply o.values with
    | mk x rest => cases x <;> exact hkind

/-- Once a function was performed, no separators are counted. -/
lemma separators_perform_of_function {op : Operator} (h : op.kind = .function) (o : Operands) :
    (op.perform o).2.separators = 0 := by
  rw [perform]
  cases hr : op.reduction? (o.separators + 1) with
  | none => cases op <;> simp_all [kind, reduction?]
  | some r =>
    dsimp only
    rw [if_pos h]
    cases r.apply o.values with
    | mk x rest => cases x <;> rfl

/-- An operator takes its own operands off the top and puts its result in their place; of the
values below it does not take any unless it fails. -/
lemma perform_own {op : Operator} {own : List Value} {n : Nat} (h : op.Takes own.length)
    (hn : op = substring → n + 1 = own.length) (rest : List Value) :
    ∃ left, op.perform ⟨own.reverse ++ rest, n⟩ =
      match op.result own with
      | .ok v => (.ok (), ⟨v :: rest, op.separatorsAfter n⟩)
      | .error e => (.error e, ⟨left, op.separatorsAfter n⟩) := by
  obtain ⟨r, hr, owns⟩ := reduction_owns h
  -- for a slice the count is its own, for any other operator the count does not matter
  have hcount : op.reduction? (n + 1) = some r := by
    by_cases hop : op = substring
    · rw [hn hop, hr]
    · rw [reduction?_eq hop _ own.length, hr]
  obtain ⟨left, hleft, okLeft⟩ := owns rest
  refine ⟨left, ?_⟩
  rw [perform, hcount, result, hr]
  dsimp only
  rw [hleft]
  cases hx : (r.apply own.reverse).1 with
  | error e => rfl
  | ok v =>
    rw [okLeft v hx]
    rfl

end Operator

end InlineExpr
