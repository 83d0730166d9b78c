import InlineExpr.Registry
import Mathlib.Tactic.Common

/-!
# Operators and their symbols

A text names at most one operator, which the standard registry has.
-/

namespace InlineExpr

namespace Operator

/-- The list of all operators leaves none out. -/
lemma mem_all (op : Operator) : op ∈ all := by
  cases op <;> decide

/-- A text names an operator exactly when it is that operator's token. -/
lemma ofToken?_eq_some_iff {t : Text} {op : Operator} : ofToken? t = some op ↔ t = op.token := by
  constructor
  · intro h
    have found := List.find?_some h
    exact (eq_of_beq found).symm
  · rintro rfl
    cases op <;> rfl

/-- The token of an operator names it. -/
@[simp] lemma ofToken?_token (op : Operator) : ofToken? op.token = some op :=
  ofToken?_eq_some_iff.2 rfl

end Operator

/-- The standard registry has every operator. -/
@[simp] lemma Registry.contains_standard (op : Operator) : standard.contains op = true := by
  simp [contains, standard, Operator.mem_all]

end InlineExpr
