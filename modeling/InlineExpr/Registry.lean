import InlineExpr.Operator
import InlineExpr.Text.Order

/-!
# Registries

A registry is the set of operators that an evaluation knows. A token whose operator is not
registered is an operand like any other. Operators met during an evaluation carry a mark that tells
those of the registry from strangers of the same symbol, because a parenthesis closes only at one
of the registry's own.
-/

namespace InlineExpr

/-- A set of operators. -/
structure Registry where
  operators : List Operator
  nodup : operators.Nodup
deriving DecidableEq

/-- An operator that stands on a stack, and whether it is the one of the registry in use. -/
structure Entry where
  operator : Operator
  own : Bool
deriving DecidableEq, Repr

namespace Registry

/-- The registry of all operators. -/
def standard : Registry where
  operators := Operator.all
  nodup := by decide

/-- Whether the registry has an operator. -/
def contains (reg : Registry) (op : Operator) : Bool :=
  reg.operators.contains op

/-- The operator of the registry that a token is. -/
def lookup? (reg : Registry) (token : Text) : Option Operator :=
  (Operator.ofToken? token).filter reg.contains

/-- Whether an entry is this registry's own instance of an operator. -/
def owns (reg : Registry) (e : Entry) (op : Operator) : Bool :=
  e.own && e.operator == op && reg.contains op

/-- The first operator of a list that occurs earlier in it as well. -/
def repeated? (seen : List Operator) : List Operator → Option Operator
  | [] => none
  | op :: ops => if op ∈ seen then some op else repeated? (op :: seen) ops

/-- A list in which no operator is found to be repeated has none, and none that was seen. -/
theorem nodup_of_repeated?_eq_none {seen ops : List Operator}
    (h : repeated? seen ops = none) : ops.Nodup ∧ ∀ op ∈ ops, op ∉ seen := by
  induction ops generalizing seen with
  | nil => simp
  | cons op ops ih =>
    by_cases hm : op ∈ seen
    · simp [repeated?, hm] at h
    · obtain ⟨nodup, fresh⟩ := ih (by simpa [repeated?, hm] using h)
      refine ⟨List.nodup_cons.2 ⟨fun hop => fresh op hop (by simp), nodup⟩, ?_⟩
      intro x hx
      cases hx with
      | head => exact hm
      | tail _ hx => exact fun hs => fresh x hx (by simp [hs])

/-- The registry of the operators in a list, or the operator that stands in it twice. -/
def ofList? (ops : List Operator) : Except Operator Registry :=
  match h : repeated? [] ops with
  | some op => .error op
  | none => .ok ⟨ops, (nodup_of_repeated?_eq_none h).1⟩

/-- What the refusal of a list with a repeated operator says. -/
def duplicateMessage (op : Operator) : String :=
  "duplicate operator symbol '" ++ op.symbol ++ "'"

/-- The tokens of the registered operators, in ascending order. -/
def tokens (reg : Registry) : List Text :=
  (reg.operators.map Operator.token).mergeSort fun a b => !b.precedes a

end Registry

end InlineExpr
