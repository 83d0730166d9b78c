import InlineExpr.Proofs.Frame

/-!
# Requests

What can be asked of a context: to evaluate a text or an expression, or to resolve a constant. A
relation between contexts that the resolution of constants keeps is kept by every request that ends
(`Request.Ends.within`).
-/

namespace InlineExpr

open Eval

/-- What is to be evaluated. -/
inductive Request where
  | text (t : Text)
  | expression (tokens : List Text)
  | constant (name : Text)

namespace Request

/-- What the request comes to within a number of steps. -/
def run (steps : Nat) : Request → Eval Text
  | text t => Eval.text steps t
  | expression ts => Eval.expression (Eval.text steps) ts
  | constant name => Eval.constant (Eval.text steps) name

/-- In the context, the request ends in `o`, whatever the number of steps it takes. -/
def Ends (r : Request) (ctx : Context) (o : Outcome Text) : Prop :=
  Eval.Ends (run · r) ctx o

variable {R : Context → Context → Prop}

/-- A relation that the resolution of constants keeps is kept by every request. -/
lemma run_within (hR : IsFrame R)
    (resolving : ∀ n name, (∀ t, Within R (Eval.text n t)) →
      Within R (Eval.constant (Eval.text n) name)) (n : Nat) (r : Request) :
    Within R (r.run n) := by
  have htext := (text_within hR resolving n).1
  cases r with
  | text t => exact htext t
  | expression ts => exact .expression hR htext ts
  | constant name => exact resolving n name htext

/-- A request ends in a context that is related to the one in which it was made. -/
lemma Ends.within {r : Request} {ctx c : Context} {o : Outcome Text} (hR : IsFrame R)
    (resolving : ∀ n name, (∀ t, Within R (Eval.text n t)) →
      Within R (Eval.constant (Eval.text n) name))
    (h : r.Ends ctx o) (hc : o.context? = some c) : R ctx c := by
  obtain ⟨-, n, rfl⟩ := h
  exact run_within hR resolving n r ctx c hc

end Request

end InlineExpr
