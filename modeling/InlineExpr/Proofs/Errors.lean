import InlineExpr.Proofs.Alike
import InlineExpr.Proofs.Loops
import InlineExpr.Proofs.Requests
import InlineExpr.Proofs.Settling

/-!
# Where errors come from

Neither operators nor the stacks fail as references do, so an expression that fails so has an
operand that does (`Eval.asks_of_error`). Hence an error of a reference can be followed from a
request through the loops that it opens to a reference whose constant is missing or cannot be
entered (`Request.refused_of_error`).
-/

namespace InlineExpr

/-- The errors that a reference can end with. -/
def EvalError.OfReference : EvalError → Prop
  | .unknownConstant _ _ | .cyclicReference _ | .depthExceeded => True
  | _ => False

/-- The errors that operators and the stacks can end with. -/
def EvalError.OfStacks (e : EvalError) : Prop :=
  e = .unbalancedParenthesis ∨ e.OfOperator

/-- What goes wrong with a reference is no error of the stacks. -/
lemma EvalError.OfReference.not_ofStacks {e : EvalError} (he : e.OfReference) : ¬ e.OfStacks := by
  rintro (rfl | h)
  · exact he
  · cases e with
    | unknownConstant _ _ | cyclicReference _ | depthExceeded => exact h
    | _ => exact he

/-- What goes wrong when an operator is performed is an error of operators. -/
lemma Operator.ofOperator_of_perform {op : Operator} {o : Operands} {e : EvalError}
    (h : (op.perform o).1 = .error e) : e.OfOperator := by
  rw [perform] at h
  cases hr : op.reduction? (o.separators + 1) with
  | none =>
    rw [hr] at h
    cases h
  | some r =>
    -- alike values make the same errors of operators, and the values are like themselves
    have hsame : List.Forall₂ Value.Alike o.values o.values :=
      List.forall₂_same.2 fun v _ => .refl v
    have hagree := (reduction_indifferent hr _ _ hsame).1
    rw [hr] at h
    dsimp only at h
    cases hx : r.apply o.values with
    | mk x rest =>
      rw [hx] at h hagree
      cases x with
      | ok v => cases h
      | error x =>
        cases h
        exact hagree.2

namespace Stacks

variable {reg : Registry} {e : EvalError}

/-- What holds of the errors of operators and of what goes on behind one holds of both together. -/
lemma performThen_error {P : Prop} (hP : e.OfOperator → P)
    {go : List Entry → Operands → Except EvalError Unit × Stacks} {top : Entry} {ops : List Entry}
    {o : Operands} (hgo : ∀ o, (go ops o).1 = .error e → P)
    (h : (performThen go top ops o).1 = .error e) : P := by
  rw [performThen] at h
  cases hx : top.operator.perform o with
  | mk x o' =>
    rw [hx] at h
    cases x with
    | ok _ => exact hgo o' h
    | error x =>
      cases h
      exact hP (Operator.ofOperator_of_perform (congrArg Prod.fst hx))

/-- What goes wrong in settling is an error of operators. -/
lemma settle_error {p : Nat} {ops : List Entry} {o : Operands}
    (h : (settle reg p ops o).1 = .error e) : e.OfOperator := by
  induction ops generalizing o with
  | nil => cases h
  | cons top ops ih =>
    rw [settle] at h
    split at h
    · exact performThen_error id (fun _ => ih) h
    · cases h

/-- What goes wrong at the end is an error of operators. -/
lemma applyAll_error {ops : List Entry} {o : Operands} (h : (applyAll ops o).1 = .error e) :
    e.OfOperator := by
  induction ops generalizing o with
  | nil => cases h
  | cons top ops ih => exact performThen_error id (fun _ => ih) h

/-- What goes wrong with a function is an error of operators. -/
lemma fire_error {ops : List Entry} {o : Operands} (h : (fire ops o).1 = .error e) :
    e.OfOperator := by
  cases ops with
  | nil => cases h
  | cons f ops =>
    rw [fire] at h
    split at h
    · exact Operator.ofOperator_of_perform h
    · cases h

/-- What goes wrong in unwinding is an error of the stacks. -/
lemma unwind_error {nested : Nat} {ops : List Entry} {o : Operands}
    (h : (unwind reg nested ops o).1 = .error e) : e.OfStacks := by
  induction ops generalizing nested o with
  | nil =>
    cases h
    exact .inl rfl
  | cons top ops ih =>
    rw [unwind.eq_def] at h
    dsimp only at h
    split at h
    · exact ih h
    · split at h
      · cases nested with
        | zero => exact .inr (fire_error h)
        | succ nested => exact ih h
      · exact performThen_error .inr (fun _ => ih) h

/-- Only a closing parenthesis fails in another way than operators do. -/
lemma accept_error_of_ne {op : Operator} (hop : op ≠ .closeParen) {s : Stacks}
    (h : (accept reg op s).1 = .error e) : e.OfOperator := by
  rw [accept, if_neg hop, reduce_eq_settle] at h
  cases hr : settle reg op.priority s.operators s.operands with
  | mk x s' =>
    rw [hr] at h
    cases x with
    | ok _ => cases h
    | error x =>
      cases h
      exact settle_error (congrArg Prod.fst hr)

/-- What goes wrong when an operator comes in is an error of the stacks. -/
lemma accept_error {op : Operator} {s : Stacks} (h : (accept reg op s).1 = .error e) :
    e.OfStacks := by
  by_cases hop : op = .closeParen
  · rw [accept, if_pos hop, hop] at h
    exact unwind_error h
  · exact .inr (accept_error_of_ne hop h)

end Stacks

namespace Eval

variable {ctx c : Context} {e : EvalError}

/-- An error of work on the stacks is one of the same stacks with some count. -/
lemma error_of_onStacks {f : Stacks → Except EvalError Unit × Stacks} {s : Stacks}
    (h : onStacks f s ctx = .error e c) :
    ∃ s', s'.operators = s.operators ∧ (f s').1 = .error e := by
  rw [onStacks] at h
  refine ⟨{ s with operands := { s.operands with separators := ctx.separators } }, rfl, ?_⟩
  cases hf : f { s with operands := { s.operands with separators := ctx.separators } } with
  | mk x s' =>
    rw [hf] at h
    cases x with
    | ok _ => cases h
    | error x =>
      cases h
      rfl

section Tokens

variable (he : ¬ e.OfStacks)

include he

/-- A token that fails as stacks do not is an operand that does. -/
lemma error_of_token {resolve : Text → Eval Text} {s : Stacks} {t : Text}
    (h : token resolve s t ctx = .error e c) :
    ctx.registry.lookup? t = none ∧ resolve t ctx = .error e c := by
  rw [token_apply] at h
  cases hop : ctx.registry.lookup? t with
  | some op =>
    rw [hop] at h
    obtain ⟨s', -, hs'⟩ := error_of_onStacks h
    exact absurd (Stacks.accept_error hs') he
  | none =>
    rw [hop] at h
    obtain h | ⟨v, c', -, h⟩ := error_of_bind h
    · exact ⟨rfl, h⟩
    · cases h

/-- Tokens that fail as stacks do not ask for an operand that does. -/
lemma asks_of_tokens_error {n : Nat} {s : Stacks} {ts : List Text}
    (h : tokens (text n) s ts ctx = .error e c) :
    ∃ u ctx', Asks s ts ctx u ctx' ∧ text n u ctx' = .error e c := by
  induction ts generalizing s ctx with
  | nil => cases h
  | cons t ts ih =>
    obtain h | ⟨s', c', htoken, h⟩ := error_of_bind h
    · obtain ⟨hop, h⟩ := error_of_token he h
      exact ⟨t, ctx, .here hop, h⟩
    · obtain ⟨u, ctx', hasks, h⟩ := ih h
      exact ⟨u, ctx', .later ⟨Outcome.value_ne_outOfSteps s' c', n, htoken⟩ hasks, h⟩

end Tokens

section Expressions

variable (he : e.OfReference)

include he

/-- An expression that fails as a reference does has asked for the text that fails so. -/
lemma asks_of_error {n : Nat} {ts : List Text}
    (h : expression (text n) ts ctx = .error e c) :
    ∃ u ctx', Asks .empty ts ctx u ctx' ∧ text n u ctx' = .error e c := by
  obtain h | ⟨s, c', -, h⟩ := error_of_bind h
  · exact asks_of_tokens_error he.not_ofStacks h
  · obtain h | ⟨s', c'', -, h⟩ := error_of_bind h
    · obtain ⟨s', -, hs'⟩ := error_of_onStacks h
      exact absurd (.inr (Stacks.applyAll_error hs')) he.not_ofStacks
    · cases hv : s'.operands.values with
      | nil =>
        rw [hv] at h
        cases h
        exact he.elim
      | cons v _ =>
        rw [hv] at h
        cases h

/-- A span fails as references do if its expression does. -/
lemma expression_of_span_error {resolve : Text → Eval Text} {body : Text}
    (h : span resolve body ctx = .error e c) :
    expression resolve (tokenize body) ctx = .error e c := by
  obtain ⟨e', hexpression, rfl⟩ := error_of_mapError h
  cases e' with
  | emptyExpression _ => exact he.elim
  | _ => exact hexpression

end Expressions

end Eval

open Eval

/-- The evaluation that the loop begins comes to a reference whose constant is refused. -/
inductive Stage.Refused (s : Stage) (e : EvalError) : Prop where
  | mk {t cut ctx} : Reaches s (.references t ctx) → Reference.find? t = some cut →
    ctx.Refuses cut.inner e → Refused s e

namespace Stage

variable {s t : Stage} {e : EvalError}

/-- A loop is refused if what it comes to is. -/
lemma Refused.step (hstep : Turn s t ∨ Calls s t) (h : t.Refused e) : s.Refused e := by
  obtain ⟨hreach, hcut, hrefuses⟩ := h
  exact ⟨.head hstep hreach, hcut, hrefuses⟩

/-- A loop that fails as references do comes to one whose constant is refused. -/
lemma refused_of_error (he : e.OfReference) {n : Nat} {c : Context} (h : s.run n = .error e c) :
    s.Refused e := by
  -- on the steps: what fails one step down is a turn of the loop or an evaluation it calls for
  induction n generalizing s c with
  | zero =>
    rw [run_zero] at h
    cases h
  | succ n ih =>
    cases s with
    | spans t ctx =>
      cases hcut : Span.find? t with
      | none =>
        rw [run, text_of_no_span hcut] at h
        have hrefused : Refused (.references t ctx) e := ih h
        exact hrefused.step (.inl (.spanless hcut))
      | some cut =>
        rw [run, text_of_span hcut] at h
        obtain h | ⟨v, c', hv, h⟩ := error_of_bind h
        · obtain ⟨u, ctx', hasks, h⟩ := asks_of_error he (expression_of_span_error he h)
          have hrefused : Refused (.spans u ctx') e := ih h
          exact hrefused.step (.inr (.operand hcut hasks))
        · have hrefused : Refused (.spans (cut.before ++ v ++ cut.after) c') e := ih h
          have hends := Outcome.value_ne_outOfSteps v c'
          exact hrefused.step (.inl (.span hcut ⟨hends, n, hv⟩))
    | references t ctx =>
      cases hcut : Reference.find? t with
      | none =>
        rw [run, references_of_no_reference hcut] at h
        cases h
      | some cut =>
        rw [run, references_of_reference hcut] at h
        obtain h | ⟨v, c', hv, h⟩ := error_of_bind h
        · obtain ⟨hrefuses, -⟩ | ⟨value, inner, c', hget, henter, h, -⟩ := error_of_constant h
          · exact ⟨.refl, hcut, hrefuses⟩
          · have hrefused : Refused (.spans value inner) e := ih h
            exact hrefused.step (.inr (.constant hcut hget henter))
        · have hrefused : Refused (.references (cut.before ++ v ++ cut.after) c') e := ih h
          have hends := Outcome.value_ne_outOfSteps v c'
          exact hrefused.step (.inl (.reference hcut ⟨hends, n, hv⟩))

end Stage

namespace Request

/-- The loops that a request begins: that of a text, those of the operands of an expression, and
that of the value of a constant. -/
inductive Opens : Request → Context → Stage → Prop where
  | text {t ctx} : Opens (.text t) ctx (.spans t ctx)
  | operand {ts ctx u ctx'} : Asks .empty ts ctx u ctx' →
    Opens (.expression ts) ctx (.spans u ctx')
  | value {name ctx value ctx'} : ctx.table.get? name = some value →
    ctx.enter name = .ok ctx' → Opens (.constant name) ctx (.spans value ctx')

/-- The request asks for a constant that is refused, or comes to a reference to one. -/
inductive Refused : Request → Context → EvalError → Prop where
  | constant {name ctx e} : ctx.Refuses name e → Refused (.constant name) ctx e
  | nested {r ctx s e} : Opens r ctx s → s.Refused e → Refused r ctx e

/-- A request that fails as references do comes to a constant that is refused. -/
lemma refused_of_error {r : Request} {ctx c : Context} {e : EvalError} (he : e.OfReference)
    {n : Nat} (h : r.run n ctx = .error e c) : r.Refused ctx e := by
  cases r with
  | text t =>
    have hrefused : Stage.Refused (.spans t ctx) e := Stage.refused_of_error he h
    exact .nested .text hrefused
  | expression ts =>
    obtain ⟨u, inner, hasks, h⟩ := asks_of_error he h
    have hrefused : Stage.Refused (.spans u inner) e := Stage.refused_of_error he h
    exact .nested (.operand hasks) hrefused
  | constant name =>
    obtain ⟨hrefuses, -⟩ | ⟨value, inner, c', hget, henter, h, -⟩ := error_of_constant h
    · exact .constant hrefuses
    · have hrefused : Stage.Refused (.spans value inner) e := Stage.refused_of_error he h
      exact .nested (.value hget henter) hrefused

end Request

end InlineExpr
