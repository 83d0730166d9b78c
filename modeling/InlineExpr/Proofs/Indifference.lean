import InlineExpr.Proofs.Evaluation
import InlineExpr.Proofs.Operands
import InlineExpr.Proofs.Settling

/-!
# Who reads the count of separators

Of all operators only the slice looks at the separators that were counted. Stacks on which no slice
stands therefore come to the same values and the same errors whatever the count is (`Stacks.Alike`),
and so do expressions under a registry without slices, as long as their operands stand for
themselves (`expression_alike`).
-/

namespace InlineExpr

namespace Stacks

/-- Two outcomes on the stacks that differ in the count of separators at most. -/
structure Alike (r r' : Except EvalError Unit × Stacks) : Prop where
  outcome : r.1 = r'.1
  operators : r.2.operators = r'.2.operators
  values : r.2.operands.values = r'.2.operands.values

/-- No slice is stacked. -/
def NoSlice (ops : List Entry) : Prop :=
  ∀ e ∈ ops, e.operator ≠ .substring

/-- Below the topmost operator no slice is stacked if none is. -/
lemma NoSlice.tail {top : Entry} {ops : List Entry} (h : NoSlice (top :: ops)) : NoSlice ops :=
  fun e he => h e (.tail _ he)

/-- An operator that is no slice has the same outcome whatever the count is. -/
lemma perform_alike {op : Operator} (h : op ≠ .substring) (vs : List Value) (m n : Nat) :
    (op.perform ⟨vs, m⟩).1 = (op.perform ⟨vs, n⟩).1 ∧
      (op.perform ⟨vs, m⟩).2.values = (op.perform ⟨vs, n⟩).2.values := by
  rw [Operator.perform, Operator.perform, Operator.reduction?_eq h (m + 1) (n + 1)]
  cases op.reduction? (n + 1) with
  | none =>
    dsimp only
    by_cases hcomma : op = .comma
    · rw [if_pos hcomma, if_pos hcomma]
      exact ⟨rfl, rfl⟩
    · rw [if_neg hcomma, if_neg hcomma]
      exact ⟨rfl, rfl⟩
  | some r =>
    dsimp only
    cases r.apply vs with
    | mk x rest => cases x <;> exact ⟨rfl, rfl⟩

/-- Performing an operator other than the slice and going on does not depend on the count. -/
lemma performThen_alike {go : List Entry → Operands → Except EvalError Unit × Stacks}
    {top : Entry} {ops : List Entry} (h : top.operator ≠ .substring)
    (hgo : ∀ vs m n, Alike (go ops ⟨vs, m⟩) (go ops ⟨vs, n⟩)) (vs : List Value) (m n : Nat) :
    Alike (performThen go top ops ⟨vs, m⟩) (performThen go top ops ⟨vs, n⟩) := by
  obtain ⟨hx, hvalues⟩ := perform_alike h vs m n
  rw [performThen, performThen]
  cases hm : top.operator.perform ⟨vs, m⟩ with
  | mk x o =>
    cases hn : top.operator.perform ⟨vs, n⟩ with
    | mk x' o' =>
      rw [hm, hn] at hx hvalues
      obtain ⟨values, k⟩ := o
      obtain ⟨values', k'⟩ := o'
      dsimp only at hx hvalues
      subst hx hvalues
      cases x with
      | ok _ => exact hgo _ k k'
      | error e => exact ⟨rfl, rfl, rfl⟩

variable {reg : Registry}

/-- Settling stacks without slices does not depend on the count. -/
lemma settle_alike (p : Nat) {ops : List Entry} (h : NoSlice ops) (vs : List Value) (m n : Nat) :
    Alike (settle reg p ops ⟨vs, m⟩) (settle reg p ops ⟨vs, n⟩) := by
  induction ops generalizing vs m n with
  | nil => exact ⟨rfl, rfl, rfl⟩
  | cons top ops ih =>
    rw [settle, settle]
    by_cases hb : binds reg p top = true
    · rw [if_pos hb, if_pos hb]
      exact performThen_alike (h top (.head _)) (ih h.tail) vs m n
    · rw [if_neg hb, if_neg hb]
      exact ⟨rfl, rfl, rfl⟩

/-- The end of stacks without slices does not depend on the count. -/
lemma applyAll_alike {ops : List Entry} (h : NoSlice ops) (vs : List Value) (m n : Nat) :
    Alike (applyAll ops ⟨vs, m⟩) (applyAll ops ⟨vs, n⟩) := by
  induction ops generalizing vs m n with
  | nil => exact ⟨rfl, rfl, rfl⟩
  | cons top ops ih => exact performThen_alike (h top (.head _)) (ih h.tail) vs m n

/-- Firing a function other than the slice does not depend on the count. -/
lemma fire_alike {ops : List Entry} (h : NoSlice ops) (vs : List Value) (m n : Nat) :
    Alike (fire ops ⟨vs, m⟩) (fire ops ⟨vs, n⟩) := by
  cases ops with
  | nil => exact ⟨rfl, rfl, rfl⟩
  | cons f ops =>
    rw [fire, fire]
    by_cases hf : f.operator.kind = .function
    · rw [if_pos hf, if_pos hf]
      obtain ⟨hx, hvalues⟩ := perform_alike (h f (.head _)) vs m n
      exact ⟨hx, rfl, hvalues⟩
    · rw [if_neg hf, if_neg hf]
      exact ⟨rfl, rfl, rfl⟩

/-- Unwinding stacks without slices does not depend on the count. -/
lemma unwind_alike (nested : Nat) {ops : List Entry} (h : NoSlice ops) (vs : List Value)
    (m n : Nat) : Alike (unwind reg nested ops ⟨vs, m⟩) (unwind reg nested ops ⟨vs, n⟩) := by
  induction ops generalizing nested vs m n with
  | nil => exact ⟨rfl, rfl, rfl⟩
  | cons top ops ih =>
    rw [unwind.eq_def, unwind.eq_def]
    dsimp only
    by_cases hclose : top.operator = .closeParen
    · rw [if_pos hclose, if_pos hclose]
      exact ih _ h.tail vs m n
    · rw [if_neg hclose, if_neg hclose]
      by_cases hopen : reg.owns top .openParen = true
      · rw [if_pos hopen, if_pos hopen]
        cases nested with
        | zero => exact fire_alike h.tail vs m n
        | succ nested => exact ih nested h.tail vs m n
      · rw [if_neg hopen, if_neg hopen]
        exact performThen_alike (h top (.head _)) (ih nested h.tail) vs m n

/-- An operator is taken in alike, whatever the count is. -/
lemma accept_alike (op : Operator) {ops : List Entry} (h : NoSlice ops) (vs : List Value)
    (m n : Nat) : Alike (accept reg op ⟨ops, ⟨vs, m⟩⟩) (accept reg op ⟨ops, ⟨vs, n⟩⟩) := by
  rw [accept, accept]
  by_cases hop : op = .closeParen
  · rw [if_pos hop, if_pos hop, hop]
    exact unwind_alike 0 h vs m n
  · rw [if_neg hop, if_neg hop]
    dsimp only
    rw [reduce_eq_settle, reduce_eq_settle]
    obtain ⟨hx, hops, hvalues⟩ := @settle_alike reg op.priority ops h vs m n
    cases hm : settle reg op.priority ops ⟨vs, m⟩ with
    | mk x s =>
      cases hn : settle reg op.priority ops ⟨vs, n⟩ with
      | mk x' s' =>
        rw [hm, hn] at hx hops hvalues
        dsimp only at hx hops hvalues
        subst hx
        cases x with
        | ok _ => exact ⟨rfl, congrArg (List.cons _) hops, hvalues⟩
        | error e => exact ⟨rfl, hops, hvalues⟩

end Stacks

namespace Eval

open Stacks

/-- Two outcomes on stacks without slices that differ in the counts of separators at most. -/
inductive Alike : Outcome Stacks → Outcome Stacks → Prop where
  | value {ops vs ctx} (m n k : Nat) : NoSlice ops → ctx.registry.contains .substring = false →
    Alike (.value ⟨ops, ⟨vs, m⟩⟩ ctx) (.value ⟨ops, ⟨vs, n⟩⟩ { ctx with separators := k })
  | error (e ctx ctx') : Alike (.error e ctx) (.error e ctx')

section Reading

variable {ctx : Context} (hreg : ctx.registry.contains .substring = false)

include hreg

/-- Work on stacks without slices comes to alike outcomes in contexts with different counts. -/
lemma onStacks_alike {f : Stacks → Except EvalError Unit × Stacks} {ops : List Entry}
    {vs : List Value} (hf : ∀ m n, Stacks.Alike (f ⟨ops, ⟨vs, m⟩⟩) (f ⟨ops, ⟨vs, n⟩⟩))
    (hops : ∀ m, NoSlice (f ⟨ops, ⟨vs, m⟩⟩).2.operators) (m n k : Nat) :
    Alike (onStacks f ⟨ops, ⟨vs, m⟩⟩ ctx)
      (onStacks f ⟨ops, ⟨vs, n⟩⟩ { ctx with separators := k }) := by
  obtain ⟨hx, hoperators, hvalues⟩ := hf ctx.separators k
  have hslice := hops ctx.separators
  rw [onStacks, onStacks]
  dsimp only
  cases hm : f ⟨ops, ⟨vs, ctx.separators⟩⟩ with
  | mk x s =>
    cases hn : f ⟨ops, ⟨vs, k⟩⟩ with
    | mk x' s' =>
      rw [hm, hn] at hx hoperators hvalues
      rw [hm] at hslice
      obtain ⟨operators, values, j⟩ := s
      obtain ⟨operators', values', j'⟩ := s'
      dsimp only at hx hoperators hvalues
      subst hx hoperators hvalues
      cases x with
      | ok _ => exact @Alike.value _ _ { ctx with separators := j } j j' j' hslice hreg
      | error e => exact .error e _ _

/-- A token is read alike on stacks without slices, whatever is counted. -/
lemma token_alike {ops : List Entry} (hops : NoSlice ops) (vs : List Value) (t : Text)
    (m n k : Nat) : Alike (token pure ⟨ops, ⟨vs, m⟩⟩ t ctx)
      (token pure ⟨ops, ⟨vs, n⟩⟩ t { ctx with separators := k }) := by
  rw [token_apply, token_apply]
  dsimp only
  cases hop : ctx.registry.lookup? t with
  | none => exact .value m n k hops hreg
  | some op =>
    -- the registry has the operator that it finds, so this is no slice
    have hne : op ≠ .substring := by
      rintro rfl
      rw [(Option.filter_eq_some_iff.1 hop).2] at hreg
      cases hreg
    have hslices (j : Nat) : NoSlice (accept ctx.registry op ⟨ops, ⟨vs, j⟩⟩).2.operators :=
      forall_mem_accept hops fun _ => hne
    exact onStacks_alike hreg (accept_alike op hops vs) hslices m n k

/-- A row of tokens is read alike on stacks without slices, whatever is counted. -/
lemma tokens_alike {ops : List Entry} (hops : NoSlice ops) (vs : List Value) (ts : List Text)
    (m n k : Nat) : Alike (tokens pure ⟨ops, ⟨vs, m⟩⟩ ts ctx)
      (tokens pure ⟨ops, ⟨vs, n⟩⟩ ts { ctx with separators := k }) := by
  induction ts generalizing ops vs m n k ctx with
  | nil => exact .value m n k hops hreg
  | cons t ts ih =>
    have ht := token_alike hreg hops vs t m n k
    rw [tokens, tokens, bind_apply, bind_apply]
    generalize token pure ⟨ops, ⟨vs, m⟩⟩ t ctx = x at ht
    generalize token pure ⟨ops, ⟨vs, n⟩⟩ t { ctx with separators := k } = y at ht
    -- the second evaluation goes on in the context of the first one, but for the count
    cases ht with
    | value m n k hops hreg => exact ih hreg hops _ m n k
    | error e c c' => exact .error e c c'

/-- Without slices the result of an expression, or its error, does not depend on the separators that
were counted before. -/
lemma expression_alike (ts : List Text) (k : Nat) :
    (expression pure ts { ctx with separators := k }).result? =
      (expression pure ts ctx).result? := by
  have hempty : NoSlice [] := fun _ h => absurd h List.not_mem_nil
  have hts := tokens_alike hreg hempty [] ts 0 0 k
  rw [expression, bind_apply, bind_apply, empty]
  generalize tokens pure ⟨[], ⟨[], 0⟩⟩ ts ctx = x at hts
  generalize tokens pure ⟨[], ⟨[], 0⟩⟩ ts { ctx with separators := k } = y at hts
  cases hts with
  | error e c c' => rfl
  | @value ops vs c m n k hops hreg =>
    obtain ⟨hx, _, hvalues⟩ := applyAll_alike hops vs k c.separators
    dsimp only
    rw [bind_apply, bind_apply, onStacks, onStacks]
    dsimp only [drain]
    cases hk : applyAll ops ⟨vs, k⟩ with
    | mk x s =>
      cases hc : applyAll ops ⟨vs, c.separators⟩ with
      | mk x' s' =>
        rw [hk, hc] at hx hvalues
        dsimp only at hx hvalues
        subst hx
        cases x with
        | error e => rfl
        | ok _ =>
          dsimp only
          rw [hvalues]
          cases s'.operands.values with
          | nil => rfl
          | cons v _ => rfl

end Reading

end Eval

end InlineExpr
