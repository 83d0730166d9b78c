import InlineExpr.Proofs.Frame
import InlineExpr.Proofs.Settling

/-!
# Invariants of evaluations

Partial correctness with an invariant of the context (`Eval.Ensures`): an evaluation that begins
with the invariant keeps it, whether it ends with a result or an error, and its result has the
property in question. What every operator keeps of the values is kept by whole expressions, if the
operands are resolved to such values (`Ensures.expression`).
-/

namespace InlineExpr

namespace Stacks

/-- The stacked operators are of certain ones only. -/
def Only (A : Operator → Prop) (ops : List Entry) : Prop :=
  ∀ e ∈ ops, A e.operator

/-- What holds of all stacked operators holds of those below the topmost. -/
lemma Only.tail {A : Operator → Prop} {top : Entry} {ops : List Entry} (h : Only A (top :: ops)) :
    Only A ops :=
  fun e he => h e (.tail _ he)

variable {A : Operator → Prop} {I : Operands → Prop}

/-- Performing one operator and going on keeps what both of these keep. -/
lemma performThen_keeps {go : List Entry → Operands → Except EvalError Unit × Stacks}
    {top : Entry} {ops : List Entry} {o : Operands} (htop : I (top.operator.perform o).2)
    (hgo : ∀ {o}, I o → I (go ops o).2.operands) : I (performThen go top ops o).2.operands := by
  rw [performThen]
  cases hx : top.operator.perform o with
  | mk x o' =>
    rw [hx] at htop
    cases x with
    | ok _ => exact hgo htop
    | error e => exact htop

variable (hI : ∀ (op : Operator) o, A op → I o → I (op.perform o).2)

include hI

/-- Settling keeps what the operators keep that may come off. -/
lemma settle_keeps {reg : Registry} (p : Nat) {ops : List Entry} (hops : Only A ops) {o : Operands}
    (h : I o) : I (settle reg p ops o).2.operands := by
  induction ops generalizing o with
  | nil => exact h
  | cons top ops ih =>
    rw [settle]
    split
    · exact performThen_keeps (hI _ o (hops top (.head _)) h) (ih hops.tail)
    · exact h

/-- Performing all that is left keeps what the operators keep. -/
lemma applyAll_keeps {ops : List Entry} (hops : Only A ops) {o : Operands} (h : I o) :
    I (applyAll ops o).2.operands := by
  induction ops generalizing o with
  | nil => exact h
  | cons top ops ih => exact performThen_keeps (hI _ o (hops top (.head _)) h) (ih hops.tail)

/-- Firing a function keeps what the operators keep. -/
lemma fire_keeps {ops : List Entry} (hops : Only A ops) {o : Operands} (h : I o) :
    I (fire ops o).2.operands := by
  cases ops with
  | nil => exact h
  | cons f ops =>
    rw [fire]
    split
    · exact hI f.operator o (hops f (.head _)) h
    · exact h

/-- Unwinding a group keeps what the operators in it keep. -/
lemma unwind_keeps {reg : Registry} (nested : Nat) {ops : List Entry} (hops : Only A ops)
    {o : Operands} (h : I o) : I (unwind reg nested ops o).2.operands := by
  induction ops generalizing nested o with
  | nil => exact h
  | cons top ops ih =>
    rw [unwind.eq_def]
    dsimp only
    split
    · exact ih _ hops.tail h
    · split
      · cases nested with
        | zero => exact fire_keeps hI hops.tail h
        | succ nested => exact ih nested hops.tail h
      · exact performThen_keeps (hI _ o (hops top (.head _)) h) (ih nested hops.tail)

/-- What the stacked operators keep of the operands is kept when an operator is taken in. -/
lemma accept_keeps {reg : Registry} (op : Operator) {s : Stacks} (hops : Only A s.operators)
    (h : I s.operands) : I (accept reg op s).2.operands := by
  by_cases hop : op = .closeParen
  · rw [accept, if_pos hop, hop]
    exact unwind_keeps hI 0 hops h
  · have hsettle := @settle_keeps A I hI reg op.priority s.operators hops s.operands h
    obtain hleaves | ⟨settled, hsettled, hleaves⟩ := accept_leaves reg hop s
    · rwa [hleaves]
    · rw [hsettled] at hsettle
      rwa [hleaves]

/-- The end of an expression keeps what its operators keep. -/
lemma drain_keeps {s : Stacks} (hops : Only A s.operators) (h : I s.operands) :
    I (drain s).2.operands :=
  applyAll_keeps hI hops h

end Stacks

/-- An evaluation ended in a context with the invariant, and its result has the property. -/
def Outcome.Upholds {α : Type} (I : Context → Prop) (Q : α → Prop) : Outcome α → Prop
  | .value a ctx => I ctx ∧ Q a
  | .error _ ctx => I ctx
  | .outOfSteps => True

/-- Wherever the evaluation ended, the invariant holds. -/
lemma Outcome.Upholds.of_context? {α : Type} {I : Context → Prop} {Q : α → Prop} {o : Outcome α}
    {c : Context} (h : o.Upholds I Q) (hc : o.context? = some c) : I c := by
  cases o with
  | value a d =>
    cases hc
    exact h.1
  | error e d =>
    cases hc
    exact h
  | outOfSteps => cases hc

namespace Eval

variable {α β : Type} {I : Table → Prop} {P : Value → Prop} {Q : α → Prop}

section Contexts

variable {ctx : Context} {J : Context → Prop}

/-- An invariant is upheld by going on with a result if it is upheld by both parts. -/
lemma upholds_bind {R : β → Prop} {x : Eval α} {f : α → Eval β} (hx : (x ctx).Upholds J Q)
    (hf : ∀ a c, x ctx = .value a c → J c → Q a → (f a c).Upholds J R) :
    ((x >>= f) ctx).Upholds J R := by
  rw [bind_apply]
  cases hc : x ctx with
  | value a c =>
    rw [hc] at hx
    exact hf a c hc hx.1 hx.2
  | error e c =>
    rw [hc] at hx
    exact hx
  | outOfSteps => trivial

/-- An invariant is upheld by the resolution of a constant if it is upheld by that of its value, and
kept when the constant is left and when it takes in the text that was found. -/
lemma upholds_constant {R : Text → Prop} {resolve : Text → Eval Text} {name : Text} (hctx : J ctx)
    (hr : ∀ value, ctx.table.get? name = some value →
      (resolve value (ctx.entered name)).Upholds J R)
    (hleave : ∀ c, J c → J c.leave) (hdefine : ∀ c v, J c → R v → J (c.define name v)) :
    (constant resolve name ctx).Upholds J R := by
  cases hvalue : ctx.table.get? name with
  | none =>
    rw [constant_of_missing hvalue]
    exact hctx
  | some value =>
    cases henter : ctx.enter name with
    | error e =>
      rw [constant_of_refused hvalue henter]
      exact hctx
    | ok inner =>
      obtain ⟨-, -, rfl⟩ := Context.eq_of_enter henter
      have hx := hr value hvalue
      rw [constant_of_entered hvalue henter]
      cases hc : resolve value (ctx.entered name) with
      | value v c =>
        rw [hc] at hx
        exact ⟨hdefine _ v (hleave c hx.1) hx.2, hx.2⟩
      | error e c =>
        rw [hc] at hx
        exact hleave c hx
      | outOfSteps => trivial

end Contexts

/-- On a table with the invariant the evaluation keeps the invariant, and a result has the
property. -/
def Ensures (I : Table → Prop) (x : Eval α) (Q : α → Prop) : Prop :=
  ∀ ctx : Context, I ctx.table → (x ctx).Upholds (I ·.table) Q

/-- A value with the property is ensured to have it at once. -/
lemma Ensures.pure {a : α} (h : Q a) : Ensures I (pure a) Q :=
  fun _ hctx => ⟨hctx, h⟩

/-- An error at once changes nothing. -/
lemma Ensures.fail (e : EvalError) : Ensures I (fail e) Q :=
  fun _ hctx => hctx

/-- With no steps left nothing is changed. -/
lemma Ensures.exhausted : Ensures I exhausted Q :=
  fun _ _ => trivial

/-- A result has every property that follows. -/
lemma Ensures.weaken {R : α → Prop} {x : Eval α} (h : Ensures I x Q) (hQ : ∀ a, Q a → R a) :
    Ensures I x R := by
  intro ctx hctx
  have hx := h ctx hctx
  cases hc : x ctx with
  | value a c =>
    rw [hc] at hx
    exact ⟨hx.1, hQ a hx.2⟩
  | error e c =>
    rw [hc] at hx
    exact hx
  | outOfSteps => trivial

/-- A sequence ensures what its second part does after values of the first. -/
lemma Ensures.bind {R : β → Prop} {x : Eval α} {f : α → Eval β} (hx : Ensures I x Q)
    (hf : ∀ a, Q a → Ensures I (f a) R) : Ensures I (x >>= f) R :=
  fun ctx hctx => upholds_bind (hx ctx hctx) fun a c _ hc ha => hf a ha c hc

/-- Renaming the errors of an evaluation ensures the same. -/
lemma Ensures.mapError {x : Eval α} (h : Ensures I x Q) (f : EvalError → EvalError) :
    Ensures I (mapError f x) Q := by
  intro ctx hctx
  have hx := h ctx hctx
  rw [Eval.mapError]
  cases hc : x ctx with
  | value a c => rwa [hc] at hx
  | error e c => rwa [hc] at hx
  | outOfSteps => trivial

/-- Work on the stacks changes no table, and its values have the property if they have it whatever
is counted. -/
lemma Ensures.onStacks {f : Stacks → Except EvalError Unit × Stacks} {s : Stacks}
    (h : ∀ n, ∀ v ∈ (f { s with operands := ⟨s.operands.values, n⟩ }).2.operands.values, P v) :
    Ensures I (onStacks f s) fun s => ∀ v ∈ s.operands.values, P v := by
  intro ctx hctx
  have hs := h ctx.separators
  rw [Eval.onStacks]
  cases hf : f { s with operands := ⟨s.operands.values, ctx.separators⟩ } with
  | mk x s' =>
    rw [hf] at hs
    cases x with
    | ok _ => exact ⟨hctx, hs⟩
    | error e => exact hctx

section Expressions

variable {resolve : Text → Eval Text}
  (hP : ∀ (op : Operator) o, (∀ v ∈ o.values, P v) → ∀ v ∈ (op.perform o).2.values, P v)

include hP

/-- An operator that is read keeps what all operators keep of the values. -/
lemma accept_values {reg : Registry} (op : Operator) {s : Stacks}
    (h : ∀ v ∈ s.operands.values, P v) :
    ∀ v ∈ (Stacks.accept reg op s).2.operands.values, P v := by
  have hperform : ∀ (op : Operator) o, True → (∀ v ∈ o.values, P v) →
      ∀ v ∈ (op.perform o).2.values, P v := fun op o _ => hP op o
  exact Stacks.accept_keeps hperform op (fun _ _ => trivial) h

/-- The end of an expression keeps what all operators keep of the values. -/
lemma drain_values {s : Stacks} (h : ∀ v ∈ s.operands.values, P v) :
    ∀ v ∈ (Stacks.drain s).2.operands.values, P v := by
  have hperform : ∀ (op : Operator) o, True → (∀ v ∈ o.values, P v) →
      ∀ v ∈ (op.perform o).2.values, P v := fun op o _ => hP op o
  exact Stacks.drain_keeps hperform (fun _ _ => trivial) h

/-- The values keep the property when a token is read that is resolved to a text with it. -/
lemma Ensures.token {s : Stacks} {t : Text} (hs : ∀ v ∈ s.operands.values, P v)
    (hr : Ensures I (resolve t) fun v => P (.text v)) :
    Ensures I (token resolve s t) fun s => ∀ v ∈ s.operands.values, P v := by
  intro ctx hctx
  rw [token_apply]
  cases ctx.registry.lookup? t with
  | some op => exact Ensures.onStacks (fun n => accept_values hP op hs) ctx hctx
  | none =>
    refine Ensures.bind hr (fun v hv => .pure ?_) ctx hctx
    intro w hw
    cases hw with
    | head => exact hv
    | tail _ hw => exact hs w hw

/-- The values keep the property while tokens are read that are resolved to texts with it. -/
lemma Ensures.tokens {ts : List Text} (hr : ∀ t ∈ ts, Ensures I (resolve t) fun v => P (.text v))
    {s : Stacks} (hs : ∀ v ∈ s.operands.values, P v) :
    Ensures I (tokens resolve s ts) fun s => ∀ v ∈ s.operands.values, P v := by
  induction ts generalizing s with
  | nil => exact .pure hs
  | cons t ts ih =>
    apply Ensures.bind (.token hP hs (hr t (.head _)))
    intro s' hs'
    exact ih (fun t ht => hr t (.tail _ ht)) hs'

/-- An expression results in the text of a value with the property. -/
lemma Ensures.expression {ts : List Text}
    (hr : ∀ t ∈ ts, Ensures I (resolve t) fun v => P (.text v)) :
    Ensures I (expression resolve ts) fun t => ∃ v, P v ∧ t = v.asText := by
  have hempty : ∀ v ∈ Stacks.empty.operands.values, P v := fun _ h => absurd h List.not_mem_nil
  apply Ensures.bind (.tokens hP hr hempty)
  intro s hs
  apply Ensures.bind (.onStacks fun n => drain_values hP hs)
  intro s hs
  cases hv : s.operands.values with
  | nil => exact .fail _
  | cons v _ => exact .pure ⟨v, hs v (by rw [hv]; exact .head _), rfl⟩

/-- A span is replaced by the text of a value with the property. -/
lemma Ensures.span {body : Text}
    (hr : ∀ t ∈ tokenize body, Ensures I (resolve t) fun v => P (.text v)) :
    Ensures I (span resolve body) fun t => ∃ v, P v ∧ t = v.asText :=
  .mapError (.expression hP hr) _

end Expressions

/-- A constant is resolved to a text with the property if its value is, and the table may take that
text in. -/
lemma Ensures.constant {R : Text → Prop} {resolve : Text → Eval Text} (name : Text)
    (hr : ∀ t table, I table → table.get? name = some t → Ensures I (resolve t) R)
    (hinsert : ∀ table v, I table → R v → I (table.insert name v)) :
    Ensures I (constant resolve name) R :=
  -- entering and leaving touch the chain alone
  fun ctx hctx => upholds_constant hctx
    (fun value hvalue => hr value ctx.table hctx hvalue (ctx.entered name) hctx)
    (fun _ hc => hc) fun c v hc hv => hinsert c.table v hc hv

end Eval

end InlineExpr
