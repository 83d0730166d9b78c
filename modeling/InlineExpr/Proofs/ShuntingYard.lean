import InlineExpr.Proofs.Frame
import InlineExpr.Proofs.Operands
import InlineExpr.Proofs.Settling

/-!
# Reading tokens onto the stacks

What the tokens of an expression do to the stacks, said so that it may be put together: reading
some tokens and then others (`tokens_append`), an operator that comes in after some tokens
(`tokens_incoming`), the parenthesis that closes a group or a call (`tokens_closing`, `close_group`,
`close_call`). In all of them the operators that the tokens left pending may be performed before,
by settling the stacks, and an operator that is performed takes its own operands
(`finish_performs`).
-/

namespace InlineExpr

namespace Eval

open Stacks

variable {α β : Type}

/-- Tokens in a row are read one part after the other. -/
lemma tokens_append (resolve : Text → Eval Text) (s : Stacks) (ts us : List Text) :
    tokens resolve s (ts ++ us) = tokens resolve s ts >>= fun s => tokens resolve s us := by
  induction ts generalizing s with
  | nil => rfl
  | cons t ts ih =>
    rw [List.cons_append, tokens, tokens, bind_assoc]
    exact congrArg _ (funext ih)

/-- A sequence that needs no evaluation is evaluated part by part. -/
lemma ofExcept_bind (x : Except EvalError α) (f : α → Except EvalError β) :
    ofExcept (x >>= f) = ofExcept x >>= fun a => ofExcept (f a) := by
  cases x with
  | ok a => rfl
  | error e => rfl

/-- The stacks of an expression in which no separator was unwound yet. -/
def stacked (ops : List Entry) (vs : List Value) : Stacks :=
  ⟨ops, ⟨vs, 0⟩⟩

/-- Pushing an operator puts it on top of the stacked ones. -/
lemma stacked_pushOperator (op : Operator) (ops : List Entry) (vs : List Value) :
    (stacked ops vs).pushOperator op = stacked (⟨op, true⟩ :: ops) vs := rfl

section Incoming

variable {resolve : Text → Eval Text} {ctx : Context}

/-- A text that is no operator is none of any registry. -/
lemma lookup?_of_not_operator {t : Text} (h : Operator.ofToken? t = none) (reg : Registry) :
    reg.lookup? t = none := by
  rw [Registry.lookup?, h]
  rfl

/-- The standard registry knows every operator by its token. -/
lemma lookup?_token (op : Operator) : Registry.standard.lookup? op.token = some op := by
  simp [Registry.lookup?]

/-- The token of an operator is taken by the stacks. -/
lemma token_of_operator (hreg : ctx.registry = .standard) (op : Operator) (s : Stacks) :
    token resolve s op.token ctx = onStacks (accept .standard op) s ctx := by
  rw [token_apply, hreg, lookup?_token]

/-- An operator that is not a closing parenthesis is pushed once the stacks are settled for it. -/
lemma token_incoming (hreg : ctx.registry = .standard) {op : Operator} (hop : op ≠ .closeParen)
    (s : Stacks) : token resolve s op.token ctx =
      (finish .standard op.priority s >>= fun s => pure (s.pushOperator op)) ctx := by
  rw [token_of_operator hreg]
  simp only [bind_apply, finish, onStacks, accept, if_neg hop, reduce_eq_settle]
  cases settle .standard op.priority s.operators ⟨s.operands.values, ctx.separators⟩ with
  | mk x s =>
    cases x with
    | ok _ => rfl
    | error e => rfl

end Incoming

/-- What is done to the stacks while no separator is unwound. -/
lemma onStacks_stacked {ctx : Context} (hsep : ctx.separators = 0)
    {f : Stacks → Except EvalError Unit × Stacks} {ops ops' : List Entry} {vs vs' : List Value}
    {x : Except EvalError Unit} (h : f (stacked ops vs) = (x, stacked ops' vs')) :
    onStacks f (stacked ops vs) ctx = (ofExcept x >>= fun _ => pure (stacked ops' vs')) ctx := by
  obtain ⟨table, registry, maxDepth, chain, depth, separators⟩ := ctx
  obtain rfl : separators = 0 := hsep
  rw [stacked] at h
  simp only [onStacks, stacked, h]
  cases x with
  | ok _ => rfl
  | error e => rfl

/-- Settling a stack that waits drops first marks of choices and nothing else. -/
lemma finish_of_waits {reg : Registry} {ctx : Context} (hsep : ctx.separators = 0) {p : Nat}
    {ops : List Entry} (h : Waits reg p ops) (vs : List Value) :
    finish reg p (stacked ops vs) ctx = .value (stacked (ops.dropWhile (binds reg p)) vs) ctx :=
  onStacks_stacked (x := .ok ()) hsep (settle_of_waits h ⟨vs, 0⟩)

/-- Stacks that wait have nothing to settle when no choice can come off. -/
lemma finish_of_waits_two {reg : Registry} {ctx : Context} (hsep : ctx.separators = 0) {p : Nat}
    (hp : 2 ≤ p) {ops : List Entry} (h : Waits reg p ops) (vs : List Value) :
    finish reg p (stacked ops vs) ctx = .value (stacked ops vs) ctx := by
  rw [finish_of_waits hsep h, dropWhile_of_waits hp h]

/-- Settling for what binds tightly may go before settling for what binds loosely. -/
lemma finish_bind_finish {reg : Registry} {p q : Nat} (h : p ≤ q) (s : Stacks) :
    (finish reg q s >>= finish reg p) = finish reg p s := by
  rw [finish, finish, ← onStacks_andThen]
  congr 1
  funext s
  exact settle_andThen_settle h s

/-- An operator on top that binds tightly enough is performed on its own operands. -/
lemma finish_performs {reg : Registry} {ctx : Context} (hsep : ctx.separators = 0) {p : Nat}
    {op : Operator} (own : List Value) (htakes : op.Takes own.length)
    (hkind : op.kind ≠ .function) (hp : binds reg p ⟨op, true⟩ = true) (ops : List Entry)
    (vs : List Value) : finish reg p (stacked (⟨op, true⟩ :: ops) (own.reverse ++ vs)) ctx =
      (ofExcept (op.result own) >>= fun v => finish reg p (stacked ops (v :: vs))) ctx := by
  obtain ⟨table, registry, maxDepth, chain, depth, separators⟩ := ctx
  obtain rfl : separators = 0 := hsep
  obtain ⟨left, hperform⟩ := Operator.perform_own (n := 0) htakes
    (by rintro rfl; exact absurd rfl hkind) vs
  rw [Operator.separatorsAfter, if_neg hkind] at hperform
  simp only [finish, onStacks, stacked]
  rw [settle, if_pos hp]
  simp only [hperform, bind_apply]
  cases op.result own with
  | ok v => rfl
  | error e => rfl

/-- Work on the stacks that succeeds in a context succeeds on the stacks with its count. -/
lemma eq_of_onStacks {f : Stacks → Except EvalError Unit × Stacks} {s s' : Stacks}
    {ctx ctx' : Context} (h : onStacks f s ctx = .value s' ctx') :
    f { s with operands := { s.operands with separators := ctx.separators } } = (.ok (), s') := by
  rw [onStacks] at h
  cases hf : f { s with operands := { s.operands with separators := ctx.separators } } with
  | mk x s₁ =>
    rw [hf] at h
    cases x with
    | ok _ => cases h; rfl
    | error e => cases h

section Stacked

variable {resolve : Text → Eval Text} {P : List Entry → Prop}
  (hP : ∀ (reg : Registry) op (s : Stacks), P s.operators → P (accept reg op s).2.operators)

include hP

/-- What holds of the stacked operators as others are taken in holds when tokens are read. -/
lemma token_stacked {s s' : Stacks} {t : Text} {ctx ctx' : Context}
    (h : token resolve s t ctx = .value s' ctx') (hs : P s.operators) : P s'.operators := by
  rw [token_apply] at h
  cases hop : ctx.registry.lookup? t with
  | some op =>
    rw [hop] at h
    have haccept := hP ctx.registry op ⟨s.operators, ⟨s.operands.values, ctx.separators⟩⟩ hs
    rw [eq_of_onStacks h] at haccept
    exact haccept
  | none =>
    rw [hop] at h
    obtain ⟨v, c, _, h⟩ := value_of_bind h
    cases h
    exact hs

/-- What every operator that is read keeps of the stacked ones is kept by all tokens. -/
lemma tokens_stacked {s s' : Stacks} {ts : List Text} {ctx ctx' : Context}
    (h : tokens resolve s ts ctx = .value s' ctx') (hs : P s.operators) : P s'.operators := by
  induction ts generalizing s ctx with
  | nil =>
    cases h
    exact hs
  | cons t ts ih =>
    obtain ⟨s₁, c, ht, h⟩ := value_of_bind h
    exact ih h (token_stacked hP ht hs)

end Stacked

/-- Reading tokens keeps the registry, and no closing parenthesis comes to be stacked. -/
lemma tokens_value {resolve : Text → Eval Text} (hr : ∀ t, Within Context.Keeps (resolve t))
    {s s' : Stacks} {ts : List Text} {ctx ctx' : Context}
    (h : tokens resolve s ts ctx = .value s' ctx') (hs : NoneClosing s.operators) :
    ctx'.registry = ctx.registry ∧ NoneClosing s'.operators :=
  ⟨((Within.tokens Context.keeps_isFrame hr s ts).of_value h).registry,
    tokens_stacked (fun _ _ _ hs => forall_mem_accept hs id) h hs⟩

section Closing

variable {ctx : Context} (hsep : ctx.separators = 0)

/-- Separators are counted on the way down to the parenthesis that opened the call. -/
lemma unwind_commas (k n : Nat) (ops : List Entry) (vs : List Value) :
    unwind .standard 0 (List.replicate k ⟨.comma, true⟩ ++ ops) ⟨vs, n⟩ =
      unwind .standard 0 ops ⟨vs, n + k⟩ := by
  induction k generalizing n with
  | zero => rfl
  | succ k ih =>
    rw [List.replicate_succ, List.cons_append, Nat.add_comm k 1, ← Nat.add_assoc, ← ih (n + 1)]
    rfl

include hsep

/-- The parenthesis that closes a group leaves the value of the group. -/
lemma close_group {p : Nat} (hp : p ≤ 6) {ops : List Entry} (h : Waits .standard p ops)
    (vs : List Value) :
    onStacks (accept .standard .closeParen) (stacked (⟨.openParen, true⟩ :: ops) vs) ctx =
      .value (stacked ops vs) ctx :=
  onStacks_stacked (x := .ok ()) hsep (fire_of_waits hp h ⟨vs, 0⟩)

/-- The parenthesis that closes a call counts the separators of the call, and the function takes
as many arguments. -/
lemma close_call {f : Operator} (hf : f.kind = .function) {own : List Value}
    (htakes : f.Takes own.length) {k : Nat} (hk : k + 1 = own.length) (ops : List Entry)
    (vs : List Value) :
    onStacks (accept .standard .closeParen)
        (stacked (List.replicate k ⟨.comma, true⟩ ++ ⟨.openParen, true⟩ :: ⟨f, true⟩ :: ops)
          (own.reverse ++ vs)) ctx =
      (ofExcept (f.result own) >>= fun v => pure (stacked ops (v :: vs))) ctx := by
  -- between the arguments stand one separator fewer than there are arguments
  obtain ⟨left, hperform⟩ := Operator.perform_own (n := k) htakes (fun _ => hk) vs
  rw [Operator.separatorsAfter, if_pos hf] at hperform
  have hunwind : accept .standard .closeParen
      (stacked (List.replicate k ⟨.comma, true⟩ ++ ⟨.openParen, true⟩ :: ⟨f, true⟩ :: ops)
        (own.reverse ++ vs)) = fire (⟨f, true⟩ :: ops) ⟨own.reverse ++ vs, k⟩ := by
    change unwind .standard 0 (_ ++ _) ⟨own.reverse ++ vs, 0⟩ = _
    rw [unwind_commas, Nat.zero_add]
    rfl
  rw [fire, if_pos hf, hperform] at hunwind
  cases hx : f.result own with
  | ok v =>
    rw [hx] at hunwind
    exact onStacks_stacked hsep hunwind
  | error e =>
    rw [hx] at hunwind
    exact onStacks_stacked (x := .error e) hsep hunwind

end Closing

section Tokens

variable {resolve : Text → Eval Text} {ctx : Context}

/-- A computation that is a value and then settled stacks goes on from these. -/
lemma bind_of_settled {x : Eval Stacks} {y : Except EvalError α} {f : α → Eval Stacks}
    {s : α → Stacks} (h : x ctx = (ofExcept y >>= f) ctx) (hf : ∀ a, f a ctx = .value (s a) ctx)
    (go : Stacks → Eval β) : (x >>= go) ctx = (ofExcept y >>= fun a => go (s a)) ctx := by
  rw [bind_apply, h]
  cases y with
  | ok a =>
    rw [ofExcept_ok_bind, ofExcept_ok_bind, hf a]
  | error e => rfl

/-- What follows a value matters only at that value. -/
lemma ofExcept_bind_congr {x : Except EvalError α} {f g : α → Eval β}
    (h : ∀ a, x = .ok a → f a ctx = g a ctx) : (ofExcept x >>= f) ctx = (ofExcept x >>= g) ctx := by
  cases x with
  | ok a => exact h a rfl
  | error e => rfl

/-- A closing parenthesis may find the stacks settled. -/
lemma finish_bind_closing {reg : Registry} (p : Nat) {s : Stacks} (hs : NoneClosing s.operators) :
    (finish reg p s >>= onStacks (accept reg .closeParen)) =
      onStacks (accept reg .closeParen) s := by
  rw [finish, ← onStacks_andThen]
  funext ctx
  have hclose := @settle_andThen_close reg p
    ⟨s.operators, ⟨s.operands.values, ctx.separators⟩⟩ hs
  simp only [onStacks, hclose]

/-- An operator among the tokens comes in once the stacks are settled for it. -/
lemma tokens_cons_incoming (hreg : ctx.registry = .standard) {op : Operator}
    (hop : op ≠ .closeParen) (s : Stacks) (us : List Text) (go : Stacks → Eval β) :
    (tokens resolve s (op.token :: us) >>= go) ctx =
      (finish .standard op.priority s >>= fun s =>
        tokens resolve (s.pushOperator op) us >>= go) ctx := by
  rw [tokens, bind_assoc, bind_apply, token_incoming hreg hop, ← bind_apply, bind_assoc]
  rfl

/-- On stacks that wait for it, an operator that is no mark of a choice is pushed at once. -/
lemma tokens_pushing (hreg : ctx.registry = .standard) (hsep : ctx.separators = 0) {op : Operator}
    (hop : op ≠ .closeParen) (hpriority : 2 ≤ op.priority) {ops : List Entry}
    (hwaits : Waits .standard op.priority ops) (vs : List Value) (us : List Text)
    (go : Stacks → Eval β) : (tokens resolve (stacked ops vs) (op.token :: us) >>= go) ctx =
      (tokens resolve (stacked (⟨op, true⟩ :: ops) vs) us >>= go) ctx := by
  rw [tokens_cons_incoming hreg hop,
    bind_of_value (finish_of_waits_two hsep hpriority hwaits vs)]
  rfl

section Keeping

variable (hr : ∀ t, Within Context.Keeps (resolve t)) (hreg : ctx.registry = .standard)

include hr hreg

/-- After some tokens an operator comes in, and the stacks may be settled before, more strongly
than it asks for. -/
lemma tokens_incoming {op : Operator} (hop : op ≠ .closeParen) {p q : Nat} (hq : op.priority = q)
    (hp : q ≤ p) {s : Stacks} (hs : NoneClosing s.operators) (ts us : List Text)
    (go : Stacks → Eval β) : (tokens resolve s (ts ++ op.token :: us) >>= go) ctx =
      ((tokens resolve s ts >>= finish .standard p) >>= fun s => finish .standard q s >>= fun s =>
        tokens resolve (s.pushOperator op) us >>= go) ctx := by
  subst hq
  rw [tokens_append, bind_assoc, bind_assoc]
  -- the registry is known to be the same only where the tokens were read to their end
  apply bind_congr_of_value
  intro s' ctx' hv
  obtain ⟨hreg', _⟩ := tokens_value hr hv hs
  rw [← bind_assoc, finish_bind_finish hp, tokens_cons_incoming (hreg'.trans hreg) hop]

/-- After some tokens a parenthesis closes, and the stacks may be settled before. -/
lemma tokens_closing (p : Nat) {s : Stacks} (hs : NoneClosing s.operators) (ts : List Text)
    (go : Stacks → Eval β) :
    (tokens resolve s (ts ++ [Operator.closeParen.token]) >>= go) ctx =
      ((tokens resolve s ts >>= finish .standard p) >>= fun s =>
        onStacks (accept .standard .closeParen) s >>= go) ctx := by
  rw [tokens_append, bind_assoc, bind_assoc]
  apply bind_congr_of_value
  intro s' ctx' hv
  obtain ⟨hreg', hs'⟩ := tokens_value hr hv hs
  rw [← bind_assoc, finish_bind_closing p hs', tokens, bind_assoc, bind_apply,
    token_of_operator (hreg'.trans hreg), ← bind_apply]
  rfl

end Keeping

end Tokens

end Eval

end InlineExpr
