import InlineExpr.Proofs.Errors
import InlineExpr.Proofs.Invariants
import InlineExpr.Proofs.ShuntingYard

/-!
# Expressions without a value

Operands and all operators but four leave a value behind when they come off the stacks, and no
operator takes the last value off for good. So an expression that comes to its end without a value
is made of tokens of those four (`Eval.silent_of_tokens`): it fails as an empty expression if it is
one, or if an operand that it asks for fails so (`Eval.silent_or_asks_of_error`).
-/

namespace InlineExpr

/-- The operators that compute nothing. -/
def Operator.silent : List Operator :=
  [question, comma, openParen, closeParen]

/-- The tokens of the operators that compute nothing. -/
def Token.silent : List Text :=
  [['?'], [','], ['('], [')']]

namespace Operator

/-- The silent tokens are those of the silent operators. -/
lemma mem_token_silent {t : Text} : t ∈ Token.silent ↔ ∃ op ∈ silent, op.token = t :=
  List.mem_map (f := token) (l := silent)

/-- The silent operators are those that have nothing to compute. -/
lemma reduction?_eq_none_iff {op : Operator} {count : Nat} :
    op.reduction? count = none ↔ op ∈ silent := by
  cases op <;> simp [reduction?, silent]

/-- Only an operator that computes nothing leaves no value, and then there was none. -/
lemma silent_of_perform {op : Operator} {o o' : Operands} (h : op.perform o = (.ok (), o'))
    (ho' : o'.values = []) : op ∈ silent ∧ o.values = [] := by
  rw [perform] at h
  cases hr : op.reduction? (o.separators + 1) with
  | none =>
    rw [hr] at h
    refine ⟨reduction?_eq_none_iff.1 hr, ?_⟩
    obtain ⟨-, rfl⟩ := Prod.mk.inj h
    split at ho'
    · exact ho'
    · exact ho'
  | some r =>
    rw [hr] at h
    dsimp only at h
    cases hx : r.apply o.values with
    | mk x rest =>
      rw [hx] at h
      cases x with
      | ok v =>
        cases h
        cases ho'
      | error e => cases h

end Operator

namespace Stacks

/-- There is no value on the stacks, and no operator that will leave one. -/
structure Idle (s : Stacks) : Prop where
  operators : Only (· ∈ Operator.silent) s.operators
  values : s.operands.values = []

variable {reg : Registry} {s s' : Stacks}

/-- Idle stacks stay so with another silent operator. -/
lemma Idle.cons {e : Entry} {ops : List Entry} {o : Operands} (he : e.operator ∈ Operator.silent)
    (h : Idle ⟨ops, o⟩) : Idle ⟨e :: ops, o⟩ :=
  ⟨List.forall_mem_cons.2 ⟨he, h.operators⟩, h.values⟩

/-- Stacks that are idle after an operator was performed were so before, and it was silent. -/
lemma idle_of_performThen {go : List Entry → Operands → Except EvalError Unit × Stacks}
    {top : Entry} {ops : List Entry} {o : Operands}
    (hgo : ∀ o, go ops o = (.ok (), s) → Idle ⟨ops, o⟩)
    (h : performThen go top ops o = (.ok (), s)) : Idle ⟨top :: ops, o⟩ := by
  rw [performThen] at h
  cases hx : top.operator.perform o with
  | mk x o' =>
    rw [hx] at h
    cases x with
    | error e => cases h
    | ok _ =>
      obtain ⟨hops, hvalues⟩ := hgo o' h
      obtain ⟨htop, ho⟩ := Operator.silent_of_perform hx hvalues
      exact .cons htop ⟨hops, ho⟩

/-- Stacks that are idle once settled were so before. -/
lemma idle_of_settle {p : Nat} {ops : List Entry} {o : Operands} (hs : s.Idle)
    (h : settle reg p ops o = (.ok (), s)) : Idle ⟨ops, o⟩ := by
  induction ops generalizing o with
  | nil =>
    cases h
    exact hs
  | cons top ops ih =>
    rw [settle] at h
    split at h
    · exact idle_of_performThen (fun _ => ih) h
    · cases h
      exact hs

/-- Stacks without a value at the end were idle before everything came off. -/
lemma idle_of_applyAll {ops : List Entry} {o : Operands} (hs : s.operands.values = [])
    (h : applyAll ops o = (.ok (), s)) : Idle ⟨ops, o⟩ := by
  induction ops generalizing o with
  | nil =>
    cases h
    exact ⟨nofun, hs⟩
  | cons top ops ih => exact idle_of_performThen (fun _ => ih) h

/-- Stacks that are idle after a function fired were so before. -/
lemma idle_of_fire {ops : List Entry} {o : Operands} (hs : s.Idle)
    (h : fire ops o = (.ok (), s)) : Idle ⟨ops, o⟩ := by
  cases ops with
  | nil =>
    cases h
    exact hs
  | cons f ops =>
    rw [fire] at h
    split at h
    · cases hx : f.operator.perform o with
      | mk x o' =>
        rw [hx] at h
        cases h
        obtain ⟨hf, ho⟩ := Operator.silent_of_perform hx hs.values
        exact .cons hf ⟨hs.operators, ho⟩
    · cases h
      exact hs

/-- Stacks that are idle once unwound were so before. -/
lemma idle_of_unwind {nested : Nat} {ops : List Entry} {o : Operands} (hs : s.Idle)
    (h : unwind reg nested ops o = (.ok (), s)) : Idle ⟨ops, o⟩ := by
  induction ops generalizing nested o with
  | nil => cases h
  | cons top ops ih =>
    rw [unwind.eq_def] at h
    dsimp only at h
    split at h
    · rename_i hclose
      exact .cons (by simp [hclose, Operator.silent]) (ih h)
    · split at h
      · rename_i hopen
        have htop : top.operator ∈ Operator.silent := by
          simp only [Registry.owns, Bool.and_eq_true, beq_iff_eq] at hopen
          simp [hopen.1.2, Operator.silent]
        cases nested with
        | zero => exact .cons htop (idle_of_fire hs h)
        | succ nested => exact .cons htop (ih h)
      · exact idle_of_performThen (fun _ => ih) h

/-- An operator that is taken in and leaves the stacks idle computes nothing, and the stacks were
idle before. -/
lemma idle_of_accept {op : Operator} (hs : s'.Idle) (h : accept reg op s = (.ok (), s')) :
    op ∈ Operator.silent ∧ s.Idle := by
  by_cases hop : op = .closeParen
  · rw [accept, if_pos hop, hop] at h
    exact ⟨by simp [hop, Operator.silent], idle_of_unwind hs h⟩
  · obtain ⟨settled, hsettle, rfl⟩ := eq_of_accept hop h
    obtain ⟨hops, hvalues⟩ := hs
    obtain ⟨hop, hops⟩ := List.forall_mem_cons.1 hops
    exact ⟨hop, idle_of_settle ⟨hops, hvalues⟩ hsettle⟩

end Stacks

namespace Eval

open Stacks (Idle)

variable {resolve : Text → Eval Text} {s s' : Stacks} {ctx c : Context}

/-- A token that leaves the stacks idle computes nothing, and the stacks were idle before. -/
lemma silent_of_token {t : Text} (h : token resolve s t ctx = .value s' c) (hs : s'.Idle) :
    t ∈ Token.silent ∧ s.Idle := by
  rw [token_apply] at h
  cases hop : ctx.registry.lookup? t with
  | some op =>
    rw [hop] at h
    have htoken := Operator.ofToken?_eq_some_iff.1 (Option.filter_eq_some_iff.1 hop).1
    obtain ⟨hsilent, hops, hvalues⟩ := Stacks.idle_of_accept hs (eq_of_onStacks h)
    exact ⟨Operator.mem_token_silent.2 ⟨op, hsilent, htoken.symm⟩, hops, hvalues⟩
  | none =>
    rw [hop] at h
    obtain ⟨v, c', -, hpush⟩ := value_of_bind h
    cases hpush
    cases hs.values

/-- Tokens that leave the stacks idle compute nothing. -/
lemma silent_of_tokens {ts : List Text} (h : tokens resolve s ts ctx = .value s' c)
    (hs : s'.Idle) : (∀ t ∈ ts, t ∈ Token.silent) ∧ s.Idle := by
  induction ts generalizing s ctx with
  | nil =>
    cases h
    exact ⟨nofun, hs⟩
  | cons t ts ih =>
    obtain ⟨s₁, c₁, htoken, h⟩ := value_of_bind h
    obtain ⟨hts, hs₁⟩ := ih h
    obtain ⟨ht, hs⟩ := silent_of_token htoken hs₁
    exact ⟨List.forall_mem_cons.2 ⟨ht, hts⟩, hs⟩

/-- An expression that fails as an empty one is made of tokens that compute nothing, or asks for an
operand that fails so. -/
lemma silent_or_asks_of_error {n : Nat} {ts : List Text} {y : Text}
    (h : expression (text n) ts ctx = .error (.emptyExpression y) c) :
    (∀ t ∈ ts, t ∈ Token.silent) ∨
      ∃ u ctx', Asks .empty ts ctx u ctx' ∧ text n u ctx' = .error (.emptyExpression y) c := by
  have hstacks : ¬ EvalError.OfStacks (.emptyExpression y) := by
    rintro (h | h)
    · cases h
    · exact h
  obtain h | ⟨s, c', htokens, h⟩ := error_of_bind h
  · exact .inr (asks_of_tokens_error hstacks h)
  obtain h | ⟨s', c'', hdrain, h⟩ := error_of_bind h
  · obtain ⟨s', -, hs'⟩ := error_of_onStacks h
    exact absurd (.inr (Stacks.applyAll_error hs')) hstacks
  cases hv : s'.operands.values with
  | nil =>
    obtain ⟨hops, hvalues⟩ := Stacks.idle_of_applyAll hv (eq_of_onStacks hdrain)
    exact .inl (silent_of_tokens htokens ⟨hops, hvalues⟩).1
  | cons v vs =>
    rw [hv] at h
    cases h

/-- An operand that is asked for fails as an empty expression. -/
def AsksEmpty (ts : List Text) (ctx : Context) : Prop :=
  ∃ u ctx' y c, Asks .empty ts ctx u ctx' ∧ Ends (text · u) ctx' (.error (.emptyExpression y) c)

/-- What is asked for is no operator. -/
lemma Asks.lookup?_eq_none {ts : List Text} {u : Text} (h : Asks s ts ctx u c) :
    c.registry.lookup? u = none := by
  induction h with
  | here hop => exact hop
  | later _ _ ih => exact ih

/-- Which of the two it is shows in the tokens. -/
lemma silent_iff_of_error {n : Nat} {ts : List Text} {y : Text}
    (hreg : ctx.registry = .standard)
    (h : expression (text n) ts ctx = .error (.emptyExpression y) c) :
    (∀ t ∈ ts, t ∈ Token.silent) ↔ ¬ AsksEmpty ts ctx := by
  constructor
  · rintro hts ⟨u, ctx', y, c, hasks, -⟩
    have hlookup := hasks.lookup?_eq_none
    obtain ⟨op, -, rfl⟩ := Operator.mem_token_silent.1 (hts u hasks.mem)
    rw [hasks.keeps.registry, hreg, lookup?_token] at hlookup
    cases hlookup
  · intro hasks t ht
    obtain hts | ⟨u, ctx', hu, herror⟩ := silent_or_asks_of_error h
    · exact hts t ht
    · exact absurd ⟨u, ctx', y, c, hu, Outcome.error_ne_outOfSteps _ _, n, herror⟩ hasks

end Eval

end InlineExpr
