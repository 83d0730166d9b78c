import InlineExpr.Proofs.Errors
import InlineExpr.Proofs.Layouts
import InlineExpr.Proofs.ShuntingYard

/-!
# Which parentheses close

While an expression is read, the opening parentheses on the stack are those that were read and not
closed (`Eval.tokens_over`), and nothing that is read inside a group touches what stands below it.
So a closing parenthesis finds none exactly if more have been closed than opened. At the end of the
expression the groups that are left open are performed in the order in which closing parentheses
would have performed them (`Stacks.close_andThen_drain`): whether these are written or not makes no
difference (`Request.balance_decides_closing`).
-/

namespace InlineExpr

/-- The outcomes are the same, but an expression without a value may be named by another text. -/
inductive Outcome.SameButForName : Outcome Text → Outcome Text → Prop
  | refl (o) : SameButForName o o
  | empty (t u ctx) :
    SameButForName (.error (.emptyExpression t) ctx) (.error (.emptyExpression u) ctx)

namespace Token

/-- How many parentheses the tokens open. -/
def openings (ts : List Text) : Nat :=
  ts.count Operator.openParen.token

/-- How many parentheses the tokens close. -/
def closings (ts : List Text) : Nat :=
  ts.count Operator.closeParen.token

/-- Inside of `depth` groups, the tokens at no point have closed a group that is not open. -/
def Nested (depth : Nat) (ts : List Text) : Prop :=
  ∀ us, us <+: ts → closings us ≤ depth + openings us

variable {t : Text} {ts : List Text} {depth : Nat}

/-- A row of tokens opens what its first token opens and what the others do. -/
lemma openings_cons (t : Text) (ts : List Text) :
    openings (t :: ts) = openings [t] + openings ts := by
  rw [← List.singleton_append, openings, List.count_append]
  rfl

/-- A row of tokens closes what its first token closes and what the others do. -/
lemma closings_cons (t : Text) (ts : List Text) :
    closings (t :: ts) = closings [t] + closings ts := by
  rw [← List.singleton_append, closings, List.count_append]
  rfl

/-- Of the operators, only the opening parenthesis opens a group. -/
lemma openings_token (op : Operator) :
    openings [op.token] = if op = .openParen then 1 else 0 := by
  cases op <;> decide

/-- Of the operators, only the closing parenthesis closes a group. -/
lemma closings_token (op : Operator) :
    closings [op.token] = if op = .closeParen then 1 else 0 := by
  cases op <;> decide

/-- No tokens close no group. -/
lemma nested_nil (depth : Nat) : Nested depth [] := by
  intro us hus
  rw [List.prefix_nil.1 hus]
  exact Nat.zero_le _

/-- An operand neither opens nor closes a group. -/
lemma not_parenthesis_of_operand (h : Operator.ofToken? t = none) :
    openings [t] = 0 ∧ closings [t] = 0 := by
  have hne (op : Operator) : op.token ∉ [t] := by
    rintro hm
    obtain rfl := List.mem_singleton.1 hm
    simp at h
  exact ⟨List.count_eq_zero.2 (hne .openParen), List.count_eq_zero.2 (hne .closeParen)⟩

/-- Only a closing parenthesis closes a group, and only one. -/
lemma eq_closeParen_of_lt (h : depth + openings [t] < closings [t]) :
    t = Operator.closeParen.token ∧ depth = 0 := by
  cases hop : Operator.ofToken? t with
  | none =>
    obtain ⟨-, hclosings⟩ := not_parenthesis_of_operand hop
    omega
  | some op =>
    obtain rfl := Operator.ofToken?_eq_some_iff.1 hop
    rw [closings_token] at h
    split at h
    · rename_i hclose
      exact ⟨congrArg Operator.token hclose, by omega⟩
    · omega

/-- The first token closes an open group at most, and the others are nested in the groups that it
leaves open. -/
lemma nested_cons_iff : Nested depth (t :: ts) ↔ closings [t] ≤ depth + openings [t] ∧
    Nested (depth + openings [t] - closings [t]) ts := by
  constructor
  · intro h
    have ht := h [t] (List.prefix_append [t] ts)
    refine ⟨ht, fun us hus => ?_⟩
    have hcons := h (t :: us) ((List.prefix_cons_inj t).2 hus)
    rw [openings_cons, closings_cons] at hcons
    omega
  · rintro ⟨ht, hts⟩ us hus
    obtain rfl | ⟨vs, rfl, hvs⟩ := List.prefix_cons_iff.1 hus
    · exact Nat.zero_le _
    · have hrest := hts vs hvs
      rw [openings_cons, closings_cons]
      omega

instance decidableNested : (depth : Nat) → (ts : List Text) → Decidable (Nested depth ts)
  | depth, [] => .isTrue (nested_nil depth)
  | depth, t :: ts =>
    have := decidableNested (depth + openings [t] - closings [t]) ts
    decidable_of_iff _ nested_cons_iff.symm

end Token

open Token

namespace Stacks

/-- The operators on the stacks of an expression: those of the registry but no closing
parentheses. -/
def Regular (ops : List Entry) : Prop :=
  ∀ e ∈ ops, e.own = true ∧ e.operator ≠ .closeParen

/-- How many opening parentheses are stacked. -/
def opened (ops : List Entry) : Nat :=
  ops.countP (·.operator == .openParen)

/-- Operators that no operator reaches which comes in above them: there is none, or the topmost one
opens a group. -/
inductive Sealed : List Entry → Prop
  | nil : Sealed []
  | group (ops) : Sealed (⟨.openParen, true⟩ :: ops)

variable {top : Entry} {ops base : List Entry}

/-- Below the topmost operator of a regular stack, the stack is regular. -/
lemma Regular.tail (h : Regular (top :: ops)) : Regular ops :=
  fun e he => h e (.tail _ he)

/-- What is left of a regular stack from below is regular. -/
lemma Regular.of_suffix {left : List Entry} (h : Regular ops) (hleft : left <:+ ops) :
    Regular left :=
  fun e he => h e (hleft.subset he)

/-- The registry knows a stacked operator by its name alone when the stack is regular. -/
lemma Regular.owns (h : Regular (top :: ops)) (op : Operator) :
    Registry.standard.owns top op = (top.operator == op) := by
  simp [Registry.owns, (h top (.head _)).1]

/-- An opening parenthesis on top is one more that is open. -/
lemma opened_cons_of_eq (h : top.operator = .openParen) (ops : List Entry) :
    opened (top :: ops) = opened ops + 1 :=
  List.countP_cons_of_pos (by simp [h])

/-- Any other operator on top opens nothing. -/
lemma opened_cons_of_ne (h : top.operator ≠ .openParen) (ops : List Entry) :
    opened (top :: ops) = opened ops :=
  List.countP_cons_of_neg (by simp [h])

/-- Nothing is performed on sealed operators when a new one settles above them. -/
lemma Sealed.settle (h : Sealed base) (p : Nat) (o : Operands) :
    settle .standard p base o = (.ok (), ⟨base, o⟩) := by
  cases h with
  | nil => rfl
  | group ops =>
    rw [Stacks.settle, if_neg (not_binds_openParen p)]

/-- No function fires on sealed operators. -/
lemma Sealed.fire (h : Sealed base) (o : Operands) : fire base o = (.ok (), ⟨base, o⟩) := by
  cases h with
  | nil => rfl
  | group ops => rfl

/-- On top of `base` a part of `ops` is left, in which `n` groups are open unless there is an
error. -/
def Leaves (base ops : List Entry) (n : Nat) (r : Except EvalError Unit × Stacks) : Prop :=
  ∃ left, left <:+ ops ∧ r.2.operators = left ++ base ∧ (r.1 = .ok () → opened left = n)

/-- What is left of some operators is left of them with one more on top. -/
lemma Leaves.cons {n : Nat} {r : Except EvalError Unit × Stacks} (h : Leaves base ops n r)
    (top : Entry) : Leaves base (top :: ops) n r := by
  obtain ⟨left, hleft, hoperators, hopened⟩ := h
  exact ⟨left, hleft.trans (List.suffix_cons top ops), hoperators, hopened⟩

/-- If a part of the operators is left by what is done with them, so it is when one above them is
performed first. -/
lemma Leaves.performThen {go : List Entry → Operands → Except EvalError Unit × Stacks} {n : Nat}
    (hgo : ∀ o, Leaves base ops n (go (ops ++ base) o)) (top : Entry) (o : Operands) :
    Leaves base (top :: ops) n (performThen go top (ops ++ base) o) := by
  rw [Stacks.performThen]
  cases top.operator.perform o with
  | mk x o =>
    cases x with
    | ok _ => exact (hgo o).cons top
    | error e =>
      refine ⟨ops, List.suffix_cons top ops, rfl, fun h => ?_⟩
      cases h

/-- Settling the stacks takes no opening parenthesis off, and nothing from below. -/
lemma settle_over (hbase : Sealed base) (p : Nat) (hops : Regular ops) (o : Operands) :
    Leaves base ops (opened ops) (settle .standard p (ops ++ base) o) := by
  induction ops generalizing o with
  | nil =>
    rw [List.nil_append, hbase.settle]
    exact ⟨[], List.suffix_refl _, rfl, fun _ => rfl⟩
  | cons top ops ih =>
    rw [List.cons_append, settle]
    split
    · have htop : top.operator ≠ .openParen := by
        intro htop
        simp_all [binds, hops.owns]
      rw [opened_cons_of_ne htop]
      exact .performThen (ih hops.tail) top o
    · exact ⟨top :: ops, List.suffix_refl _, rfl, fun _ => rfl⟩

/-- A function that is performed for the sake of its parenthesis is all that comes off. -/
lemma fire_over (hbase : Sealed base) (ops : List Entry) (o : Operands) :
    Leaves base ops (opened ops) (fire (ops ++ base) o) := by
  cases ops with
  | nil =>
    rw [List.nil_append, hbase.fire]
    exact ⟨[], List.suffix_refl _, rfl, fun _ => rfl⟩
  | cons f ops =>
    rw [List.cons_append, fire]
    split
    · have hf : f.operator ≠ .openParen := by
        intro hf
        simp_all [Operator.kind]
      exact ⟨ops, List.suffix_cons f ops, rfl, fun _ => (opened_cons_of_ne hf ops).symm⟩
    · exact ⟨f :: ops, List.suffix_refl _, rfl, fun _ => rfl⟩

/-- Unwinding stops at an opening parenthesis and performs any other operator it meets. -/
lemma unwind_cons (h : top.own = true ∧ top.operator ≠ .closeParen) (ops : List Entry)
    (o : Operands) : unwind .standard 0 (top :: ops) o =
      if top.operator = .openParen then fire ops o
      else performThen (unwind .standard 0) top ops o := by
  rw [unwind, if_neg h.2]
  by_cases htop : top.operator = .openParen
  · simp [Registry.owns, h.1, htop]
  · simp only [Registry.owns, h.1, htop, beq_eq_false_iff_ne.2 htop]
    rfl

/-- A closing parenthesis takes one opening parenthesis off if there is one, and nothing from
below. -/
lemma unwind_over (hbase : Sealed base) (hops : Regular ops) (hopen : 0 < opened ops)
    (o : Operands) : Leaves base ops (opened ops - 1) (unwind .standard 0 (ops ++ base) o) := by
  induction ops generalizing o with
  | nil => cases hopen
  | cons top ops ih =>
    rw [List.cons_append, unwind_cons (hops top (.head _))]
    split
    · rename_i htop
      rw [opened_cons_of_eq htop, Nat.add_sub_cancel]
      exact (fire_over hbase ops o).cons top
    · rename_i htop
      rw [opened_cons_of_ne htop] at hopen ⊢
      exact .performThen (ih hops.tail hopen) top o

/-- Where no group is open, a closing parenthesis fails. -/
lemma unwind_of_opened_eq_zero (hops : Regular ops) (hopen : opened ops = 0) (o : Operands) :
    (unwind .standard 0 ops o).1 ≠ .ok () := by
  induction ops generalizing o with
  | nil =>
    intro h
    cases h
  | cons top ops ih =>
    rw [unwind_cons (hops top (.head _))]
    split
    · rename_i htop
      rw [opened_cons_of_eq htop] at hopen
      cases hopen
    · rename_i htop
      rw [opened_cons_of_ne htop] at hopen
      rw [performThen]
      cases top.operator.perform o with
      | mk x o =>
        cases x with
        | ok _ => exact ih hops.tail hopen o
        | error e =>
          intro h
          cases h

/-- Where a group is open, a closing parenthesis fails as an operator does, if at all. -/
lemma unwind_error_of_opened (hops : Regular ops) (hopen : 0 < opened ops) {o : Operands}
    {e : EvalError} (h : (unwind .standard 0 ops o).1 = .error e) : e.OfOperator := by
  induction ops generalizing o with
  | nil => cases hopen
  | cons top ops ih =>
    rw [unwind_cons (hops top (.head _))] at h
    split at h
    · exact fire_error h
    · rename_i htop
      rw [opened_cons_of_ne htop] at hopen
      exact performThen_error id (fun _ => ih hops.tail hopen) h

/-- An operator that finds the group open which it closes fails as operators do, if at all. -/
lemma accept_error_of_opened {op : Operator} {s : Stacks} (hs : Regular s.operators)
    (hclose : closings [op.token] ≤ opened s.operators + openings [op.token]) {e : EvalError}
    (h : (accept .standard op s).1 = .error e) : e.OfOperator := by
  by_cases hop : op = .closeParen
  · subst hop
    exact unwind_error_of_opened hs hclose h
  · exact accept_error_of_ne hop h

/-- A function whose parenthesis is closed would be the next operator at the end of the expression
as well. -/
lemma fire_andThen_drain (ops : List Entry) (o : Operands) :
    andThen (fun s => fire s.operators s.operands) drain ⟨ops, o⟩ = applyAll ops o := by
  rw [andThen]
  cases ops with
  | nil => rfl
  | cons f ops =>
    rw [fire, applyAll]
    by_cases hf : f.operator.kind = .function
    · rw [if_pos hf]
      cases f.operator.perform o with
      | mk x o => cases x <;> rfl
    · rw [if_neg hf]
      rfl

/-- What a closing parenthesis performs comes first at the end of the expression as well. -/
lemma close_andThen_drain {ops : List Entry} (hops : Regular ops) (hopen : 0 < opened ops)
    (o : Operands) : andThen (accept .standard .closeParen) drain ⟨ops, o⟩ = applyAll ops o := by
  change andThen (fun s => unwind .standard 0 s.operators s.operands) drain ⟨ops, o⟩ = _
  induction ops generalizing o with
  | nil => cases hopen
  | cons top ops ih =>
    rw [andThen, unwind_cons (hops top (.head _)), applyAll]
    by_cases htop : top.operator = .openParen
    · -- an opening parenthesis computes nothing
      rw [if_pos htop, htop]
      exact fire_andThen_drain ops o
    · rw [opened_cons_of_ne htop] at hopen
      rw [if_neg htop, performThen]
      cases top.operator.perform o with
      | mk x o =>
        cases x with
        | ok _ => exact ih hops.tail hopen o
        | error e => rfl

/-- A stacked operator adds to the open groups what its token opens. -/
lemma opened_cons_token (op : Operator) (ops : List Entry) :
    opened (⟨op, true⟩ :: ops) = opened ops + openings [op.token] := by
  rw [openings_token]
  split
  · exact opened_cons_of_eq ‹_› ops
  · exact opened_cons_of_ne ‹_› ops

/-- An operator that is taken in changes nothing below `base`, and the open groups by itself. -/
lemma accept_over (hbase : Sealed base) (hops : Regular ops) {op : Operator}
    (hclose : closings [op.token] ≤ opened ops + openings [op.token]) {o : Operands} {s : Stacks}
    (h : accept .standard op ⟨ops ++ base, o⟩ = (.ok (), s)) :
    ∃ left, s.operators = left ++ base ∧ Regular left ∧
      opened left + closings [op.token] = opened ops + openings [op.token] := by
  by_cases hop : op = .closeParen
  · subst hop
    have hopen : 0 < opened ops := hclose
    obtain ⟨left, hsuffix, hoperators, hopened⟩ := unwind_over hbase hops hopen o
    rw [show unwind .standard 0 (ops ++ base) o = _ from h] at hoperators hopened
    refine ⟨left, hoperators, hops.of_suffix hsuffix, ?_⟩
    rw [hopened rfl]
    exact Nat.sub_add_cancel hopen
  · obtain ⟨settled, hsettle, rfl⟩ := eq_of_accept hop h
    obtain ⟨left, hsuffix, hoperators, hopened⟩ := settle_over hbase op.priority hops o
    rw [show settle .standard op.priority (ops ++ base) o = _ from hsettle] at hoperators hopened
    refine ⟨⟨op, true⟩ :: left, congrArg (List.cons _) hoperators, ?_, ?_⟩
    · intro e he
      cases he with
      | head => exact ⟨rfl, hop⟩
      | tail _ he => exact hops e (hsuffix.subset he)
    · rw [opened_cons_token, hopened rfl, closings_token, if_neg hop, Nat.add_zero]

end Stacks

namespace Eval

open Stacks

variable {resolve : Text → Eval Text} {ctx c : Context} {s s' : Stacks} {ops base : List Entry}
  {t : Text} {ts : List Text}

/-- One token keeps count of the open groups. -/
lemma token_over (hreg : ctx.registry = .standard) (hbase : Sealed base) (hops : Regular ops)
    (hs : s.operators = ops ++ base) (hclose : closings [t] ≤ opened ops + openings [t])
    (h : token resolve s t ctx = .value s' c) :
    ∃ left, s'.operators = left ++ base ∧ Regular left ∧
      opened left + closings [t] = opened ops + openings [t] := by
  cases hop : Operator.ofToken? t with
  | some op =>
    obtain rfl := Operator.ofToken?_eq_some_iff.1 hop
    rw [token_of_operator hreg] at h
    have haccept := eq_of_onStacks h
    rw [hs] at haccept
    exact accept_over hbase hops hclose haccept
  | none =>
    obtain ⟨hopenings, hclosings⟩ := not_parenthesis_of_operand hop
    rw [token_apply, lookup?_of_not_operator hop] at h
    obtain ⟨v, c', -, h⟩ := value_of_bind h
    cases h
    exact ⟨ops, hs, hops, by rw [hopenings, hclosings]⟩

/-- Tokens that are nested in the groups that are open keep count of them, and what stands below
these stays. -/
lemma tokens_over (hr : ∀ t, Within Context.Keeps (resolve t)) (hreg : ctx.registry = .standard)
    (hbase : Sealed base) (hops : Regular ops) (hs : s.operators = ops ++ base)
    (hts : Nested (opened ops) ts) (h : tokens resolve s ts ctx = .value s' c) :
    ∃ left, s'.operators = left ++ base ∧ Regular left ∧
      opened left + closings ts = opened ops + openings ts := by
  induction ts generalizing s ops ctx with
  | nil =>
    cases h
    exact ⟨ops, hs, hops, rfl⟩
  | cons t ts ih =>
    obtain ⟨hclose, hrest⟩ := nested_cons_iff.1 hts
    obtain ⟨s₁, c₁, ht, h⟩ := value_of_bind h
    obtain ⟨left, hleft, hregular, hopened⟩ := token_over hreg hbase hops hs hclose ht
    have hreg' := ((Within.token Context.keeps_isFrame hr s t).of_value ht).registry.trans hreg
    rw [← hopened, Nat.add_sub_cancel] at hrest
    obtain ⟨left', hleft', hregular', hopened'⟩ := ih hreg' hregular hleft hrest h
    refine ⟨left', hleft', hregular', ?_⟩
    rw [openings_cons, closings_cons]
    omega

section Counting

variable (hr : ∀ t, Within Context.Keeps (resolve t)) (hreg : ctx.registry = .standard)
  (hs : Regular s.operators)

include hr hreg hs

/-- One token that closes no more groups than are open, on stacks of which all is looked at. -/
lemma token_opened (hclose : closings [t] ≤ opened s.operators + openings [t])
    (h : token resolve s t ctx = .value s' c) :
    c.registry = .standard ∧ Regular s'.operators ∧
      opened s'.operators + closings [t] = opened s.operators + openings [t] := by
  have hkeeps := (Within.token Context.keeps_isFrame hr s t).of_value h
  obtain ⟨left, hleft, hregular, hopened⟩ :=
    token_over hreg .nil hs (List.append_nil _).symm hclose h
  rw [List.append_nil] at hleft
  subst hleft
  exact ⟨hkeeps.registry.trans hreg, hregular, hopened⟩

/-- Nested tokens, on stacks of which all is looked at. -/
lemma tokens_opened (hts : Nested (opened s.operators) ts)
    (h : tokens resolve s ts ctx = .value s' c) :
    c.registry = .standard ∧ Regular s'.operators ∧
      opened s'.operators + closings ts = opened s.operators + openings ts := by
  have hkeeps := (Within.tokens Context.keeps_isFrame hr s ts).of_value h
  obtain ⟨left, hleft, hregular, hopened⟩ :=
    tokens_over hr hreg .nil hs (List.append_nil _).symm hts h
  rw [List.append_nil] at hleft
  subst hleft
  exact ⟨hkeeps.registry.trans hreg, hregular, hopened⟩

end Counting

/-- The closing parentheses of groups that are left open may as well not be written. -/
lemma tokens_replicate_closing (hr : ∀ t, Within Context.Keeps (resolve t))
    (hreg : ctx.registry = .standard) (hs : Regular s.operators) {k : Nat}
    (hk : k ≤ opened s.operators) :
    (tokens resolve s (List.replicate k Operator.closeParen.token) >>= onStacks drain) ctx =
      onStacks drain s ctx := by
  induction k generalizing s ctx with
  | zero => rfl
  | succ k ih =>
    have hopen : 0 < opened s.operators := Nat.lt_of_lt_of_le (Nat.succ_pos k) hk
    have hclosings : closings [Operator.closeParen.token] = 1 := rfl
    have hopenings : openings [Operator.closeParen.token] = 0 := rfl
    rw [List.replicate_succ, tokens, bind_assoc]
    calc (token resolve s Operator.closeParen.token >>= fun s =>
            tokens resolve s (List.replicate k Operator.closeParen.token) >>= onStacks drain) ctx
      _ = (token resolve s Operator.closeParen.token >>= onStacks drain) ctx := by
        apply bind_congr_of_value
        intro s' c ht
        obtain ⟨hreg', hs', hopened⟩ := token_opened hr hreg hs (by omega) ht
        exact ih hreg' hs' (by omega)
      _ = (onStacks (accept .standard .closeParen) s >>= onStacks drain) ctx := by
        rw [bind_apply, token_of_operator hreg, ← bind_apply]
      _ = onStacks drain s ctx := by
        rw [← onStacks_andThen, onStacks, onStacks,
          close_andThen_drain hs hopen ⟨s.operands.values, ctx.separators⟩]
        rfl

section Plain

/-- A token is read in any number of steps if its references need none. -/
lemma token_pure_ne_outOfSteps (s : Stacks) (t : Text) (ctx : Context) :
    token pure s t ctx ≠ .outOfSteps := by
  rw [token_apply]
  cases ctx.registry.lookup? t with
  | some op => exact onStacks_ne_outOfSteps _ s ctx
  | none => exact Outcome.value_ne_outOfSteps _ ctx

/-- A row of tokens is read in any number of steps if their references need none. -/
lemma tokens_pure_ne_outOfSteps (s : Stacks) (ts : List Text) (ctx : Context) :
    tokens pure s ts ctx ≠ .outOfSteps := by
  induction ts generalizing s ctx with
  | nil => exact Outcome.value_ne_outOfSteps s ctx
  | cons t ts ih =>
    exact bind_ne_outOfSteps (token_pure_ne_outOfSteps s t ctx) fun s' c _ => ih s' c

/-- Tokens that close a group which is not open fail. -/
lemma tokens_of_not_nested (hreg : ctx.registry = .standard) (hs : Regular s.operators)
    (h : ¬ Nested (opened s.operators) ts) : ∃ e c, tokens pure s ts ctx = .error e c := by
  induction ts generalizing s ctx with
  | nil => exact absurd (nested_nil _) h
  | cons t ts ih =>
    rw [tokens]
    cases ht : token pure s t ctx with
    | error e c => exact ⟨e, c, bind_of_error ht _⟩
    | outOfSteps => exact absurd ht (token_pure_ne_outOfSteps s t ctx)
    | value s' c =>
      rw [bind_of_value ht]
      by_cases hclose : closings [t] ≤ opened s.operators + openings [t]
      · obtain ⟨hreg', hs', hopened⟩ :=
          token_opened (fun _ => .pure Context.keeps_isFrame _) hreg hs hclose ht
        apply ih hreg' hs'
        intro hts
        rw [nested_cons_iff, ← hopened, Nat.add_sub_cancel] at h
        exact h ⟨by omega, hts⟩
      · -- the token closes a group, and the stacks would have to have one for it
        obtain ⟨rfl, hopen⟩ := eq_closeParen_of_lt (Nat.not_le.1 hclose)
        rw [token_of_operator hreg] at ht
        have hunwind := unwind_of_opened_eq_zero hs hopen ⟨s.operands.values, ctx.separators⟩
        exact absurd (congrArg Prod.fst (eq_of_onStacks ht)) hunwind

/-- Tokens that close only groups which are open fail as operators do, if at all. -/
lemma tokens_error_of_nested (hreg : ctx.registry = .standard) (hs : Regular s.operators)
    (hts : Nested (opened s.operators) ts) {e : EvalError}
    (h : tokens pure s ts ctx = .error e c) : e.OfOperator := by
  induction ts generalizing s ctx with
  | nil => cases h
  | cons t ts ih =>
    obtain ⟨hclose, hrest⟩ := nested_cons_iff.1 hts
    obtain h | ⟨s', c', ht, h⟩ := error_of_bind h
    · cases hop : Operator.ofToken? t with
      | some op =>
        obtain rfl := Operator.ofToken?_eq_some_iff.1 hop
        rw [token_of_operator hreg] at h
        obtain ⟨s', hs', h⟩ := error_of_onStacks h
        rw [← hs'] at hs hclose
        exact accept_error_of_opened hs hclose h
      | none =>
        rw [token_apply, lookup?_of_not_operator hop] at h
        cases h
    · obtain ⟨hreg', hs', hopened⟩ :=
        token_opened (fun _ => .pure Context.keeps_isFrame _) hreg hs hclose ht
      rw [← hopened, Nat.add_sub_cancel] at hrest
      exact ih hreg' hs' hrest h

end Plain

/-- The result of an expression whose operators have all been applied. -/
def answer (ts : List Text) (s : Stacks) : Eval Text :=
  match s.operands.values with
  | v :: _ => pure v.asText
  | [] => fail (.emptyExpression (Text.join [' '] ts))

/-- An expression is read to its end, what is left is performed, and the result is answered. -/
lemma expression_eq (resolve : Text → Eval Text) (ts : List Text) :
    expression resolve ts = (tokens resolve .empty ts >>= onStacks drain) >>= answer ts := by
  rw [expression, bind_assoc]
  rfl

/-- Answering a result costs no steps. -/
lemma answer_ne_outOfSteps (ts : List Text) (s : Stacks) (ctx : Context) :
    answer ts s ctx ≠ .outOfSteps := by
  rw [answer]
  cases s.operands.values with
  | nil => exact Outcome.error_ne_outOfSteps _ ctx
  | cons v _ => exact Outcome.value_ne_outOfSteps _ ctx

/-- An expression without references to resolve ends with any number of steps. -/
lemma expression_pure_ne_outOfSteps (ts : List Text) (ctx : Context) :
    expression pure ts ctx ≠ .outOfSteps := by
  rw [expression_eq]
  apply bind_ne_outOfSteps _ fun s c _ => answer_ne_outOfSteps ts s c
  exact bind_ne_outOfSteps (tokens_pure_ne_outOfSteps .empty ts ctx)
    fun s c _ => onStacks_ne_outOfSteps drain s c

/-- Nested tokens never miss an opening parenthesis. -/
lemma expression_ne_unbalanced (hreg : ctx.registry = .standard) (hts : Nested 0 ts) (c : Context) :
    expression pure ts ctx ≠ .error .unbalancedParenthesis c := by
  intro h
  rw [expression_eq] at h
  obtain h | ⟨s, c', -, h⟩ := error_of_bind h
  · obtain h | ⟨s, c', -, h⟩ := error_of_bind h
    · exact tokens_error_of_nested hreg (s := .empty) nofun hts h
    · obtain ⟨s', -, h⟩ := error_of_onStacks h
      exact applyAll_error h
  · rw [answer] at h
    cases hv : s.operands.values with
    | nil => rw [hv] at h; cases h
    | cons v _ => rw [hv] at h; cases h

/-- Two expressions that end on the same stacks answer alike but for their names. -/
lemma answer_sameButForName (ts us : List Text) (s : Stacks) (ctx : Context) :
    (answer ts s ctx).SameButForName (answer us s ctx) := by
  rw [answer, answer]
  cases s.operands.values with
  | nil => exact .empty _ _ ctx
  | cons v _ => exact .refl _

/-- The groups that are left open at the end may be closed there. -/
lemma expression_closing {resolve : Text → Eval Text} {ctx : Context}
    (hr : ∀ t, Within Context.Keeps (resolve t)) (hreg : ctx.registry = .standard)
    {ts : List Text} (hts : Nested 0 ts) {k : Nat} (hk : closings ts + k ≤ openings ts) :
    (expression resolve ts ctx).SameButForName
      (expression resolve (ts ++ List.replicate k Operator.closeParen.token) ctx) := by
  have hclosing : (tokens resolve .empty (ts ++ List.replicate k Operator.closeParen.token) >>=
      onStacks drain) ctx = (tokens resolve .empty ts >>= onStacks drain) ctx := by
    rw [tokens_append, bind_assoc]
    apply bind_congr_of_value
    intro s c h
    obtain ⟨hreg', hs, hopened⟩ := tokens_opened hr hreg (s := .empty) nofun hts h
    have hempty : opened Stacks.empty.operators = 0 := rfl
    exact tokens_replicate_closing hr hreg' hs (by omega)
  rw [expression_eq, expression_eq, bind_apply _ (answer ts), bind_apply _ (answer _), hclosing]
  cases (tokens resolve .empty ts >>= onStacks drain) ctx with
  | value s c => exact answer_sameButForName ts _ s c
  | error e c => exact .refl _
  | outOfSteps => exact .refl _

end Eval

namespace Request

open Eval

variable {ctx : Context} {ts : List Text}

/-- Plain operands stand for themselves. -/
lemma ends_of_plain (hts : ∀ t ∈ ts, Operator.ofToken? t = none → t.IsPlain) :
    (expression ts).Ends ctx (Eval.expression pure ts ctx) := by
  refine ⟨expression_pure_ne_outOfSteps ts ctx, 2, ?_⟩
  have htokens : ∀ t ∈ ts, Eval.text 2 t = pure t := by
    intro t ht
    apply text_of_plain
    cases hop : Operator.ofToken? t with
    | none => exact hts t ht hop
    | some op =>
      obtain rfl := Operator.ofToken?_eq_some_iff.1 hop
      exact op.token_plain.1
  change Eval.expression (Eval.text 2) ts ctx = _
  rw [Eval.expression, Eval.expression, tokens_congr htokens]

/-- An expression with plain operands fails if it closes at some point more groups than it has
opened. Otherwise it does not miss an opening parenthesis, and closing groups that it leaves open
changes nothing. -/
theorem balance_decides_closing (hreg : ctx.registry = .standard)
    (hts : ∀ t ∈ ts, Operator.ofToken? t = none → t.IsPlain) :
    ((∃ us, us <+: ts ∧ openings us < closings us) →
      ∃ e c, (expression ts).Ends ctx (.error e c)) ∧
    (Nested 0 ts → ∃ o, (expression ts).Ends ctx o ∧ (∀ c, o ≠ .error .unbalancedParenthesis c) ∧
      ∀ k, closings ts + k ≤ openings ts → ∃ o',
        (expression (ts ++ List.replicate k Operator.closeParen.token)).Ends ctx o' ∧
          o.SameButForName o') := by
  have hends : (expression ts).Ends ctx (Eval.expression pure ts ctx) := ends_of_plain hts
  constructor
  · rintro ⟨us, hus, hlt⟩
    have hnested : ¬ Nested 0 ts := by
      intro h
      have hle := h us hus
      omega
    obtain ⟨e, c, h⟩ := tokens_of_not_nested (s := .empty) hreg nofun hnested
    have herror : Eval.expression pure ts ctx = .error e c := bind_of_error h _
    exact ⟨e, c, herror ▸ hends⟩
  · intro hnested
    refine ⟨_, hends, expression_ne_unbalanced hreg hnested, fun k hk => ?_⟩
    refine ⟨_, ends_of_plain ?_, expression_closing (.pure Context.keeps_isFrame) hreg hnested hk⟩
    intro t ht hop
    rcases List.mem_append.1 ht with ht | ht
    · exact hts t ht hop
    · rw [List.eq_of_mem_replicate ht, Operator.ofToken?_token] at hop
      cases hop

/-- A parenthesis that closes too early, and a call that is not closed or closed at the end. -/
theorem balance_decides_closing_call :
    let ctx := Engine.start {} (Table.empty true)
    let early : List Text := ["1".toList, ")".toList, "(".toList]
    let call : List Text := ["substring".toList, "(".toList, "abc".toList, ",".toList, "1".toList]
    (∃ e c, (expression early).Ends ctx (.error e c)) ∧
      ∃ o, (expression call).Ends ctx o ∧ (∀ c, o ≠ .error .unbalancedParenthesis c) ∧
        ∃ o', (expression (call ++ [")".toList])).Ends ctx o' ∧ o.SameButForName o' := by
  intro ctx early call
  have hreg : ctx.registry = .standard := rfl
  have hearly : ∀ t ∈ early, Operator.ofToken? t = none → t.IsPlain := by decide
  have hcall : ∀ t ∈ call, Operator.ofToken? t = none → t.IsPlain := by decide
  refine ⟨?_, ?_⟩
  · apply (balance_decides_closing hreg hearly).1
    exact ⟨["1".toList, ")".toList], ⟨["(".toList], rfl⟩, by decide⟩
  · have hnested : Nested 0 call := by decide
    obtain ⟨o, ho, hbalanced, hclose⟩ := (balance_decides_closing hreg hcall).2 hnested
    exact ⟨o, ho, hbalanced, hclose 1 (by decide)⟩

end Request

end InlineExpr
