import InlineExpr.Proofs.CallSeparators

/-!
# Smaller registries

A registry that has every operator among the tokens of an expression is as good as the standard one:
where no text begins a span, the expression comes to the same outcome under both
(`Request.smaller_registry_immaterial`). What a registry is asked is whether a token is one of its
operators and whether a stacked operator is its own, and for the operators that it has it answers as
the standard one does (`Registry.owns_eq`); those that it lacks never come to be stacked.
-/

namespace InlineExpr

namespace Registry

variable {reg : Registry}

/-- A list without repetitions makes a registry. -/
lemma repeated?_eq_none {seen ops : List Operator} (hops : ops.Nodup)
    (hseen : ∀ op ∈ ops, op ∉ seen) : repeated? seen ops = none := by
  induction ops generalizing seen with
  | nil => rfl
  | cons op ops ih =>
    obtain ⟨hop, hops⟩ := List.nodup_cons.1 hops
    rw [repeated?, if_neg (hseen op (.head _))]
    apply ih hops
    intro other hother hm
    cases hm with
    | head => exact hop hother
    | tail _ hm => exact hseen other (.tail _ hother) hm

/-- Any operators that differ from one another make a registry of exactly these. -/
lemma exists_ofList? {ops : List Operator} (hops : ops.Nodup) :
    ∃ reg, ofList? ops = .ok reg ∧ reg.operators = ops := by
  have hnone : repeated? [] ops = none := repeated?_eq_none hops fun _ _ => List.not_mem_nil
  refine ⟨⟨ops, hops⟩, ?_, rfl⟩
  rw [ofList?]
  split
  · rename_i op hsome
    rw [hnone] at hsome
    cases hsome
  · rfl

/-- A registry owns one of its operators as the standard registry does. -/
lemma owns_eq {e : Entry} (he : reg.contains e.operator = true) (op : Operator) :
    reg.owns e op = standard.owns e op := by
  by_cases hop : e.operator = op
  · subst hop
    simp [owns, he]
  · simp [owns, hop]

/-- A token that is none of the operators that the registry lacks is looked up alike. -/
lemma lookup?_eq {t : Text} (ht : ∀ op, t = op.token → reg.contains op = true) :
    reg.lookup? t = standard.lookup? t := by
  rw [lookup?, lookup?]
  cases hop : Operator.ofToken? t with
  | none => rfl
  | some op => simp [Option.filter, ht op (Operator.ofToken?_eq_some_iff.1 hop)]

end Registry

namespace Stacks

variable {reg : Registry} {ops : List Entry}

/-- Settling operators of the registry is the same under the standard one. -/
lemma settle_eq (p : Nat) (hops : Only (reg.contains · = true) ops) (o : Operands) :
    settle reg p ops o = settle .standard p ops o := by
  induction ops generalizing o with
  | nil => rfl
  | cons top ops ih =>
    have hbinds : binds reg p top = binds .standard p top := by
      simp only [binds, Registry.owns_eq (hops top (.head _))]
    rw [settle, settle, hbinds]
    simp only [ih hops.tail]

/-- Unwinding operators of the registry is the same under the standard one. -/
lemma unwind_eq (nested : Nat) (hops : Only (reg.contains · = true) ops) (o : Operands) :
    unwind reg nested ops o = unwind .standard nested ops o := by
  induction ops generalizing nested o with
  | nil => rfl
  | cons top ops ih =>
    rw [unwind.eq_def, unwind.eq_def .standard]
    simp only [Registry.owns_eq (hops top (.head _)), ih _ hops.tail]

/-- On operators that the registry has, an operator is taken in as under the standard registry. -/
lemma accept_eq (op : Operator) {s : Stacks} (hs : Only (reg.contains · = true) s.operators) :
    accept reg op s = accept .standard op s := by
  by_cases hop : op = .closeParen
  · subst hop
    exact unwind_eq 0 hs s.operands
  · rw [accept, accept, if_neg hop, if_neg hop, reduce_eq_settle, reduce_eq_settle,
      settle_eq _ hs]

end Stacks

/-- The context with the operators of another registry. -/
def Context.under (reg : Registry) (ctx : Context) : Context :=
  { ctx with registry := reg }

/-- The outcome, in the context with the operators of another registry. -/
def Outcome.under {α : Type} (reg : Registry) : Outcome α → Outcome α
  | .value a ctx => .value a (ctx.under reg)
  | .error e ctx => .error e (ctx.under reg)
  | .outOfSteps => .outOfSteps

/-- The operators are the standard ones, and no value begins a span. -/
structure Context.Spanless (ctx : Context) : Prop where
  registry : ctx.registry = .standard
  spanless : ctx.table.Spanless

namespace Context

variable {ctx : Context} {name v : Text}

/-- A spanless context stays so when a constant takes in a text with no `#`. -/
lemma Spanless.define (h : ctx.Spanless) (hv : '#' ∉ v) : (ctx.define name v).Spanless where
  registry := h.registry
  spanless := h.spanless.insert hv

/-- Whether a constant is entered is no matter of the operators. -/
lemma enter_under (reg : Registry) (ctx : Context) (name : Text) :
    (ctx.under reg).enter name = (ctx.enter name).map (under reg) := by
  cases henter : ctx.enter name with
  | ok inner =>
    obtain ⟨hdepth, hchain, rfl⟩ := eq_of_enter henter
    exact @enter_of_lt (ctx.under reg) name hdepth hchain
  | error e =>
    obtain ⟨hdepth, rfl⟩ | ⟨hdepth, hchain, rfl⟩ := error_of_enter henter
    · exact @enter_of_exceeded (ctx.under reg) hdepth name
    · exact @enter_of_cycle (ctx.under reg) name hdepth hchain

end Context

namespace Eval

open Context (Spanless)

variable {α β : Type} {reg : Registry} {Q : α → Prop}

/-- From spanless contexts the evaluation comes to spanless contexts and to results with the
property, and under the registry it comes to the same outcome. -/
structure Unmoved (reg : Registry) (x : Eval α) (Q : α → Prop) : Prop where
  upholds : ∀ ctx : Context, ctx.Spanless → (x ctx).Upholds Spanless Q
  same : ∀ ctx : Context, ctx.Spanless → x (ctx.under reg) = (x ctx).under reg

/-- With no steps left nothing depends on the registry. -/
lemma Unmoved.exhausted : Unmoved reg exhausted Q :=
  ⟨fun _ _ => trivial, fun _ _ => rfl⟩

/-- A value at once does not depend on the registry. -/
lemma Unmoved.pure {a : α} (h : Q a) : Unmoved reg (pure a) Q :=
  ⟨fun _ hctx => ⟨hctx, h⟩, fun _ _ => rfl⟩

/-- An error at once does not depend on the registry. -/
lemma Unmoved.fail (e : EvalError) : Unmoved reg (fail e) Q :=
  ⟨fun _ hctx => hctx, fun _ _ => rfl⟩

/-- A sequence does not depend on the registry if neither part does. -/
lemma Unmoved.bind {R : β → Prop} {x : Eval α} {f : α → Eval β} (hx : Unmoved reg x Q)
    (hf : ∀ a, Q a → Unmoved reg (f a) R) : Unmoved reg (x >>= f) R where
  upholds ctx hctx := upholds_bind (hx.upholds ctx hctx) fun a c _ hc ha => (hf a ha).upholds c hc
  same ctx hctx := by
    have hupholds := hx.upholds ctx hctx
    rw [bind_apply, bind_apply, hx.same ctx hctx]
    cases hc : x ctx with
    | value a c =>
      rw [hc] at hupholds
      exact (hf a hupholds.2).same c hupholds.1
    | error e c => rfl
    | outOfSteps => rfl

/-- Less can be said of a result that does not depend on the registry. -/
lemma Unmoved.weaken {R : α → Prop} {x : Eval α} (h : Unmoved reg x Q) (hQ : ∀ a, Q a → R a) :
    Unmoved reg x R := by
  have hbind : Unmoved reg (x >>= Pure.pure) R := h.bind fun a ha => .pure (hQ a ha)
  rwa [bind_pure] at hbind

/-- A constant comes to the same under the registry if its value does. -/
lemma Unmoved.constant {resolve : Text → Eval Text}
    (hr : ∀ t, '#' ∉ t → Unmoved reg (resolve t) ('#' ∉ ·)) (name : Text) :
    Unmoved reg (constant resolve name) ('#' ∉ ·) where
  upholds _ hctx := upholds_constant hctx
    (fun value hvalue =>
      (hr value (hctx.spanless name value hvalue)).upholds _ ⟨hctx.registry, hctx.spanless⟩)
    (fun _ hc => ⟨hc.registry, hc.spanless⟩) fun _ _ hc hv => hc.define hv
  same ctx hctx := by
    have hget : (ctx.under reg).table.get? name = ctx.table.get? name := rfl
    have henter' := Context.enter_under reg ctx name
    cases hvalue : ctx.table.get? name with
    | none =>
      rw [constant_of_missing hvalue, constant_of_missing (hget.trans hvalue)]
      rfl
    | some value =>
      cases henter : ctx.enter name with
      | error e =>
        rw [henter] at henter'
        rw [constant_of_refused hvalue henter, constant_of_refused (hget.trans hvalue) henter']
        rfl
      | ok inner =>
        rw [henter] at henter'
        obtain ⟨-, -, rfl⟩ := Context.eq_of_enter henter
        have hsame := (hr value (hctx.spanless name value hvalue)).same (ctx.entered name)
          ⟨hctx.registry, hctx.spanless⟩
        rw [constant_of_entered hvalue henter, constant_of_entered (hget.trans hvalue) henter',
          hsame]
        cases resolve value (ctx.entered name) with
        | value v c => rfl
        | error e c => rfl
        | outOfSteps => rfl

/-- Where there is no span, no operator is asked for. -/
lemma spanlessClosed_unmoved (reg : Registry) : SpanlessClosed (Unmoved reg · ('#' ∉ ·)) where
  exhausted := .exhausted
  pure _ ht := .pure ht
  bind := .bind
  constant := .constant

section Expressions

open Stacks (Only)

/-- What is done to the stacks is no matter of the operators that the context has. -/
lemma Unmoved.onStacks {f : Stacks → Except EvalError Unit × Stacks} {s : Stacks}
    {Q : Stacks → Prop} (hf : ∀ o, Q (f ⟨s.operators, o⟩).2) :
    Unmoved reg (onStacks f s) Q where
  upholds ctx hctx := by
    have hleft := hf ⟨s.operands.values, ctx.separators⟩
    rw [Eval.onStacks]
    cases hx : f ⟨s.operators, ⟨s.operands.values, ctx.separators⟩⟩ with
    | mk x s' =>
      rw [hx] at hleft
      cases x with
      | ok _ => exact ⟨⟨hctx.registry, hctx.spanless⟩, hleft⟩
      | error e => exact ⟨hctx.registry, hctx.spanless⟩
  same ctx hctx := by
    have hsep : (ctx.under reg).separators = ctx.separators := rfl
    rw [Eval.onStacks, Eval.onStacks, hsep]
    cases f { s with operands := { s.operands with separators := ctx.separators } } with
    | mk x s' => cases x <;> rfl

variable {resolve : Text → Eval Text} {s : Stacks} {t : Text}

/-- On operators that the registry has, a token is read alike unless it is an operator that the
registry lacks. -/
lemma Unmoved.token (hr : Unmoved reg (resolve t) fun _ => True)
    (ht : ∀ op, t = op.token → reg.contains op = true)
    (hs : Only (reg.contains · = true) s.operators) :
    Unmoved reg (token resolve s t) fun s => Only (reg.contains · = true) s.operators := by
  have hreg (ctx : Context) : (ctx.under reg).registry = reg := rfl
  cases hop : Registry.standard.lookup? t with
  | some op =>
    have hown : reg.contains op = true :=
      ht op (Operator.ofToken?_eq_some_iff.1 (Option.filter_eq_some_iff.1 hop).1)
    have haccept : Eval.onStacks (Stacks.accept reg op) s =
        Eval.onStacks (Stacks.accept .standard op) s := by
      funext ctx
      have hs' := @Stacks.accept_eq reg op ⟨s.operators, ⟨s.operands.values, ctx.separators⟩⟩ hs
      rw [Eval.onStacks, Eval.onStacks, hs']
    have hstacks : Unmoved reg (Eval.onStacks (Stacks.accept .standard op) s)
        fun s => Only (reg.contains · = true) s.operators :=
      .onStacks fun _ => Stacks.forall_mem_accept hs fun _ => hown
    refine ⟨fun ctx hctx => ?_, fun ctx hctx => ?_⟩
    · rw [token_apply, hctx.registry, hop]
      exact hstacks.upholds ctx hctx
    · rw [token_apply, token_apply, hreg, hctx.registry, Registry.lookup?_eq ht, hop]
      dsimp only
      rw [haccept]
      exact hstacks.same ctx hctx
  | none =>
    have hpush : Unmoved reg (resolve t >>= fun v => Pure.pure (s.push (.text v)))
        fun s => Only (reg.contains · = true) s.operators :=
      .bind hr fun _ _ => .pure hs
    refine ⟨fun ctx hctx => ?_, fun ctx hctx => ?_⟩
    · rw [token_apply, hctx.registry, hop]
      exact hpush.upholds ctx hctx
    · rw [token_apply, token_apply, hreg, hctx.registry, Registry.lookup?_eq ht, hop]
      exact hpush.same ctx hctx

variable {ts : List Text} (hr : ∀ t ∈ ts, Unmoved reg (resolve t) fun _ => True)
  (hts : ∀ t ∈ ts, ∀ op, t = op.token → reg.contains op = true)

include hr hts

/-- A row of tokens does not depend on the registry if it has all of their operators. -/
lemma Unmoved.tokens (hs : Only (reg.contains · = true) s.operators) :
    Unmoved reg (tokens resolve s ts) fun s => Only (reg.contains · = true) s.operators := by
  induction ts generalizing s with
  | nil => exact .pure hs
  | cons t ts ih =>
    apply Unmoved.bind (.token (hr t (.head _)) (hts t (.head _)) hs)
    intro s' hs'
    exact ih (fun u hu => hr u (.tail _ hu)) (fun u hu => hts u (.tail _ hu)) hs'

/-- An expression whose operators the registry has comes to the same under it if its operands
do. -/
lemma Unmoved.expression : Unmoved reg (expression resolve ts) fun _ => True := by
  apply Unmoved.bind (.tokens (s := .empty) hr hts nofun)
  intro s _
  apply Unmoved.bind (.onStacks (Q := fun _ => True) fun _ => trivial)
  intro s _
  cases s.operands.values with
  | nil => exact .fail _
  | cons v _ => exact .pure trivial

end Expressions

end Eval

namespace Request

/-- The operators of a list without repetitions, and no others, make a registry, and under it an
expression whose operators are in the list has the outcome that it has under the standard one, be it
a result or an error, if neither its tokens nor the values of the table hold the mark of a span. The
table and the count of separators come out the same, whatever the number of steps. -/
theorem smaller_registry_immaterial {ops : List Operator} {ctx : Context} {ts : List Text}
    (hops : ops.Nodup) (htable : ∀ name v, ctx.table.get? name = some v → '#' ∉ v)
    (hts : ∀ t ∈ ts, '#' ∉ t ∧ ∀ op : Operator, t = op.token → op ∈ ops) :
    ∃ reg, Registry.ofList? ops = .ok reg ∧ reg.operators = ops ∧
      ∀ n, (expression ts).run n (ctx.under reg) =
        ((expression ts).run n (ctx.under .standard)).under reg := by
  obtain ⟨reg, hreg, rfl⟩ := Registry.exists_ofList? hops
  refine ⟨reg, hreg, rfl, fun n => ?_⟩
  have hown : ∀ t ∈ ts, ∀ op : Operator, t = op.token → reg.contains op = true :=
    fun t ht op hop => List.contains_iff_mem.2 ((hts t ht).2 op hop)
  have hresolve : ∀ t ∈ ts, Eval.Unmoved reg (Eval.text n t) fun _ => True :=
    fun t ht =>
      (((Eval.spanlessClosed_unmoved reg).text n).1 t (hts t ht).1).weaken fun _ _ => trivial
  have hctx : (ctx.under .standard).Spanless := ⟨rfl, htable⟩
  exact (Eval.Unmoved.expression hresolve hown).same _ hctx

/-- A registry with the closing parenthesis alone refuses it as the standard registry does, once the
sum was computed and the constants were resolved. -/
theorem smaller_registry_immaterial_closing :
    let ops : List Operator := [.closeParen, .plus]
    let table := Table.ofList true [(['A'], Reference.wrap ['B']), (['B'], ['2'])]
    let left := Table.ofList true [(['A'], ['2']), (['B'], ['2'])]
    let ts : List Text := [Reference.wrap ['A'], ['+'], ['1'], [')']]
    (ops.Nodup ∧ (∀ name v, table.get? name = some v → '#' ∉ v) ∧
      ∀ t ∈ ts, '#' ∉ t ∧ ∀ op : Operator, t = op.token → op ∈ ops) ∧
    ∃ reg, Registry.ofList? ops = .ok reg ∧ reg.operators = ops ∧
      (expression ts).run 8 (.fresh table reg 2) =
        .error .unbalancedParenthesis (.fresh left reg 2) := by
  intro ops table left ts
  have htable : ∀ name v, table.get? name = some v → '#' ∉ v := by
    have hentries : ∀ e ∈ table.entries, '#' ∉ e.2 := by decide
    exact fun name v hv => hentries _ (Table.mem_of_lookup? hv)
  have hts : ∀ t ∈ ts, '#' ∉ t ∧ ∀ op : Operator, t = op.token → op ∈ ops := by
    have hall : ∀ t ∈ ts, '#' ∉ t ∧ ∀ op ∈ Operator.all, t = op.token → op ∈ ops := by decide
    exact fun t ht => ⟨(hall t ht).1, fun op => (hall t ht).2 op op.mem_all⟩
  obtain ⟨reg, hreg, hops, hsame⟩ := @smaller_registry_immaterial ops (.fresh table .standard 2) ts
    (by decide) htable hts
  have hstandard : (expression ts).run 8 (.fresh table .standard 2) =
      .error .unbalancedParenthesis (.fresh left .standard 2) := by decide +kernel
  refine ⟨⟨by decide, htable, hts⟩, reg, hreg, hops, (hsame 8).trans ?_⟩
  exact congrArg (Outcome.under reg) hstandard

end Request

end InlineExpr
