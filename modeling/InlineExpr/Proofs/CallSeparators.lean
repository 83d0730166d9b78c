import InlineExpr.Proofs.Parentheses
import InlineExpr.Proofs.Spanless
import Mathlib.Data.List.Induction

/-!
# What is left of the count of separators

The separators of a call are counted when its parenthesis comes off the stack, and the function that
comes next forgets them, whether it fails or not. If the separators among the tokens stand in calls,
those on the stack stand directly above the parenthesis of a function (`Stacks.Separated`): what may
fail comes off before the first of them is counted, and then nothing comes in between. So the count
is the same after a run as before, wherever it ends (`Request.separators_forgotten`).
-/

namespace InlineExpr

namespace Token

/-- After these tokens the innermost parenthesis that is open stands right behind a function. -/
inductive WithinCall : List Text → Prop where
  | mk {front f inner} : Operator.kind f = .function → Nested 0 inner →
    openings inner = closings inner →
    WithinCall (front ++ f.token :: Operator.openParen.token :: inner)

/-- Every separator stands in a call, but not in a group within the call. -/
def SeparatedInCalls (ts : List Text) : Prop :=
  ∀ us, us ++ [Operator.comma.token] <+: ts → WithinCall us

variable {t : Text} {ts : List Text}

/-- One more token keeps the separators in calls unless it is one outside of a call. -/
lemma separatedInCalls_concat_iff : SeparatedInCalls (ts ++ [t]) ↔
    SeparatedInCalls ts ∧ (t = Operator.comma.token → WithinCall ts) := by
  constructor
  · intro h
    refine ⟨fun us hus => h us (hus.trans (List.prefix_append ts [t])), ?_⟩
    rintro rfl
    exact h ts (List.prefix_refl _)
  · rintro ⟨hts, ht⟩ us hus
    obtain h | hus := List.prefix_concat_iff.1 hus
    · obtain ⟨rfl, hcomma⟩ := List.append_inj' h rfl
      cases hcomma
      exact ht rfl
    · exact hts us hus

/-- There is a place in the tokens at which the call begins. -/
lemma withinCall_iff : WithinCall ts ↔ ∃ i < ts.length, ∃ f ∈ Operator.all, f.kind = .function ∧
    ts.drop i = f.token :: Operator.openParen.token :: ts.drop (i + 2) ∧
      Nested 0 (ts.drop (i + 2)) ∧ openings (ts.drop (i + 2)) = closings (ts.drop (i + 2)) := by
  constructor
  · rintro @⟨front, f, inner, hf, hnested, hbalanced⟩
    have hinner : (front ++ f.token :: Operator.openParen.token :: inner).drop (front.length + 2) =
        inner := by
      simp [List.drop_append]
    refine ⟨front.length, by simp, f, f.mem_all, hf, ?_⟩
    rw [hinner]
    exact ⟨by simp, hnested, hbalanced⟩
  · rintro ⟨i, -, f, -, hf, hcall, hnested, hbalanced⟩
    rw [← List.take_append_drop i ts, hcall]
    exact .mk hf hnested hbalanced

/-- Whether separators stand in calls is a question about each place in the row. -/
lemma separatedInCalls_iff : SeparatedInCalls ts ↔ ∀ i < ts.length,
    ts.take (i + 1) = ts.take i ++ [Operator.comma.token] → WithinCall (ts.take i) := by
  constructor
  · intro h i _ hcomma
    apply h
    rw [← hcomma]
    exact List.take_prefix _ _
  · rintro h us ⟨rest, rfl⟩
    have hcall := h us.length (by simp)
    rwa [List.take_left' (by simp), List.append_assoc, List.take_left, imp_iff_right rfl] at hcall

instance : Decidable (WithinCall ts) :=
  decidable_of_iff _ withinCall_iff.symm

instance : Decidable (SeparatedInCalls ts) :=
  decidable_of_iff _ separatedInCalls_iff.symm

end Token

open Token

namespace Stacks

/-- The topmost operator is a function. -/
inductive FunctionTop : List Entry → Prop where
  | mk {f ops} : f.operator.kind = .function → FunctionTop (f :: ops)

/-- On top are separators only, above the parenthesis of a function. -/
inductive InCall : List Entry → Prop where
  | call {paren ops} : paren.operator = .openParen → FunctionTop ops → InCall (paren :: ops)
  | separator {sep ops} : sep.operator = .comma → InCall ops → InCall (sep :: ops)

/-- Separators are stacked only within calls. -/
def Separated (ops : List Entry) : Prop :=
  ∀ sep rest, sep :: rest <:+ ops → sep.operator = .comma → InCall rest

variable {top : Entry} {ops : List Entry} {o : Operands}

/-- No separators are stacked on no operators. -/
lemma Separated.nil : Separated [] := by
  intro sep rest h
  simp at h

/-- What is left of the operators from below has its separators in calls. -/
lemma Separated.of_suffix {left : List Entry} (h : Separated ops) (hleft : left <:+ ops) :
    Separated left :=
  fun sep rest hsep => h sep rest (hsep.trans hleft)

/-- One more operator keeps separators in calls unless it is one outside of a call. -/
lemma Separated.cons (h : Separated ops) (htop : top.operator = .comma → InCall ops) :
    Separated (top :: ops) := by
  intro sep rest hsuffix hsep
  obtain heq | hsuffix := List.suffix_cons_iff.1 hsuffix
  · cases heq
    exact htop hsep
  · exact h sep rest hsuffix hsep

/-- Performing an operator and going on counts nothing if neither part does. -/
lemma performThen_separators {go : List Entry → Operands → Except EvalError Unit × Stacks}
    (htop : (top.operator.perform o).2.separators = 0)
    (hgo : ∀ {o}, o.separators = 0 → (go ops o).2.operands.separators = 0) :
    (performThen go top ops o).2.operands.separators = 0 :=
  performThen_keeps (I := (·.separators = 0)) htop hgo

/-- Settling counts no separators, and leaves none that were not counted before. -/
lemma settle_separators (p : Nat) (hops : Regular ops) (h : o.separators = 0) :
    (settle .standard p ops o).2.operands.separators = 0 := by
  induction ops generalizing o with
  | nil => exact h
  | cons top ops ih =>
    rw [settle]
    split
    · have htop : top.operator ≠ .comma := by
        intro htop
        simp_all [binds, hops.owns]
      exact performThen_separators (top.operator.separators_perform o htop h) (ih hops.tail)
    · exact h

/-- What is counted is forgotten by a function on top. -/
lemma fire_separators (h : o.separators = 0 ∨ FunctionTop ops) :
    (fire ops o).2.operands.separators = 0 := by
  cases ops with
  | nil =>
    obtain h | h := h
    · exact h
    · cases h
  | cons f ops =>
    rw [fire]
    split
    · exact Operator.separators_perform_of_function ‹_› o
    · obtain h | h := h
      · exact h
      · cases h
        contradiction

/-- The separators of a call are counted right before its function forgets them. -/
lemma unwind_separators (hops : Regular ops) (hseparated : Separated ops)
    (h : o.separators = 0 ∨ InCall ops) :
    (unwind .standard 0 ops o).2.operands.separators = 0 := by
  induction ops generalizing o with
  | nil =>
    obtain h | h := h
    · exact h
    · cases h
  | cons top ops ih =>
    have hrest := hseparated.of_suffix (List.suffix_cons top ops)
    rw [unwind_cons (hops top (.head _))]
    split
    · rename_i htop
      refine fire_separators (h.imp_right fun h => ?_)
      cases h with
      | call _ hf => exact hf
      | separator hsep _ => simp_all
    · rename_i htop
      by_cases hcomma : top.operator = .comma
      · rw [performThen, hcomma]
        exact ih hops.tail hrest (.inr (hseparated top ops (List.suffix_refl _) hcomma))
      · obtain h | h := h
        · exact performThen_separators (top.operator.separators_perform o hcomma h)
            fun h => ih hops.tail hrest (.inl h)
        · cases h with
          | call hparen _ => exact absurd hparen htop
          | separator hsep _ => exact absurd hsep hcomma

/-- At the end of the expression as well, a function forgets what was counted for it. -/
lemma applyAll_separators (hseparated : Separated ops)
    (h : o.separators = 0 ∨ InCall ops ∨ FunctionTop ops) :
    (applyAll ops o).2.operands.separators = 0 := by
  induction ops generalizing o with
  | nil =>
    obtain h | h | h := h
    · exact h
    · cases h
    · cases h
  | cons top ops ih =>
    have hrest := hseparated.of_suffix (List.suffix_cons top ops)
    change (performThen applyAll top ops o).2.operands.separators = 0
    by_cases hcomma : top.operator = .comma
    · rw [performThen, hcomma]
      exact ih hrest (.inr (.inl (hseparated top ops (List.suffix_refl _) hcomma)))
    · obtain h | h | h := h
      · exact performThen_separators (top.operator.separators_perform o hcomma h)
          fun h => ih hrest (.inl h)
      · cases h with
        | call hparen hf =>
          rw [performThen, hparen]
          exact ih hrest (.inr (.inr hf))
        | separator hsep _ => exact absurd hsep hcomma
      · cases h with
        | mk hf =>
          exact performThen_separators (Operator.separators_perform_of_function hf o)
            fun h => ih hrest (.inl h)

/-- When an operator was taken in, no separators are counted, whether it failed or not. -/
lemma accept_separators (hops : Regular ops) (hseparated : Separated ops) (h : o.separators = 0)
    (op : Operator) : (accept .standard op ⟨ops, o⟩).2.operands.separators = 0 := by
  by_cases hop : op = .closeParen
  · rw [accept, if_pos hop, hop]
    exact unwind_separators hops hseparated (.inl h)
  · have hsettle := settle_separators op.priority hops h
    obtain hleaves | ⟨settled, hsettled, hleaves⟩ := accept_leaves .standard hop ⟨ops, o⟩
    · rwa [hleaves]
    · rw [hsettled] at hsettle
      rwa [hleaves]

/-- A separator that is taken in has to find the settled stacks in a call. -/
lemma accept_separated (hseparated : Separated ops) {op : Operator}
    (hcomma : op = .comma → ∀ settled,
      settle .standard 0 ops o = (.ok (), settled) → InCall settled.operators) :
    Separated (accept .standard op ⟨ops, o⟩).2.operators := by
  by_cases hop : op = .closeParen
  · rw [accept, if_pos hop, hop]
    exact hseparated.of_suffix (unwind_suffix 0 _ _)
  · have hsettle := hseparated.of_suffix (@settle_suffix .standard op.priority ops o)
    obtain hleaves | ⟨settled, hsettled, hleaves⟩ := accept_leaves .standard hop ⟨ops, o⟩
    · rwa [hleaves]
    · rw [hsettled] at hsettle
      rw [hleaves]
      apply hsettle.cons
      rintro rfl
      exact hcomma rfl settled hsettled

/-- Where no group is open above the parenthesis of a function, settling for a separator leaves the
separators of the call on top. -/
lemma inCall_of_settle {base : List Entry} (hbase : Sealed base) (hcall : InCall base)
    (hops : Regular ops) (hopened : opened ops = 0) (hseparated : Separated (ops ++ base))
    {s : Stacks} (h : settle .standard 0 (ops ++ base) o = (.ok (), s)) : InCall s.operators := by
  obtain ⟨left, hsuffix, hoperators, hleft⟩ := settle_over hbase 0 hops o
  have hs := @settle_suffix .standard 0 (ops ++ base) o
  rw [h] at hoperators hleft hs
  dsimp only at hoperators hs
  cases left with
  | nil => rwa [hoperators]
  | cons top left =>
    have hbinds := not_binds_of_settle h hoperators
    have hown := (hops.of_suffix hsuffix) top (.head _)
    have hparen : top.operator ≠ .openParen := by
      intro htop
      rw [opened_cons_of_eq htop, hopened] at hleft
      cases hleft rfl
    have htop : top.operator = .comma := by
      simpa [binds, Registry.owns, hown.1, hparen] using hbinds
    rw [hoperators] at hs ⊢
    exact .separator htop (hseparated top _ hs htop)

end Stacks

/-- No separators are counted, the operators are the standard ones, and no value begins a span. -/
structure Context.Clean (ctx : Context) : Prop where
  registry : ctx.registry = .standard
  separators : ctx.separators = 0
  spanless : ctx.table.Spanless

namespace Context

variable {ctx : Context} {name v : Text}

/-- A clean context stays so when a constant takes in a text with no `#`. -/
lemma Clean.define (h : ctx.Clean) (hv : '#' ∉ v) : (ctx.define name v).Clean where
  registry := h.registry
  separators := h.separators
  spanless := h.spanless.insert hv

/-- Entering a constant keeps a context clean. -/
lemma Clean.entered (h : ctx.Clean) (name : Text) : (ctx.entered name).Clean :=
  ⟨h.registry, h.separators, h.spanless⟩

/-- Leaving a constant keeps a context clean. -/
lemma Clean.leave (h : ctx.Clean) : ctx.leave.Clean :=
  ⟨h.registry, h.separators, h.spanless⟩

end Context

namespace Eval

open Stacks
open Context (Clean)

variable {ctx c : Context}

/-- Where there is no span, no separators are counted. -/
lemma spanlessClosed_clean :
    SpanlessClosed fun x => ∀ ctx : Context, ctx.Clean → (x ctx).Upholds Clean ('#' ∉ ·) where
  exhausted _ _ := trivial
  pure _ ht _ hctx := ⟨hctx, ht⟩
  bind hx hf ctx hctx := upholds_bind (hx ctx hctx) fun v c _ hc hv => hf v hv c hc
  constant hr name _ hctx := upholds_constant hctx
    (fun value hvalue => hr value (hctx.spanless name value hvalue) _ (hctx.entered name))
    (fun _ hc => hc.leave) fun _ _ hc hv => hc.define hv

/-- Work on the stacks keeps a context clean if it counts nothing. -/
lemma onStacks_clean {f : Stacks → Except EvalError Unit × Stacks} {s : Stacks}
    {Q : Stacks → Prop} (hctx : ctx.Clean)
    (hf : ∀ o, o.separators = 0 →
      (f ⟨s.operators, o⟩).2.operands.separators = 0 ∧ Q (f ⟨s.operators, o⟩).2) :
    (onStacks f s ctx).Upholds Clean Q := by
  have hclean := hf ⟨s.operands.values, ctx.separators⟩ hctx.separators
  rw [onStacks]
  cases hx : f ⟨s.operators, ⟨s.operands.values, ctx.separators⟩⟩ with
  | mk x s' =>
    rw [hx] at hclean
    cases x with
    | ok _ => exact ⟨⟨hctx.registry, hclean.1, hctx.spanless⟩, hclean.2⟩
    | error e => exact ⟨hctx.registry, hclean.1, hctx.spanless⟩

section Calls

variable {resolve : Text → Eval Text} {s s' : Stacks} {ts : List Text}

/-- An operator that is read without an error stands on top of the settled stacks. -/
lemma eq_of_token (hreg : ctx.registry = .standard) {op : Operator} (hop : op ≠ .closeParen)
    (h : token resolve s op.token ctx = .value s' c) : ∃ settled,
      settle .standard op.priority s.operators ⟨s.operands.values, ctx.separators⟩ =
        (.ok (), settled) ∧ s' = settled.pushOperator op := by
  rw [token_of_operator hreg] at h
  exact eq_of_accept hop (eq_of_onStacks h)

variable (hr : ∀ t, Within Context.Keeps (resolve t)) (hreg : ctx.registry = .standard)

include hr hreg

/-- The parenthesis of a call is pushed onto its function. -/
lemma operators_of_call {f : Operator} (hf : f.kind = .function)
    (h : tokens resolve s [f.token, Operator.openParen.token] ctx = .value s' c) :
    ∃ ops, s'.operators = ⟨.openParen, true⟩ :: ⟨f, true⟩ :: ops := by
  obtain ⟨hclose, hpriority⟩ := Operator.function_binds hf
  have hnot : ¬ binds .standard Operator.openParen.priority ⟨f, true⟩ = true :=
    not_binds_of_lt (by rw [hpriority]; decide) true
  obtain ⟨s₁, c₁, h₁, h⟩ := value_of_bind h
  obtain ⟨s₂, c₂, h₂, h⟩ := value_of_bind h
  cases h
  have hreg₁ := ((Within.token Context.keeps_isFrame hr s _).of_value h₁).registry.trans hreg
  obtain ⟨settled, -, rfl⟩ := eq_of_token hreg hclose h₁
  have hopen : Operator.openParen ≠ .closeParen := nofun
  obtain ⟨settled', hsettle, rfl⟩ := eq_of_token hreg₁ hopen h₂
  rw [pushOperator, settle, if_neg hnot] at hsettle
  cases hsettle
  exact ⟨settled.operators, rfl⟩

/-- After the tokens before a separator of a call, settling the stacks leaves those of the call on
top. -/
lemma inCall_of_withinCall (hts : WithinCall ts) (h : tokens resolve .empty ts ctx = .value s c)
    (hseparated : Separated s.operators) {o : Operands}
    (hsettle : settle .standard 0 s.operators o = (.ok (), s')) : InCall s'.operators := by
  cases hts with
  | @mk front f inner hf hnested hbalanced =>
    change tokens resolve .empty (front ++ ([f.token, _] ++ inner)) ctx = _ at h
    rw [tokens_append] at h
    obtain ⟨s₁, c₁, h₁, h⟩ := value_of_bind h
    rw [tokens_append] at h
    obtain ⟨s₂, c₂, h₂, h⟩ := value_of_bind h
    have hreg₁ := ((Within.tokens Context.keeps_isFrame hr _ _).of_value h₁).registry.trans hreg
    have hreg₂ := ((Within.tokens Context.keeps_isFrame hr _ _).of_value h₂).registry.trans hreg₁
    obtain ⟨ops, hops⟩ := operators_of_call hr hreg₁ hf h₂
    -- the tokens behind the parenthesis leave it and what is below
    have hregular : Regular [] := nofun
    obtain ⟨left, hleft, hregular, hopened⟩ :=
      tokens_over hr hreg₂ (.group _) hregular hops hnested h
    rw [hleft] at hseparated hsettle
    have hempty : opened [] = 0 := rfl
    exact inCall_of_settle (.group _) (.call rfl (.mk hf)) hregular (by omega) hseparated hsettle

end Calls

section Runs

variable {n : Nat} {s : Stacks} {t : Text} {ts : List Text}

/-- One token counts no separators. -/
lemma token_clean (hctx : ctx.Clean) (ht : '#' ∉ t) (hs : Regular s.operators)
    (hseparated : Separated s.operators)
    (hcomma : t = Operator.comma.token → ∀ o settled,
      settle .standard 0 s.operators o = (.ok (), settled) → InCall settled.operators) :
    (token (text n) s t ctx).Upholds Clean fun s => Separated s.operators := by
  cases hop : Operator.ofToken? t with
  | some op =>
    obtain rfl := Operator.ofToken?_eq_some_iff.1 hop
    rw [token_of_operator hctx.registry]
    apply onStacks_clean hctx
    intro o ho
    refine ⟨accept_separators hs hseparated ho op, accept_separated hseparated ?_⟩
    rintro rfl settled hsettle
    exact hcomma rfl o settled hsettle
  | none =>
    rw [token_apply, lookup?_of_not_operator hop]
    exact upholds_bind ((spanlessClosed_clean.text n).1 t ht ctx hctx)
      fun v c _ hc _ => ⟨hc, hseparated⟩

/-- Reading tokens counts no separators, if they are stacked in calls only. -/
lemma tokens_clean (hctx : ctx.Clean) (hts : ∀ t ∈ ts, '#' ∉ t) (hcalls : SeparatedInCalls ts) :
    (tokens (text n) .empty ts ctx).Upholds Clean fun s => Separated s.operators := by
  -- from the left to the right, because what a separator finds depends on what was read before
  induction ts using List.reverseRecOn with
  | nil => exact ⟨hctx, .nil⟩
  | append_singleton ts t ih =>
    obtain ⟨hcalls, hcall⟩ := separatedInCalls_concat_iff.1 hcalls
    rw [List.forall_mem_append, List.forall_mem_singleton] at hts
    rw [tokens_append]
    apply upholds_bind (ih hts.1 hcalls)
    intro s c h hc hseparated
    have hs : Regular s.operators :=
      tokens_stacked (fun _ _ _ hs => forall_mem_accept hs fun hop => ⟨rfl, hop⟩) h nofun
    apply upholds_bind (token_clean hc hts.2 hs hseparated ?_)
    · exact fun s c _ hc hs => ⟨hc, hs⟩
    · intro ht o settled hsettle
      exact inCall_of_withinCall (text_keeps n) hctx.registry (hcall ht) h hseparated hsettle

/-- An expression whose separators stand in calls keeps a context clean, wherever it ends. -/
lemma expression_clean (hctx : ctx.Clean) (hts : ∀ t ∈ ts, '#' ∉ t)
    (hcalls : SeparatedInCalls ts) :
    (expression (text n) ts ctx).Upholds Clean fun _ => True := by
  rw [expression_eq]
  apply upholds_bind (Q := fun _ => True)
  · apply upholds_bind (tokens_clean hctx hts hcalls)
    intro s c _ hc hseparated
    exact onStacks_clean hc fun o ho => ⟨applyAll_separators hseparated (.inl ho), trivial⟩
  · intro s c _ hc _
    rw [answer]
    cases s.operands.values with
    | nil => exact hc
    | cons v _ => exact ⟨hc, trivial⟩

end Runs

end Eval

namespace Request

/-- If separators stand in calls only and nothing holds a span, no separators are counted after an
expression that began without, wherever it ends. -/
theorem separators_forgotten {ctx c : Context} {ts : List Text} {o : Outcome Text}
    (hreg : ctx.registry = .standard) (hcount : ctx.separators = 0)
    (hcalls : SeparatedInCalls ts) (hts : ∀ t ∈ ts, '#' ∉ t)
    (htable : ∀ name v, ctx.table.get? name = some v → '#' ∉ v)
    (h : (expression ts).Ends ctx o) (hc : o.context? = some c) : c.separators = 0 := by
  obtain ⟨-, n, rfl⟩ := h
  have hclean : ((expression ts).run n ctx).Upholds Context.Clean fun _ => True :=
    Eval.expression_clean ⟨hreg, hcount, htable⟩ hts hcalls
  exact (hclean.of_context? hc).separators

/-- A slice that is not closed and has more parameters than it takes. -/
theorem separators_forgotten_slice :
    let ctx := Engine.start {} (Table.empty true)
    let slice : List Text := ["substring".toList, "(".toList, "abc".toList, ",".toList,
      "1".toList, ",".toList, "2".toList, ",".toList, "3".toList]
    SeparatedInCalls slice ∧
      (expression slice).Ends ctx (.error (.parameterCount .substring 4) ctx) ∧
      ctx.separators = 0 := by
  intro ctx slice
  have hcalls : SeparatedInCalls slice := by decide +kernel
  have hends : (expression slice).Ends ctx (.error (.parameterCount .substring 4) ctx) :=
    ⟨nofun, 2, by decide +kernel⟩
  have htable : ∀ name v, ctx.table.get? name = some v → '#' ∉ v := by
    intro name v hv
    cases hv
  exact ⟨hcalls, hends, separators_forgotten rfl rfl hcalls (by decide) htable hends rfl⟩

end Request

end InlineExpr
