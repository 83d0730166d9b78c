import InlineExpr.Proofs.Indifference
import InlineExpr.Proofs.Whole

/-!
# Neighbouring spans

Two spans of a text are evaluated one after the other, and all that the first one hands on to the
second is the count of its separators: a function forgets the count, but a separator outside of any
call leaves it behind. So the second span has the outcome that it has alone if the first one leaves
no count, and under a registry with slices only then (`neighbours_independent_iff`).
-/

namespace InlineExpr

/-- The bodies of spans that hold no mark of a span or a reference. -/
def Span.IsBody (b : Text) : Prop :=
  b ≠ [] ∧ b.IsPlain ∧ '}' ∉ b

instance (b : Text) : Decidable (Span.IsBody b) :=
  inferInstanceAs (Decidable (_ ∧ _))

namespace Text

/-- Plain texts are those free of both marks. -/
lemma isPlain_iff_free {t : Text} : t.IsPlain ↔ t.Free ['#', '$'] := by
  simp [IsPlain, Free]

end Text

namespace Eval

variable {b b₁ b₂ : Text}

/-- The operands in a plain body stand for themselves. -/
lemma span_of_plain (h : b.IsPlain) (n : Nat) : span (text (n + 2)) b = span pure b := by
  have htokens : ∀ t ∈ tokenize b, text (n + 2) t = pure t := by
    intro t ht
    apply text_of_plain
    exact ⟨fun hm => h.1 (Text.mem_of_mem_tokenize ht hm),
      fun hm => h.2 (Text.mem_of_mem_tokenize ht hm)⟩
  rw [span, span, expression, expression, tokens_congr htokens]

/-- A span with a plain body has a plain replacement. -/
lemma plain_of_span {ctx ctx' : Context} {v : Text} (h : b.IsPlain)
    (hv : span pure b ctx = .value v ctx') : v.IsPlain := by
  have hmarks : Text.AreMarks ['#', '$'] := ⟨.head _, by simp⟩
  have hspan : Ensures (fun _ => True) (span pure b) (Text.Free ['#', '$']) := by
    apply Ensures.weaken (.span (perform_free hmarks) fun t ht => .pure ?_)
    · rintro t ⟨v, hv, rfl⟩ c hc
      exact Value.Avoids.asText (hv c hc)
    · intro c hc hm
      exact Text.isPlain_iff_free.1 h c hc (Text.mem_of_mem_tokenize ht hm)
  have hmeets := hspan ctx trivial
  rw [hv] at hmeets
  exact Text.isPlain_iff_free.2 hmeets.2

/-- A text that is one span has the outcome of the span. -/
lemma text_wrap (h : Span.IsBody b) (n : Nat) : text (n + 3) (Span.wrap b) = span pure b := by
  obtain ⟨hne, hplain, hclose⟩ := h
  rw [text_of_span (Span.find?_wrap hne hclose), span_of_plain hplain]
  funext ctx
  refine (bind_congr_of_value (g := pure) ?_).trans (congrFun (bind_pure _) ctx)
  intro v ctx' hv
  rw [List.nil_append, List.append_nil, text_of_plain (plain_of_span hplain hv)]

/-- Of two spans the second one is evaluated in the context that the first one leaves. -/
lemma text_wrap_wrap (h₁ : Span.IsBody b₁) (h₂ : Span.IsBody b₂) (n : Nat) :
    text (n + 4) (Span.wrap b₁ ++ Span.wrap b₂) =
      span pure b₁ >>= fun u => span pure b₂ >>= fun v => pure (u ++ v) := by
  obtain ⟨hne₁, hplain₁, hclose₁⟩ := h₁
  obtain ⟨hne₂, hplain₂, hclose₂⟩ := h₂
  rw [text_of_span (Span.find?_wrap_append hne₁ hclose₁ (Span.wrap b₂)), span_of_plain hplain₁]
  funext ctx
  apply bind_congr_of_value
  intro u ctx₁ hu
  have hu' := plain_of_span hplain₁ hu
  have hcut : Span.find? (u ++ Span.wrap b₂) = some ⟨u ++ [], b₂, []⟩ := by
    rw [Span.find?_append_of_not_mem hu'.1, Span.find?_wrap hne₂ hclose₂]
    rfl
  rw [List.nil_append, text_of_span hcut, span_of_plain hplain₂]
  apply bind_congr_of_value
  intro v ctx₂ hv
  rw [List.append_nil, List.append_nil, text_of_plain (hu'.append (plain_of_span hplain₂ hv))]

/-- Spans in which no constant is named change the count of separators at most. -/
lemma span_context {ctx ctx' : Context} {v : Text} (hv : span pure b ctx = .value v ctx') :
    ctx' = { ctx with separators := ctx'.separators } := by
  have hframe : IsFrame fun ctx ctx' : Context =>
      ctx' = { ctx with separators := ctx'.separators } :=
    ⟨fun _ => rfl, fun hab hbc => by rw [hbc, hab], fun _ _ => rfl⟩
  exact (Within.span hframe (fun t => .pure hframe t) b).of_value hv

/-- Under a registry without slices the separators that were counted before do not matter. -/
lemma span_alike {ctx : Context} (hreg : ctx.registry.contains .substring = false) (b : Text)
    (k : Nat) :
    (span pure b { ctx with separators := k }).result? = (span pure b ctx).result? := by
  rw [span, result?_mapError, result?_mapError, expression_alike hreg]

/-- A slice without operands tells how many separators were counted before. -/
lemma span_slice {ctx : Context} (hreg : ctx.registry.contains .substring = true) :
    (span pure Operator.substring.token ctx).result? =
      some (.error (if ctx.separators = 1 ∨ ctx.separators = 2 then .missingOperand .substring
        else .parameterCount .substring (ctx.separators + 1))) := by
  have htokens : tokenize Operator.substring.token = [Operator.substring.token] := by decide
  have hlookup : ctx.registry.lookup? Operator.substring.token = some .substring := by
    simp [Registry.lookup?, hreg]
  -- on empty stacks the slice waits as a call does, with the count as the context has it
  obtain ⟨table, registry, maxDepth, chain, depth, separators⟩ := ctx
  have hread : tokens pure .empty [Operator.substring.token]
      ⟨table, registry, maxDepth, chain, depth, separators⟩ =
      .value ⟨[⟨.substring, true⟩], ⟨[], separators⟩⟩
        ⟨table, registry, maxDepth, chain, depth, separators⟩ := by
    rw [tokens, bind_apply, token_apply, hlookup]
    rfl
  rw [span, result?_mapError, htokens, expression, bind_of_value hread]
  rcases separators with _ | _ | _ | n
  · rfl
  · rfl
  · rfl
  · rfl

end Eval

namespace Engine

open Eval

variable {engine : Engine} {table : Table} {b₁ b₂ u : Text} {ctx : Context}

/-- The limit on steps leaves four of them and more. -/
lemma exists_stepLimit : ∃ n, stepLimit = n + 4 :=
  Nat.exists_eq_add_of_le' (by decide)

/-- A text that is a single span is evaluated as that span. -/
lemma eval_wrap (h : Span.IsBody b₁) (table : Table) :
    engine.eval (Span.wrap b₁) table = span pure b₁ (engine.start table) := by
  obtain ⟨n, hn⟩ := exists_stepLimit
  rw [eval, hn, text_wrap h]

/-- Behind a span with a value, a span has the outcome that it has in the context the first one
leaves. -/
lemma eval_wrap_wrap (h₁ : Span.IsBody b₁) (h₂ : Span.IsBody b₂)
    (h : span pure b₁ (engine.start table) = .value u ctx) :
    (engine.eval (Span.wrap b₁ ++ Span.wrap b₂) table).result? =
      (span pure b₂ ctx).result?.map (Except.map (u ++ ·)) := by
  obtain ⟨n, hn⟩ := exists_stepLimit
  rw [eval, hn, text_wrap_wrap h₁ h₂, bind_of_value h, result?_bind_pure]

/-- Behind a span with a value every span has the outcome that it has alone if and only if the first
one leaves no separator counted, or no slice is registered that would look at the count. -/
theorem neighbours_independent_iff (h₁ : Span.IsBody b₁)
    (h : engine.eval (Span.wrap b₁) table = .value u ctx) :
    (∀ b₂, Span.IsBody b₂ → (engine.eval (Span.wrap b₁ ++ Span.wrap b₂) table).result? =
      (engine.eval (Span.wrap b₂) table).result?.map (Except.map (u ++ ·))) ↔
      ctx.separators = 0 ∨ engine.registry.contains .substring = false := by
  rw [eval_wrap h₁] at h
  have hctx := span_context h
  constructor
  · intro hall
    -- the slice without operands is the span that tells a count from none
    by_contra hnot
    obtain ⟨hsep, hreg⟩ := not_or.1 hnot
    rw [Bool.not_eq_false] at hreg
    have hslice : Span.IsBody Operator.substring.token := by decide
    have heq := hall _ hslice
    have hreg' : ctx.registry.contains .substring = true := by rw [hctx]; exact hreg
    rw [eval_wrap_wrap h₁ hslice h, eval_wrap hslice, span_slice hreg',
      @span_slice (engine.start table) hreg] at heq
    have herror : (if ctx.separators = 1 ∨ ctx.separators = 2 then .missingOperand .substring
        else .parameterCount .substring (ctx.separators + 1)) =
        EvalError.parameterCount .substring 1 := Except.error.inj (Option.some.inj heq)
    split at herror
    · cases herror
    · exact hsep (Nat.succ.inj (EvalError.parameterCount.inj herror).2)
  · intro hor b₂ h₂
    rw [eval_wrap_wrap h₁ h₂ h, eval_wrap h₂, hctx]
    congr 1
    rcases hor with hsep | hreg
    · rw [hsep]
      rfl
    · exact span_alike hreg b₂ ctx.separators

/-- A call forgets its separators, so every span may follow it. -/
theorem neighbours_independent_call :
    let b₁ := "substring(abc, 1)".toList
    Span.IsBody b₁ ∧
      Engine.eval {} (Span.wrap b₁) (.empty true) =
        .value "bc".toList (Engine.start {} (.empty true)) ∧
      ∀ b₂, Span.IsBody b₂ → (Engine.eval {} (Span.wrap b₁ ++ Span.wrap b₂) (.empty true)).result? =
        (Engine.eval {} (Span.wrap b₂) (.empty true)).result?.map
          (Except.map ("bc".toList ++ ·)) := by
  intro b₁
  have h₁ : Span.IsBody b₁ := by decide
  have h : Engine.eval {} (Span.wrap b₁) (.empty true) =
      .value "bc".toList (Engine.start {} (.empty true)) := by
    rw [eval_wrap h₁]
    decide +kernel
  exact ⟨h₁, h, (neighbours_independent_iff h₁ h).2 (.inl rfl)⟩

/-- The separator of `1 , 2` is counted for the slice in the next span. -/
theorem neighbours_dependent : ¬ ∀ (b₁ b₂ u : Text) (table : Table) (ctx : Context),
    Span.IsBody b₁ → Span.IsBody b₂ → Engine.eval {} (Span.wrap b₁) table = .value u ctx →
    (Engine.eval {} (Span.wrap b₁ ++ Span.wrap b₂) table).result? =
      (Engine.eval {} (Span.wrap b₂) table).result?.map (Except.map (u ++ ·)) := by
  intro hall
  have h₁ : Span.IsBody "1 , 2".toList := by decide
  have h₂ : Span.IsBody "substring(abc, 1)".toList := by decide
  have h : span pure "1 , 2".toList (Engine.start {} (.empty true)) =
      .value ['2'] { Engine.start {} (.empty true) with separators := 1 } := by
    decide +kernel
  have heq := hall _ _ _ (.empty true) _ h₁ h₂ ((eval_wrap h₁ _).trans h)
  rw [eval_wrap_wrap h₁ h₂ h, eval_wrap h₂] at heq
  exact absurd heq (by decide +kernel)

end Engine

end InlineExpr
