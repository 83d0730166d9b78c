import InlineExpr.Proofs.Layouts
import InlineExpr.Proofs.Places
import InlineExpr.Proofs.Simulation
import InlineExpr.Proofs.TreeValue

/-!
# Constants as subexpressions

A constant whose value is a span may stand for the subexpression that the span holds: the whole
expression has the same result, or the same error (`Engine.subexpression_constant`).

Both expressions have the outcomes of their trees, and the trees differ in one operand alone, whose
value is like that of the subexpression. The tree of the second one says what its tokens come to if
the constant is known beforehand (`Eval.foretell`). That the constant is resolved where its token is
read, and that the table takes its value in, makes no difference to this (`foretell_follows`).
-/

namespace InlineExpr

/-- What an operand stands for if it stands for itself. -/
def Operand.verbatim (a : Operand) : Except EvalError Text :=
  .ok a.token

namespace Eval

variable {resolve : Text → Eval Text} {read : Operand → Except EvalError Text} {e : Expr}
  {b : Text} {ctx : Context}

/-- An error of an operator is not renamed by the span around it. -/
lemma blameSpan_of_operator {x : EvalError} (h : x.OfOperator) (b : Text) : blameSpan b x = x := by
  cases x with
  | emptyExpression t => exact h.elim
  | _ => rfl

/-- A span has the outcome of the tree that its tokens write down, if operators alone may fail. -/
lemma span_tree (hr : ∀ t, Within Context.Keeps (resolve t)) (hreg : ctx.registry = .standard)
    (hsep : ctx.separators = 0) (hfits : e.Fits 1) (hreads : Reads resolve read ctx e.operands)
    (hfails : AgreeOn read read e.operands) (hb : tokenize b = e.tokens) :
    span resolve b ctx = ofExcept ((e.eval read).map Value.asText) ctx := by
  rw [span, mapError, hb, expression_tree hr hreg hsep hfits hreads]
  have herror := e.eval_agree hfails
  cases hx : e.eval read with
  | ok v => rfl
  | error x =>
    rw [hx] at herror
    exact congrArg (Outcome.error · ctx) (blameSpan_of_operator herror.2 b)

/-- A span of literal operands has the outcome of its tree. -/
lemma span_of_literal (hreg : ctx.registry = .standard) (hsep : ctx.separators = 0)
    (hfits : e.Fits 1) (h : ∀ a ∈ e.operands, a.IsLiteral) (hb : tokenize b = e.tokens) :
    span pure b ctx = ofExcept ((e.eval Operand.verbatim).map Value.asText) ctx :=
  span_tree (fun t => .pure Context.keeps_isFrame t) hreg hsep hfits
    (fun a ha => ⟨lookup?_of_not_operator (h a ha).token.2.2 _, rfl⟩) (fun _ _ => rfl) hb

section Foretelling

variable {name body t : Text} {x : Except EvalError Text} {c d : Context}

/-- What a token comes to if the constant is known to come to `x`. -/
def foretold (name : Text) (x : Except EvalError Text) (t : Text) : Except EvalError Text :=
  if t = Reference.wrap name then x else .ok t

/-- The resolver that knows beforehand what the constant comes to where no separator is counted. -/
def foretell (name : Text) (x : Except EvalError Text) (t : Text) : Eval Text :=
  fun ctx => if ctx.separators = 0 then ofExcept (foretold name x t) ctx else .outOfSteps

/-- No constant is being resolved in the second context, and there the constant in question still
has its span, or already what the span comes to. -/
structure Pending (name body : Text) (x : Except EvalError Text) (c d : Context) : Prop where
  registry : d.registry = c.registry
  standard : c.registry = .standard
  separators : d.separators = c.separators
  chain : d.chain = []
  depth : d.depth < d.maxDepth
  entry : d.table.get? name = some (Span.wrap body) ∨ ∃ v, x = .ok v ∧ d.table.get? name = some v

/-- The stacks do the same in both contexts. -/
lemma Pending.isCoupling : IsCoupling (Pending name body x) fun _ => True where
  registry h := h.registry
  separators h := ⟨h.separators, trivial⟩
  recount h _ := ⟨h.registry, h.standard, rfl, h.chain, h.depth, h.entry⟩

/-- Once the constant has taken in its value, it has what its span came to. -/
lemma Pending.define {v : Text} (h : Pending name body (.ok v) c d) :
    Pending name body (.ok v) c (d.define name v) where
  registry := h.registry
  standard := h.standard
  separators := h.separators
  chain := h.chain
  depth := h.depth
  entry := .inr ⟨v, rfl, by simp [Context.define]⟩

/-- A plain token is told to stand for itself. -/
lemma foretold_of_plain (h : t.IsPlain) : foretold name x t = .ok t := by
  apply if_neg
  rintro rfl
  rw [← List.append_nil (Reference.wrap name), Reference.wrap_append_eq_cons] at h
  exact h.2 (.head _)

/-- Telling beforehand moves no context. -/
lemma foretell_keeps (t : Text) : Within Context.Keeps (foretell name x t) := by
  intro ctx ctx' h
  rw [foretell] at h
  split at h
  · cases hx : foretold name x t with
    | ok v =>
      rw [hx] at h
      cases h
      exact .refl ctx
    | error e =>
      rw [hx] at h
      cases h
      exact .refl ctx
  · cases h

section Trees

variable {place : Expr.Place} {s : Expr}

/-- The tree of an expression agrees with itself. -/
lemma eval_verbatim (e : Expr) :
    Agree Value.Alike (e.eval Operand.verbatim) (e.eval Operand.verbatim) :=
  e.eval_agree fun _ _ => rfl

variable (h : ∀ a ∈ (place.fill s).operands, a.IsLiteral)

include h

/-- The operands of the subexpression are among those of the whole one, and literal. -/
lemma literal_of_fill : ∀ a ∈ s.operands, a.IsLiteral := by
  obtain ⟨before, after, hoperands⟩ := place.exists_operands
  intro a ha
  apply h
  rw [hoperands]
  exact List.mem_append_left _ (List.mem_append_right _ ha)

/-- The operands with the constant instead of the subexpression are literal but for the constant. -/
lemma operands_fill_constant {a : Operand}
    (ha : a ∈ (place.fill (.operand (.constant name))).operands) :
    a.IsLiteral ∨ a = .constant name := by
  obtain ⟨before, after, hoperands⟩ := place.exists_operands
  simp only [hoperands, List.mem_append] at h ha
  rcases ha with (ha | ha) | ha
  · exact .inl (h a (.inl (.inl ha)))
  · exact .inr (List.mem_singleton.1 ha)
  · exact .inl (h a (.inr ha))

variable (hx : (s.eval Operand.verbatim).map Value.asText = x)

include hx

/-- Where the constant is known to come to what the subexpression comes to, only operators fail. -/
lemma foretold_agree : AgreeOn (foretold name x ·.token) (foretold name x ·.token)
    (place.fill (.operand (.constant name))).operands := by
  intro a ha
  change Agree Eq (foretold name x a.token) (foretold name x a.token)
  rcases operands_fill_constant h ha with hliteral | rfl
  · rw [foretold_of_plain hliteral.token.1]
    rfl
  · rw [Operand.token, foretold, if_pos rfl, ← hx]
    exact (eval_verbatim s).map fun _ _ hv => hv.asText

/-- The tree that has the constant instead of the subexpression has the same outcome. -/
lemma eval_foretold :
    ((place.fill s).eval Operand.verbatim).map Value.asText =
      ((place.fill (.operand (.constant name))).eval (foretold name x ·.token)).map
        Value.asText := by
  have hothers : AgreeOn Operand.verbatim (foretold name x ·.token) (place.fill s).operands := by
    intro a ha
    change Agree Eq (.ok a.token) (foretold name x a.token)
    rw [foretold_of_plain (h a ha).token.1]
    rfl
  have hvalue : Agree Value.Alike (s.eval Operand.verbatim)
      (Expr.eval (foretold name x ·.token) (.operand (.constant name))) := by
    have hself := eval_verbatim s
    rw [Expr.eval, Operand.token, foretold, if_pos rfl, ← hx]
    cases hv : s.eval Operand.verbatim with
    | ok v => exact v.alike_text
    | error e =>
      rw [hv] at hself
      exact hself
  exact ((place.eval_fill hvalue hothers).map fun _ _ hv => hv.asText).eq

end Trees

variable (hbody : Span.IsBody body)
  (hspan : ∀ ctx : Context, ctx.registry = .standard → ctx.separators = 0 →
    span pure body ctx = ofExcept x ctx)

include hbody hspan

/-- What the constant comes to is plain text. -/
lemma plain_of_foretold {v : Text} (hx : x = .ok v) : v.IsPlain := by
  have hvalue := hspan (.fresh (.empty true) .standard 1) rfl rfl
  rw [hx] at hvalue
  exact plain_of_span hbody.2.1 hvalue

/-- The constant comes to what is foretold, whether it is resolved for the first time or again. -/
lemma constant_follows (h : Pending name body x c d) (hsep : c.separators = 0) (n : Nat) :
    (ofExcept x c).Followed (Pending name body x) True (fun _ => True)
      (constant (text (n + 3)) name d) := by
  have hchain : name ∉ d.chain := by
    rw [h.chain]
    exact List.not_mem_nil
  rcases h.entry with hentry | ⟨v, rfl, hentry⟩
  · have hvalue := hspan (d.entered name) (h.registry.trans h.standard) (h.separators.trans hsep)
    rw [← text_wrap hbody n] at hvalue
    cases x with
    | error e =>
      rw [constant_of_entered hentry (Context.enter_of_lt h.depth hchain), hvalue]
      exact fun _ => ⟨_, rfl⟩
    | ok v => exact ⟨_, constant_of_resolved hentry h.depth hchain hvalue, h.define, trivial⟩
  · have hv := plain_of_foretold hbody hspan rfl
    exact ⟨_, constant_of_resolved hentry h.depth hchain (by rw [text_of_plain hv]; rfl), h.define,
      trivial⟩

/-- The tokens come to what is foretold, with the constant resolved where it is met. -/
lemma foretell_follows (hname : Reference.IsName name) (ht : t.IsPlain ∨ t = Reference.wrap name)
    (n : Nat) : Follows (Pending name body x) True (fun _ => True) (foretell name x t)
      (text (n + 5) t) := by
  intro c d h
  rw [foretell]
  by_cases hsep : c.separators = 0
  · rw [if_pos hsep]
    rcases ht with ht | rfl
    · rw [foretold_of_plain ht, text_of_plain ht]
      exact ⟨d, rfl, h, trivial⟩
    · have hfind := Reference.find?_wrap_append hname []
      rw [List.append_nil] at hfind
      have hconstant := constant_follows hbody hspan h hsep n
      rw [foretold, if_pos rfl,
        text_of_no_span (Span.find?_eq_none_of_not_mem (Reference.sharp_not_mem_wrap hname)),
        references_of_reference hfind]
      cases x with
      | error e =>
        intro _
        obtain ⟨d', hd'⟩ := hconstant trivial
        exact ⟨d', bind_of_error hd' _⟩
      | ok v =>
        have hv := plain_of_foretold hbody hspan rfl
        obtain ⟨d', hd', h', -⟩ := hconstant
        rw [bind_of_value hd', List.nil_append, List.append_nil,
          references_of_no_reference (Reference.find?_eq_none_of_not_mem hv.2)]
        exact ⟨d', rfl, h', trivial⟩
  · rw [if_neg hsep]
    trivial

/-- The span with the constant comes to what its tree comes to, with the constant resolved where it
is met. -/
lemma span_of_foretold {place : Expr.Place} {s : Expr} {b' : Text}
    (h : ∀ a ∈ (place.fill s).operands, a.IsLiteral) (hfits : (place.fill s).Fits 1)
    (hx : (s.eval Operand.verbatim).map Value.asText = x)
    (hname : Reference.IsName name)
    (hb' : tokenize b' = (place.fill (.operand (.constant name))).tokens)
    (hd : Pending name body x d d) (hsep : d.separators = 0) (n : Nat) :
    (ofExcept (((place.fill s).eval Operand.verbatim).map Value.asText) d).Followed
      (Pending name body x) True (fun _ => True) (span (text (n + 5)) b' d) := by
  have hreads : Reads (foretell name x) (foretold name x ·.token) d
      (place.fill (.operand (.constant name))).operands := by
    intro a ha
    refine ⟨lookup?_of_not_operator ?_ _, if_pos hsep⟩
    rcases operands_fill_constant h ha with hliteral | rfl
    · exact hliteral.token.2.2
    · exact ofToken?_wrap name
  have htokens : ∀ t ∈ tokenize b', t.IsPlain ∨ t = Reference.wrap name := by
    intro t ht
    rw [hb'] at ht
    apply Expr.of_mem_tokens (P := fun t => t.IsPlain ∨ t = Reference.wrap name) _ _ _ ht
    · exact fun op => .inl op.token_plain.1
    · intro a ha
      rcases operands_fill_constant h ha with hliteral | rfl
      · exact .inl hliteral.token.1
      · exact .inr rfl
  rw [eval_foretold h hx, ← span_tree foretell_keeps hd.standard hsep
    (place.fits_fill _ hfits) hreads (foretold_agree h hx) hb']
  have hfollows : Follows (Pending name body x) True (fun _ => True)
      (span (foretell name x) b') (span (text (n + 5)) b') :=
    .span (A := fun _ => True) Pending.isCoupling (fun _ _ _ _ => trivial)
      (fun _ _ _ _ => trivial) fun t ht => foretell_follows hbody hspan hname (htokens t ht) n
  exact hfollows d d hd

end Foretelling

end Eval

namespace Engine

open Eval

variable {engine : Engine} {table : Table} {place : Expr.Place} {s : Expr}
  {name body b b' : Text}

/-- A constant that has a subexpression as its span may take the place of the subexpression: both
expressions have the same result, or the same error. -/
theorem subexpression_constant (hreg : engine.registry = .standard) (hdepth : 1 ≤ engine.maxDepth)
    (hfits : (place.fill s).Fits 1) (hliteral : ∀ a ∈ (place.fill s).operands, a.IsLiteral)
    (hname : Reference.IsName name) (hentry : table.get? name = some (Span.wrap body))
    (hbody : tokenize body = s.tokens) (hb : tokenize b = (place.fill s).tokens)
    (hb' : tokenize b' = (place.fill (.operand (.constant name))).tokens) :
    ∃ r, (engine.eval (Span.wrap b) table).result? = some r ∧
      (engine.eval (Span.wrap b') table).result? = some r := by
  -- what the subexpression comes to is foretold for the constant
  obtain ⟨x, hx⟩ : ∃ x, (s.eval Operand.verbatim).map Value.asText = x := ⟨_, rfl⟩
  have hs := literal_of_fill hliteral
  have hsbody := Expr.isBody_layout hbody hs
  have hspan : ∀ ctx : Context, ctx.registry = .standard → ctx.separators = 0 →
      span pure body ctx = ofExcept x ctx := by
    intro ctx hreg hsep
    rw [← hx]
    exact span_of_literal hreg hsep (place.fits_of_fill (Nat.le_refl 1) hfits) hs hbody
  have hstart : Pending name body x (engine.start table) (engine.start table) :=
    ⟨rfl, hreg, rfl, rfl, hdepth, .inl hentry⟩
  have hclose : '}' ∉ b' := by
    apply Expr.not_mem_layout hb' rfl fun op => op.token_plain.2
    intro a ha
    rcases operands_fill_constant hliteral ha with ha | rfl
    · exact ha.token.2.1
    · exact Reference.not_mem_wrap hname (by decide) (by decide)
  obtain ⟨n, hn⟩ := Nat.exists_eq_add_of_le' (show 6 ≤ stepLimit by decide)
  have hbbody := Expr.isBody_layout hb hliteral
  have hfirst : span pure b (engine.start table) = _ := span_of_literal hreg rfl hfits hliteral hb
  have hsecond := span_of_foretold hsbody hspan hliteral hfits hx hname hb' hstart rfl n
  refine ⟨((place.fill s).eval Operand.verbatim).map Value.asText, ?_, ?_⟩
  · rw [eval_wrap hbbody, hfirst]
    cases (place.fill s).eval Operand.verbatim with
    | ok v => rfl
    | error e => rfl
  · rw [eval, hn, text_of_span (Span.find?_wrap (Expr.layout_ne_nil hb') hclose)]
    cases hv : ((place.fill s).eval Operand.verbatim).map Value.asText with
    | ok v =>
      rw [hv] at hfirst hsecond
      obtain ⟨d, hd, -, -⟩ := hsecond
      rw [bind_of_value hd, List.nil_append, List.append_nil,
        text_of_plain (plain_of_span hbbody.2.1 hfirst)]
      rfl
    | error e =>
      rw [hv] at hsecond
      obtain ⟨d, hd⟩ := hsecond trivial
      rw [bind_of_error hd]
      rfl

/-- `substring ( … ? hello : x , 1 )`, with the predicate left open. -/
def chosen : Expr.Place :=
  .argument .substring (.head
    (.predicate .here (.operand (.text "hello".toList)) (.operand (.text ['x'])))
    (.last (.operand (.text ['1']))))

/-- `startsWith ( hello , he )` -/
def prefixed : Expr :=
  .call .startsWith (.more (.operand (.text "hello".toList))
    (.last (.operand (.text "he".toList))))

/-- A truth value passes through the constant as a word, and its call has a separator of its own
inside of another call. -/
theorem subexpression_constant_predicate :
    let body := "startsWith(hello, he)".toList
    let b := "substring(startsWith(hello, he) ? hello : x, 1)".toList
    let b' := "substring($CONSTANTS.X$ ? hello : x, 1)".toList
    let table := (Table.empty true).insert ['X'] (Span.wrap body)
    (Engine.registry {} = .standard ∧ 1 ≤ Engine.maxDepth {} ∧ (chosen.fill prefixed).Fits 1 ∧
      (∀ a ∈ (chosen.fill prefixed).operands, a.IsLiteral) ∧ Reference.IsName ['X'] ∧
      table.get? ['X'] = some (Span.wrap body) ∧ tokenize body = prefixed.tokens ∧
      tokenize b = (chosen.fill prefixed).tokens ∧
      tokenize b' = (chosen.fill (.operand (.constant ['X']))).tokens) ∧
    (Engine.eval {} (Span.wrap b) table).result? = some (.ok "ello".toList) ∧
    (Engine.eval {} (Span.wrap b') table).result? = some (.ok "ello".toList) := by
  intro body b b' table
  have hfits : (chosen.fill prefixed).Fits 1 := by
    simp [chosen, prefixed, Expr.Place.fill, Args.Place.fill, Expr.Fits, Args.Fit, Args.size,
      Args.separators, Operator.kind, Operator.Takes]
  have hliteral : ∀ a ∈ (chosen.fill prefixed).operands, a.IsLiteral := by decide
  have hname : Reference.IsName ['X'] := by decide
  have hentry : table.get? ['X'] = some (Span.wrap body) := by decide
  have hbody : tokenize body = prefixed.tokens := by decide
  have hb : tokenize b = (chosen.fill prefixed).tokens := by decide
  have hb' : tokenize b' = (chosen.fill (.operand (.constant ['X']))).tokens := by decide
  have hvalue : (Engine.eval {} (Span.wrap b) table).result? = some (.ok "ello".toList) := by
    rw [eval_wrap (by decide)]
    decide +kernel
  have hsame : ∃ r, (Engine.eval {} (Span.wrap b) table).result? = some r ∧
      (Engine.eval {} (Span.wrap b') table).result? = some r :=
    subexpression_constant rfl (by decide) hfits hliteral hname hentry hbody hb hb'
  obtain ⟨r, hr, hr'⟩ := hsame
  rw [hvalue] at hr
  exact ⟨⟨rfl, by decide, hfits, hliteral, hname, hentry, hbody, hb, hb'⟩, hvalue,
    hr'.trans hr.symm⟩

end Engine

end InlineExpr
