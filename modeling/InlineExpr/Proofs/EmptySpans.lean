import InlineExpr.Engine
import InlineExpr.Proofs.EmptyExpressions
import InlineExpr.Proofs.Spanless

/-!
# The span that an empty expression is blamed on

The error of an empty expression is raised where an expression has no value, and renamed by every
span around it. So it names the span that the evaluation came to outside of operands
(`Stage.ComesTo`), which need not be the one without a value. It is if no operand of it fails with
the error itself, for which it is enough that no constant's value can begin a span
(`Engine.blames_outermost`).
-/

namespace InlineExpr

/-- The tokens of the body are those of operators that compute nothing. -/
def Span.IsIdle (body : Text) : Prop :=
  ∀ u ∈ tokenize body, u ∈ Token.silent

instance : DecidablePred Span.IsIdle :=
  fun body => inferInstanceAs (Decidable (∀ u ∈ tokenize body, u ∈ Token.silent))

/-- What a reference is refused with is an error of references. -/
lemma Context.Refuses.ofReference {ctx : Context} {name : Text} {e : EvalError}
    (h : ctx.Refuses name e) : e.OfReference := by
  obtain ⟨-, rfl⟩ | henter := h
  · trivial
  · obtain ⟨-, rfl⟩ | ⟨-, -, rfl⟩ := Context.error_of_enter henter
    · trivial
    · trivial

namespace Stage

open Eval

variable {s : Stage} {body x : Text} {ctx c : Context} {n : Nat}

/-- The evaluation that the loop begins comes to the span with the body, which is no part of an
operand. -/
inductive ComesTo : Stage → Text → Context → Prop where
  | here {t cut ctx} : Span.find? t = some cut → ComesTo (.spans t ctx) cut.inner ctx
  | turn {s t body ctx} : Turn s t → ComesTo t body ctx → ComesTo s body ctx
  | constant {t cut ctx value inner body ctx'} : Reference.find? t = some cut →
    ctx.table.get? cut.inner = some value → ctx.enter cut.inner = .ok inner →
    ComesTo (.spans value inner) body ctx' → ComesTo (.references t ctx) body ctx'

/-- A span that is come to is the first one in a text that the loop reaches. -/
lemma ComesTo.reaches (h : s.ComesTo body ctx) :
    ∃ t cut, Reaches s (.spans t ctx) ∧ Span.find? t = some cut ∧ cut.inner = body := by
  induction h with
  | here hcut => exact ⟨_, _, .refl, hcut, rfl⟩
  | turn hturn _ ih =>
    obtain ⟨t, cut, hreach, hcut⟩ := ih
    exact ⟨t, cut, .head (.inl hturn) hreach, hcut⟩
  | constant hcut hget henter _ ih =>
    obtain ⟨t, cut, hreach, hcut'⟩ := ih
    exact ⟨t, cut, .head (.inr (.constant hcut hget henter)) hreach, hcut'⟩

/-- The operators are the same wherever a span is come to. -/
lemma ComesTo.registry (h : s.ComesTo body ctx) : ctx.registry = s.context.registry := by
  induction h with
  | here => rfl
  | turn hturn _ ih => exact ih.trans hturn.keeps.registry
  | constant _ _ henter _ ih =>
    obtain ⟨-, -, rfl⟩ := Context.eq_of_enter henter
    exact ih

/-- The error of an empty expression names a span that the loop comes to and that fails so. -/
lemma comesTo_of_error (h : s.run n = .error (.emptyExpression x) c) :
    ∃ body ctx m y c', m < n ∧ x = Span.wrap body ∧ s.ComesTo body ctx ∧
      expression (text m) (tokenize body) ctx = .error (.emptyExpression y) c' := by
  induction n generalizing s c with
  | zero =>
    rw [run_zero] at h
    cases h
  | succ n ih =>
    -- what fails one step down is the span itself, a turn of the loop or a constant
    have later {t : Stage} (hturn : ∀ {body ctx}, t.ComesTo body ctx → s.ComesTo body ctx)
        {c : Context} (h : t.run n = .error (.emptyExpression x) c) :
        ∃ body ctx m y c', m < n + 1 ∧ x = Span.wrap body ∧ s.ComesTo body ctx ∧
          expression (text m) (tokenize body) ctx = .error (.emptyExpression y) c' := by
      obtain ⟨body, ctx, m, y, c', hm, hx, hcomes, hempty⟩ := ih h
      exact ⟨body, ctx, m, y, c', Nat.lt_succ_of_lt hm, hx, hturn hcomes, hempty⟩
    cases s with
    | spans t ctx =>
      cases hcut : Span.find? t with
      | none =>
        rw [run, text_of_no_span hcut] at h
        exact later (t := .references t ctx) (.turn (.spanless hcut)) h
      | some cut =>
        rw [run, text_of_span hcut] at h
        obtain h | ⟨v, c', hv, h⟩ := error_of_bind h
        · obtain ⟨e, hempty, he⟩ := error_of_mapError h
          cases e with
          | emptyExpression y =>
            cases he
            exact ⟨cut.inner, ctx, n, y, c, Nat.lt_succ_self n, rfl, .here hcut, hempty⟩
          | _ => cases he
        · have hends := Outcome.value_ne_outOfSteps v c'
          exact later (t := .spans _ c') (.turn (.span hcut ⟨hends, n, hv⟩)) h
    | references t ctx =>
      cases hcut : Reference.find? t with
      | none =>
        rw [run, references_of_no_reference hcut] at h
        cases h
      | some cut =>
        rw [run, references_of_reference hcut] at h
        obtain h | ⟨v, c', hv, h⟩ := error_of_bind h
        · obtain ⟨hrefuses, -⟩ | ⟨value, inner, c', hget, henter, h, -⟩ := error_of_constant h
          · exact hrefuses.ofReference.elim
          · exact later (t := .spans value inner) (.constant hcut hget henter) h
        · have hends := Outcome.value_ne_outOfSteps v c'
          exact later (t := .references _ c') (.turn (.reference hcut ⟨hends, n, hv⟩)) h

/-- Where the error is raised, there is a span that computes nothing. -/
lemma reaches_idle (h : s.run n = .error (.emptyExpression x) c) :
    ∃ t cut ctx, Reaches s (.spans t ctx) ∧ Span.find? t = some cut ∧ Span.IsIdle cut.inner := by
  -- on the steps: an operand that fails so has fewer of them
  induction n using Nat.strongRecOn generalizing s x c with
  | ind n ih =>
    obtain ⟨body, ctx, m, y, c', hm, -, hcomes, hempty⟩ := comesTo_of_error h
    obtain ⟨t, cut, hreach, hcut, rfl⟩ := hcomes.reaches
    obtain hidle | ⟨u, ctx', hasks, hu⟩ := silent_or_asks_of_error hempty
    · exact ⟨t, cut, ctx, hreach, hcut, hidle⟩
    · obtain ⟨t', cut', ctx'', hreach', hidle⟩ := ih m hm (s := .spans u ctx') hu
      exact ⟨t', cut', ctx'', (hreach.tail (.inr (.operand hcut hasks))).trans hreach', hidle⟩

end Stage

/-- On a spanless table, operands are resolved on such a table. -/
lemma Eval.Asks.spanless_table {s : Stacks} {ts : List Text} {ctx c : Context} {u : Text}
    (h : Asks s ts ctx u c) (hctx : ctx.table.Spanless) : c.table.Spanless := by
  induction h with
  | here => exact hctx
  | @later s s' t ts ctx c u ctx' hends _ ih =>
    obtain ⟨-, n, hn⟩ := hends
    have htoken := Within.token Context.keepsSpanless_isFrame (text_keepsSpanless n) s t
    exact ih (htoken.of_value hn hctx)

namespace Stage

open Eval

variable {s t : Stage} {body : Text} {ctx : Context}

/-- A turn keeps a table without spans so. -/
lemma Turn.spanless_table (h : Turn s t) (hs : s.context.table.Spanless) :
    t.context.table.Spanless := by
  cases h with
  | spanless _ => exact hs
  | span _ hv =>
    obtain ⟨-, n, hn⟩ := hv
    have hspan := Within.span Context.keepsSpanless_isFrame (text_keepsSpanless n)
    exact (hspan _).of_value hn hs
  | reference _ hv =>
    obtain ⟨-, n, hn⟩ := hv
    exact (constant_spanless n _).within.of_value hn hs

/-- A table without spans is so still where a span is come to. -/
lemma ComesTo.spanless_table (h : s.ComesTo body ctx) (hs : s.context.table.Spanless) :
    ctx.table.Spanless := by
  induction h with
  | here => exact hs
  | turn hturn _ ih => exact ih (hturn.spanless_table hs)
  | constant _ _ henter _ ih =>
    obtain ⟨-, -, rfl⟩ := Context.eq_of_enter henter
    exact ih hs

/-- On a spanless table, references come to no span, and a text does so only if it can begin one. -/
lemma not_comesTo (hs : s.context.table.Spanless) (ht : ∀ t ctx, s = .spans t ctx → '#' ∉ t) :
    ¬ s.ComesTo body ctx := by
  have no_span {t : Text} {cut : Cut} (ht : '#' ∉ t) (hcut : Span.find? t = some cut) : False := by
    rw [Span.find?_eq_none_of_not_mem ht] at hcut
    cases hcut
  intro h
  induction h with
  | here hcut => exact no_span (ht _ _ rfl) hcut
  | turn hturn _ ih =>
    refine ih (hturn.spanless_table hs) fun u ctx hu => ?_
    subst hu
    obtain ⟨hcut, -⟩ := hturn
    exact (no_span (ht _ _ rfl) hcut).elim
  | constant _ hget henter _ ih =>
    obtain ⟨-, -, rfl⟩ := Context.eq_of_enter henter
    refine ih hs fun u ctx hu => ?_
    cases hu
    exact hs _ _ hget

end Stage

/-- On a spanless table, no operand of a span fails as an empty expression. -/
lemma Eval.not_asksEmpty_of_spanless {t : Text} {cut : Cut} {ctx : Context}
    (hcut : Span.find? t = some cut) (hctx : ctx.table.Spanless) :
    ¬ AsksEmpty (tokenize cut.inner) ctx := by
  rintro ⟨u, ctx', y, c, hasks, -, n, hn⟩
  have hctx' : ctx'.table.Spanless := hasks.spanless_table hctx
  cases n with
  | zero =>
    dsimp only at hn
    rw [text] at hn
    cases hn
  | succ n =>
    dsimp only at hn
    rw [text_of_no_span (Span.spanless_of_mem_tokenize hcut hasks.mem)] at hn
    have hrun : (Stage.references u ctx').run n = .error (.emptyExpression y) c := hn
    obtain ⟨body, ctx'', m, y', c', -, -, hcomes, -⟩ := Stage.comesTo_of_error hrun
    refine Stage.not_comesTo (s := .references u ctx') hctx' (fun t d h => ?_) hcomes
    cases h

namespace Engine

open Eval (AsksEmpty)

/-- The error of an empty expression names a span that the evaluation comes to outside of operands.
That span computes nothing exactly when no operand of it fails with the error itself, as on a table
in which no value can begin a span; some span that the evaluation comes to computes nothing in any
case. -/
theorem blames_outermost {engine : Engine} {t x : Text} {table : Table} {c : Context}
    (hreg : engine.registry = .standard)
    (h : engine.Ends t table (.error (.emptyExpression x) c)) :
    ∃ body ctx, x = Span.wrap body ∧ (Stage.spans t (engine.start table)).ComesTo body ctx ∧
      (Span.IsIdle body ↔ ¬ AsksEmpty (tokenize body) ctx) ∧
      (table.Spanless → Span.IsIdle body) ∧
      ∃ t' cut ctx', Stage.Reaches (.spans t (engine.start table)) (.spans t' ctx') ∧
        Span.find? t' = some cut ∧ Span.IsIdle cut.inner := by
  obtain ⟨-, n, hn⟩ := h
  have hrun : (Stage.spans t (engine.start table)).run n = .error (.emptyExpression x) c := hn
  obtain ⟨body, ctx, m, y, c', -, hx, hcomes, hempty⟩ := Stage.comesTo_of_error hrun
  have hreg' : ctx.registry = .standard := hcomes.registry.trans hreg
  have hiff := Eval.silent_iff_of_error hreg' hempty
  obtain ⟨t', cut, -, hcut, rfl⟩ := hcomes.reaches
  refine ⟨cut.inner, ctx, hx, hcomes, hiff, fun htable => ?_, Stage.reaches_idle hrun⟩
  exact hiff.2 (Eval.not_asksEmpty_of_spanless hcut (hcomes.spanless_table htable))

/-- A span of separators, behind one whose value is no span. -/
theorem blames_outermost_separators :
    let table := (Table.empty true).insert ['A'] "1".toList
    let x := Span.wrap "( , ".toList
    table.Spanless ∧
      Engine.Ends {} ("#{1 + $CONSTANTS.A$} ".toList ++ x) table
        (.error (.emptyExpression x) { Engine.start {} table with separators := 1 }) ∧
      Span.IsIdle (Span.body x) := by
  intro table x
  have hends : Engine.Ends {} ("#{1 + $CONSTANTS.A$} ".toList ++ x) table
      (.error (.emptyExpression x) { Engine.start {} table with separators := 1 }) :=
    ⟨nofun, 6, by decide +kernel⟩
  have htable : table.Spanless := Table.Spanless.insert (fun _ _ h => nomatch h) (by decide)
  obtain ⟨body, ctx, hx, -, -, hidle, -⟩ := blames_outermost rfl hends
  refine ⟨htable, hends, ?_⟩
  rw [hx, Span.body_wrap]
  exact hidle htable

/-- The empty span is the value of a constant, and the span with the constant for an operand is
blamed. -/
theorem not_blames_empty : ¬ ∀ (t x : Text) (table : Table) (c : Context),
    Engine.Ends {} t table (.error (.emptyExpression x) c) → Span.IsIdle (Span.body x) := by
  intro h
  have hends : Engine.Ends {} "#{1 + $CONSTANTS.A$}".toList
      ((Table.empty true).insert ['A'] "#{ }".toList)
      (.error (.emptyExpression "#{1 + $CONSTANTS.A$}".toList)
        (Engine.start {} ((Table.empty true).insert ['A'] "#{ }".toList))) :=
    ⟨nofun, 6, by decide +kernel⟩
  exact absurd (h _ _ _ _ hends) (by decide)

end Engine

end InlineExpr
