import InlineExpr.Proofs.Frame
import InlineExpr.Proofs.Tokens
import Mathlib.Logic.Relation

/-!
# When evaluations end

An evaluation consists of loops that rewrite a text, one for its spans and one for its references
(`Stage`). A turn of a loop replaces the first piece; on the way it calls for the evaluation of
other texts, the operands of the span or the value of the constant. The limits on the nesting of
constants bound these calls but not the turns: an evaluation ends if and only if none of the loops
that it comes to can be turned for ever (`Stage.halts_iff`).
-/

namespace InlineExpr

namespace Eval

variable {α β : Type}

section Steadiness

/-- More steps for the references of a token never change what it does once it ends. -/
lemma token_steady (s : Stacks) (t : Text) : Steady fun n => token (text n) s t :=
  fun h => .token (text_of_le h) s t

/-- More steps for the references never change what a row of tokens does once it ends. -/
lemma tokens_steady (s : Stacks) (ts : List Text) : Steady fun n => tokens (text n) s ts :=
  fun h => .tokens (text_of_le h) s ts

/-- More steps never change the replacement of a span once it ends. -/
lemma span_steady (body : Text) : Steady fun n => span (text n) body :=
  fun h => .span (text_of_le h) body

/-- More steps never change the value of a constant once it ends. -/
lemma constant_steady (name : Text) : Steady fun n => constant (text n) name :=
  fun h => .constant (text_of_le h) name

end Steadiness

/-- With enough steps the evaluation ends. -/
def Halts (x : Nat → Eval α) (ctx : Context) : Prop :=
  ∃ n, x n ctx ≠ .outOfSteps

/-- Having an outcome and having steps enough are the same. -/
lemma exists_ends_iff_halts {x : Nat → Eval α} {ctx : Context} :
    (∃ o, Ends x ctx o) ↔ Halts x ctx := by
  constructor
  · rintro ⟨o, ho, n, rfl⟩
    exact ⟨n, ho⟩
  · rintro ⟨n, hn⟩
    exact ⟨x n ctx, hn, n, rfl⟩

/-- From some number of steps on, every number gives the outcome. -/
lemma Ends.eq_of_le {x : Nat → Eval α} {ctx o} (steady : Steady x) (h : Ends x ctx o) :
    ∃ m, ∀ n, m ≤ n → x n ctx = o := by
  obtain ⟨ho, m, rfl⟩ := h
  exact ⟨m, fun n hn => steady hn ctx ho⟩

/-- After a first part with a result, an evaluation in two parts ends as the second part does. -/
lemma Ends.bind {x : Nat → Eval α} {f : Nat → α → Eval β} {ctx c : Context} {a : α}
    {o : Outcome β} (steady : Steady x) (steady' : Steady fun n => f n a)
    (hx : Ends x ctx (.value a c)) (hf : Ends (fun n => f n a) c o) :
    Ends (fun n => x n >>= f n) ctx o := by
  obtain ⟨m, hm⟩ := hx.eq_of_le steady
  obtain ⟨k, hk⟩ := hf.eq_of_le steady'
  -- the steps that both parts have enough of
  refine ⟨hf.1, max m k, ?_⟩
  dsimp only
  rw [bind_of_value (hm _ (Nat.le_max_left m k)), hk _ (Nat.le_max_right m k)]

/-- An evaluation in two parts ends with the error of the first part. -/
lemma Ends.bind_error {x : Nat → Eval α} {f : Nat → α → Eval β} {ctx c : Context} {e : EvalError}
    (h : Ends x ctx (.error e c)) : Ends (fun n => x n >>= f n) ctx (.error e c) := by
  obtain ⟨-, n, hn⟩ := h
  exact ⟨Outcome.error_ne_outOfSteps e c, n, bind_of_error hn (f n)⟩

/-- An evaluation in two parts ends if the first part does and the second one does after it. -/
lemma halts_bind {x : Nat → Eval α} {f : Nat → α → Eval β} {ctx : Context}
    (steady : Steady x) (steady' : ∀ a, Steady fun n => f n a) (hx : Halts x ctx)
    (hf : ∀ a c, Ends x ctx (.value a c) → Halts (fun n => f n a) c) :
    Halts (fun n => x n >>= f n) ctx := by
  obtain ⟨o, ho⟩ := exists_ends_iff_halts.2 hx
  cases o with
  | value a c =>
    obtain ⟨o', ho'⟩ := exists_ends_iff_halts.2 (hf a c ho)
    exact exists_ends_iff_halts.1 ⟨o', ho.bind steady (steady' a) ho'⟩
  | error e c => exact exists_ends_iff_halts.1 ⟨.error e c, ho.bind_error⟩
  | outOfSteps => exact absurd rfl ho.1

/-- Work on the stacks costs no steps. -/
lemma onStacks_ne_outOfSteps (f : Stacks → Except EvalError Unit × Stacks) (s : Stacks)
    (ctx : Context) : onStacks f s ctx ≠ .outOfSteps := by
  rw [onStacks]
  cases f { s with operands := { s.operands with separators := ctx.separators } } with
  | mk x s' =>
    cases x with
    | ok _ => exact Outcome.value_ne_outOfSteps s' _
    | error e => exact Outcome.error_ne_outOfSteps e _

/-- The text `u` is resolved in the context `ctx'` when tokens are read on some stacks. -/
inductive Asks : Stacks → List Text → Context → Text → Context → Prop where
  | here {s t ts ctx} : ctx.registry.lookup? t = none → Asks s (t :: ts) ctx t ctx
  | later {s s' t ts ctx c u ctx'} : Ends (fun n => token (text n) s t) ctx (.value s' c) →
    Asks s' ts c u ctx' → Asks s (t :: ts) ctx u ctx'

/-- Tokens are read to the end if every text that is asked for is evaluated to the end. -/
lemma tokens_halts {s : Stacks} {ts : List Text} {ctx : Context}
    (h : ∀ u ctx', Asks s ts ctx u ctx' → Halts (text · u) ctx') :
    Halts (fun n => tokens (text n) s ts) ctx := by
  induction ts generalizing s ctx with
  | nil => exact ⟨0, Outcome.value_ne_outOfSteps s ctx⟩
  | cons t ts ih =>
    apply halts_bind (token_steady s t) (fun s' => tokens_steady s' ts)
    · cases hop : ctx.registry.lookup? t with
      | none =>
        obtain ⟨n, hn⟩ := h t ctx (.here hop)
        refine ⟨n, ?_⟩
        dsimp only
        rw [token_apply, hop]
        exact bind_ne_outOfSteps hn fun v c _ => Outcome.value_ne_outOfSteps _ c
      | some op =>
        refine ⟨0, ?_⟩
        dsimp only
        rw [token_apply, hop]
        exact onStacks_ne_outOfSteps _ s ctx
    · intro s' c hs'
      exact ih fun u ctx' hu => h u ctx' (.later hs' hu)

/-- A span is evaluated to the end if every operand that is asked for is. -/
lemma span_halts {body : Text} {ctx : Context}
    (h : ∀ u ctx', Asks .empty (tokenize body) ctx u ctx' → Halts (text · u) ctx') :
    Halts (fun n => span (text n) body) ctx := by
  have hexpression : Halts (fun n => expression (text n) (tokenize body)) ctx := by
    apply halts_bind (tokens_steady .empty _) (fun _ _ _ _ => .refl _) (tokens_halts h)
    intro s c _
    refine ⟨0, bind_ne_outOfSteps (onStacks_ne_outOfSteps _ s c) ?_⟩
    intro s' c' _
    cases s'.operands.values with
    | nil => exact Outcome.error_ne_outOfSteps _ c'
    | cons v _ => exact Outcome.value_ne_outOfSteps _ c'
  obtain ⟨n, hn⟩ := hexpression
  exact ⟨n, mapError_ne_outOfSteps hn _⟩

/-- A constant is resolved to the end if its value is, when it may be entered. -/
lemma constant_halts {name : Text} {ctx : Context}
    (h : ∀ value ctx', ctx.table.get? name = some value → ctx.enter name = .ok ctx' →
      Halts (text · value) ctx') : Halts (fun n => constant (text n) name) ctx := by
  cases hv : ctx.table.get? name with
  | none =>
    refine ⟨0, ?_⟩
    dsimp only
    rw [constant_apply, hv]
    exact Outcome.error_ne_outOfSteps _ ctx
  | some value =>
    cases hctx : ctx.enter name with
    | error e =>
      refine ⟨0, ?_⟩
      dsimp only
      rw [constant_apply, hv]
      dsimp only
      rw [bind_apply, enter, hctx]
      exact Outcome.error_ne_outOfSteps e ctx
    | ok inner =>
      obtain ⟨n, hn⟩ := h value inner hv hctx
      refine ⟨n, ?_⟩
      dsimp only
      rw [constant_apply, hv]
      dsimp only
      rw [bind_apply, enter, hctx]
      exact bind_ne_outOfSteps (andThen_ne_outOfSteps hn _) fun v c _ =>
        Outcome.value_ne_outOfSteps v _

/-- Only tokens of the row are asked for. -/
lemma Asks.mem {s : Stacks} {ts : List Text} {ctx ctx' : Context} {u : Text}
    (h : Asks s ts ctx u ctx') : u ∈ ts := by
  induction h with
  | here _ => exact .head _
  | later _ _ ih => exact .tail _ ih

/-- Registry, depth limit and chain are the same for every operand of a span. -/
lemma Asks.keeps {s : Stacks} {ts : List Text} {ctx ctx' : Context} {u : Text}
    (h : Asks s ts ctx u ctx') : ctx.Keeps ctx' := by
  induction h with
  | here _ => exact .refl _
  | @later s s' t ts ctx c u ctx' htoken _ ih =>
    obtain ⟨_, n, hn⟩ := htoken
    exact ((Within.token Context.keeps_isFrame (text_keeps n) s t).of_value hn).trans ih

/-- Tokens are not read to the end before the texts that are asked for are evaluated. -/
lemma Asks.ne_outOfSteps {s : Stacks} {ts : List Text} {ctx ctx' : Context} {u : Text} {n : Nat}
    (h : Asks s ts ctx u ctx') (hn : tokens (text n) s ts ctx ≠ .outOfSteps) :
    text n u ctx' ≠ .outOfSteps := by
  induction h with
  | here hop =>
    have ht := ne_outOfSteps_of_bind hn
    rw [token_apply, hop] at ht
    exact ne_outOfSteps_of_bind ht
  | @later s s' t ts ctx c u ctx' htoken _ ih =>
    have ht := htoken.eq_of_ne (token_steady s t) (ne_outOfSteps_of_bind hn)
    rw [tokens, bind_of_value ht] at hn
    exact ih hn

end Eval

open Eval

/-- A loop of an evaluation with the text that it is at, and the context. -/
inductive Stage where
  | spans (t : Text) (ctx : Context)
  | references (t : Text) (ctx : Context)

namespace Stage

/-- The context that the loop is in. -/
def context : Stage → Context
  | spans _ ctx => ctx
  | references _ ctx => ctx

/-- What the loop comes to within a number of steps. -/
def run (n : Nat) : Stage → Outcome Text
  | spans t ctx => text n t ctx
  | references t ctx => Eval.references n t ctx

/-- With enough steps the loop ends. -/
def Halts (s : Stage) : Prop :=
  ∃ n, s.run n ≠ .outOfSteps

/-- One turn of a loop: the first piece is replaced by its value. A text without spans goes on to
its references. -/
inductive Turn : Stage → Stage → Prop where
  | span {t cut ctx v ctx'} : Span.find? t = some cut →
    Ends (fun n => span (text n) cut.inner) ctx (.value v ctx') →
    Turn (.spans t ctx) (.spans (cut.before ++ v ++ cut.after) ctx')
  | spanless {t ctx} : Span.find? t = none → Turn (.spans t ctx) (.references t ctx)
  | reference {t cut ctx v ctx'} : Reference.find? t = some cut →
    Ends (fun n => constant (text n) cut.inner) ctx (.value v ctx') →
    Turn (.references t ctx) (.references (cut.before ++ v ++ cut.after) ctx')

/-- One turn of a loop calls for the evaluation of another text: an operand of the span or the value
of the constant. -/
inductive Calls : Stage → Stage → Prop where
  | operand {t cut ctx u ctx'} : Span.find? t = some cut →
    Asks .empty (tokenize cut.inner) ctx u ctx' → Calls (.spans t ctx) (.spans u ctx')
  | constant {t cut ctx value ctx'} : Reference.find? t = some cut →
    ctx.table.get? cut.inner = some value → ctx.enter cut.inner = .ok ctx' →
    Calls (.references t ctx) (.spans value ctx')

/-- A number of turns. -/
inductive Turns : Nat → Stage → Stage → Prop where
  | none (s) : Turns 0 s s
  | more {n s t u} : Turn s t → Turns n t u → Turns (n + 1) s u

/-- The loop can be turned for ever. -/
def Endless (s : Stage) : Prop :=
  ∀ n, ∃ t, Turns n s t

/-- What an evaluation comes to, by turns of its loops and by calls for other texts. -/
def Reaches : Stage → Stage → Prop :=
  Relation.ReflTransGen fun s t => Turn s t ∨ Calls s t

/-- One step fewer is left for the loop after a turn. -/
lemma Turn.run_ne {s t : Stage} (h : Turn s t) {n : Nat} (hn : s.run (n + 1) ≠ .outOfSteps) :
    t.run n ≠ .outOfSteps := by
  cases h with
  | spanless hcut =>
    rw [run, text_of_no_span hcut] at hn
    exact hn
  | span hcut hv =>
    rw [run, text_of_span hcut] at hn
    have hspan := hv.eq_of_ne (span_steady _) (ne_outOfSteps_of_bind hn)
    rwa [bind_of_value hspan] at hn
  | reference hcut hv =>
    rw [run, references_of_reference hcut] at hn
    have hconstant := hv.eq_of_ne (constant_steady _) (ne_outOfSteps_of_bind hn)
    rwa [bind_of_value hconstant] at hn

/-- No loop ends without a step. -/
lemma run_zero (s : Stage) : s.run 0 = .outOfSteps := by
  cases s with
  | spans t ctx => rw [run, text]; rfl
  | references t ctx => rw [run, Eval.references]; rfl

/-- A loop that ends still ends after a turn. -/
lemma Turn.halts {s t : Stage} (h : Turn s t) (hs : s.Halts) : t.Halts := by
  obtain ⟨n, hn⟩ := hs
  cases n with
  | zero => exact absurd (run_zero s) hn
  | succ n => exact ⟨n, h.run_ne hn⟩

/-- A loop that ends within some steps has fewer turns. -/
lemma Turns.lt {k n : Nat} {s t : Stage} (h : Turns k s t) (hn : s.run n ≠ .outOfSteps) :
    k < n := by
  induction h generalizing n with
  | none s =>
    cases n with
    | zero => exact absurd (run_zero s) hn
    | succ n => exact Nat.succ_pos n
  | more hturn _ ih =>
    cases n with
    | zero => exact absurd (run_zero _) hn
    | succ n => exact Nat.succ_lt_succ (ih (hturn.run_ne hn))

/-- A loop that can be turned for ever does not end. -/
lemma Endless.not_halts {s : Stage} (h : s.Endless) : ¬ s.Halts := by
  rintro ⟨n, hn⟩
  obtain ⟨t, ht⟩ := h n
  exact absurd (ht.lt hn) (Nat.lt_irrefl n)

/-- Two stages that turn into each other do so for ever. -/
lemma endless_of_cycle {s t : Stage} (hst : Turn s t) (hts : Turn t s) : s.Endless := by
  intro n
  -- the induction passes from either stage to the other one
  have hboth : (∃ u, Turns n s u) ∧ ∃ u, Turns n t u := by
    induction n with
    | zero => exact ⟨⟨s, .none s⟩, t, .none t⟩
    | succ n ih =>
      obtain ⟨⟨u, hu⟩, w, hw⟩ := ih
      exact ⟨⟨w, .more hst hw⟩, u, .more hts hu⟩
  exact hboth.1

/-- A loop does not end before the evaluations that it calls for. -/
lemma Calls.halts {s t : Stage} (h : Calls s t) (hs : s.Halts) : t.Halts := by
  obtain ⟨n, hn⟩ := hs
  cases n with
  | zero => exact absurd (run_zero s) hn
  | succ n =>
    refine ⟨n, ?_⟩
    cases h with
    | operand hcut hasks =>
      rw [run, text_of_span hcut] at hn
      have hspan := ne_outOfSteps_of_bind hn
      rw [span] at hspan
      exact hasks.ne_outOfSteps (ne_outOfSteps_of_bind (ne_outOfSteps_of_mapError hspan))
    | @constant t cut ctx value inner hcut hv henter =>
      rw [run, references_of_reference hcut] at hn
      have hconstant := ne_outOfSteps_of_bind hn
      rw [constant_apply, hv] at hconstant
      dsimp only at hconstant
      rw [bind_apply, enter, henter] at hconstant
      exact ne_outOfSteps_of_andThen (ne_outOfSteps_of_bind hconstant)

/-- A loop that ends comes only to loops that end. -/
lemma Reaches.halts {s t : Stage} (h : Reaches s t) (hs : s.Halts) : t.Halts := by
  induction h with
  | refl => exact hs
  | tail _ hstep ih =>
    rcases hstep with hturn | hcall
    · exact hturn.halts ih
    · exact hcall.halts ih

/-- A loop that does not end either has a turn after which it does not end, or calls for an
evaluation that does not end. -/
lemma turn_or_call {s : Stage} (h : ¬ s.Halts) :
    (∃ t, Turn s t ∧ ¬ t.Halts) ∨ ∃ t, Calls s t ∧ ¬ t.Halts := by
  by_contra hnone
  obtain ⟨hturn, hcall⟩ := not_or.1 hnone
  have hturns : ∀ t, Turn s t → t.Halts := fun t ht => by_contra fun hn => hturn ⟨t, ht, hn⟩
  have hcalls : ∀ t, Calls s t → t.Halts := fun t ht => by_contra fun hn => hcall ⟨t, ht, hn⟩
  apply h
  -- what is called for ends, so the piece has a value, and then the turn ends as well
  cases s with
  | spans t ctx =>
    cases hcut : Span.find? t with
    | none =>
      obtain ⟨n, hn⟩ := hturns _ (.spanless hcut)
      refine ⟨n + 1, ?_⟩
      rw [run, text_of_no_span hcut]
      exact hn
    | some cut =>
      have hspan := span_halts fun u ctx' hu => hcalls _ (.operand hcut hu)
      obtain ⟨n, hn⟩ := halts_bind (span_steady _)
        (fun v => text_steady (cut.before ++ v ++ cut.after)) hspan
        fun v c hv => hturns _ (.span hcut hv)
      refine ⟨n + 1, ?_⟩
      rw [run, text_of_span hcut]
      exact hn
  | references t ctx =>
    cases hcut : Reference.find? t with
    | none =>
      refine ⟨1, ?_⟩
      rw [run, references_of_no_reference hcut]
      exact Outcome.value_ne_outOfSteps t ctx
    | some cut =>
      have hconstant := constant_halts fun value ctx' hv henter =>
        hcalls _ (.constant hcut hv henter)
      obtain ⟨n, hn⟩ := halts_bind (constant_steady _)
        (fun v => references_steady (cut.before ++ v ++ cut.after)) hconstant
        fun v c hv => hturns _ (.reference hcut hv)
      refine ⟨n + 1, ?_⟩
      rw [run, references_of_reference hcut]
      exact hn

/-- What bounds the calls: the constants that may still be entered, and for each of them the loops
of a text with spans, of one without, and of its references. -/
def level : Stage → Nat
  | spans t ctx => 3 * (ctx.maxDepth - ctx.depth) + if Span.find? t = none then 1 else 2
  | references _ ctx => 3 * (ctx.maxDepth - ctx.depth)

/-- The level of a text with spans is bounded by what the depth leaves. -/
lemma level_spans_le (t : Text) (ctx : Context) :
    (spans t ctx).level ≤ 3 * (ctx.maxDepth - ctx.depth) + 2 := by
  rw [level]
  split <;> omega

/-- What the depth leaves is the same after every evaluation. -/
lemma level_of_keeps {ctx ctx' : Context} (h : ctx.Keeps ctx') :
    ctx'.maxDepth - ctx'.depth = ctx.maxDepth - ctx.depth := by
  rw [h.maxDepth, h.depth]

/-- Registry, depth limit, chain and depth are the same after a turn. -/
lemma Turn.keeps {s t : Stage} (h : Turn s t) : s.context.Keeps t.context := by
  cases h with
  | spanless _ => exact .refl _
  | @span t cut ctx v ctx' hcut hv =>
    obtain ⟨_, n, hn⟩ := hv
    exact (Within.span Context.keeps_isFrame (text_keeps n) cut.inner).of_value hn
  | @reference t cut ctx v ctx' hcut hv =>
    obtain ⟨_, n, hn⟩ := hv
    exact (constant_keeps (text_keeps n) cut.inner).of_value hn

/-- A turn does not raise the level. -/
lemma Turn.level_le {s t : Stage} (h : Turn s t) : t.level ≤ s.level := by
  have hkeeps := level_of_keeps h.keeps
  cases h with
  | spanless hcut =>
    rw [level, level]
    omega
  | @span t cut ctx v ctx' hcut hv =>
    have hle := level_spans_le (cut.before ++ v ++ cut.after) ctx'
    have hspan : (spans t ctx).level = 3 * (ctx.maxDepth - ctx.depth) + 2 := by
      rw [level, hcut, if_neg nofun]
    rw [hspan]
    simp only [context] at hkeeps
    omega
  | reference hcut hv => exact Nat.le_of_eq (congrArg (3 * ·) hkeeps)

/-- Calls lower the level: no operand holds a span, and a constant has been entered. -/
lemma Calls.level_lt {s t : Stage} (h : Calls s t) : t.level < s.level := by
  cases h with
  | @operand t cut ctx u ctx' hcut hasks =>
    have hnone := Span.spanless_of_mem_tokenize hcut hasks.mem
    rw [level, level, level_of_keeps hasks.keeps, hnone, hcut, if_pos rfl, if_neg nofun]
    omega
  | @constant t cut ctx value ctx' hcut hv henter =>
    obtain ⟨hdepth, _, rfl⟩ := Context.eq_of_enter henter
    have hle := level_spans_le value (ctx.entered cut.inner)
    have hreferences : (references t ctx).level = 3 * (ctx.maxDepth - ctx.depth) := rfl
    rw [hreferences]
    simp only [Context.entered] at hle ⊢
    omega

/-- As long as all calls end, a loop that does not end can be turned any number of times. -/
lemma exists_turns {s : Stage} (h : ¬ s.Halts)
    (hcalls : ∀ n t u, Turns n s t → Calls t u → u.Halts) (n : Nat) : ∃ t, Turns n s t := by
  induction n generalizing s with
  | zero => exact ⟨s, .none s⟩
  | succ n ih =>
    rcases turn_or_call h with ⟨t, hturn, ht⟩ | ⟨u, hcall, hu⟩
    · obtain ⟨u, hu⟩ := ih ht fun k t' u' hk => hcalls (k + 1) t' u' (.more hturn hk)
      exact ⟨u, .more hturn hu⟩
    · exact absurd (hcalls 0 s u (.none s) hcall) hu

/-- Turning a loop is one way to come to another. -/
lemma Turns.reaches {n : Nat} {s t : Stage} (h : Turns n s t) : Reaches s t := by
  induction h with
  | none s => exact .refl
  | more hturn _ ih => exact .head (.inl hturn) ih

/-- No number of turns raises the level. -/
lemma Turns.level_le {n : Nat} {s t : Stage} (h : Turns n s t) : t.level ≤ s.level := by
  induction h with
  | none s => exact Nat.le_refl _
  | more hturn _ ih => exact Nat.le_trans ih hturn.level_le

/-- An evaluation that does not end comes to a loop that can be turned for ever. -/
lemma exists_endless {s : Stage} (h : ¬ s.Halts) : ∃ t, Reaches s t ∧ t.Endless := by
  -- on the level: turns do not lift it, and the call that does not end lowers it
  induction hl : s.level using Nat.strongRecOn generalizing s with
  | ind l ih =>
    subst hl
    by_cases hcalls : ∀ n t u, Turns n s t → Calls t u → u.Halts
    · exact ⟨s, .refl, exists_turns h hcalls⟩
    · push Not at hcalls
      obtain ⟨n, t, u, hturns, hcall, hu⟩ := hcalls
      have hlt := Nat.lt_of_lt_of_le hcall.level_lt hturns.level_le
      obtain ⟨w, hw, hendless⟩ := ih _ hlt hu rfl
      exact ⟨w, hturns.reaches.trans (.head (.inr hcall) hw), hendless⟩

/-- An evaluation ends if and only if no loop that it comes to can be turned for ever. -/
lemma halts_iff {s : Stage} : s.Halts ↔ ¬ ∃ t, Reaches s t ∧ t.Endless := by
  constructor
  · rintro h ⟨t, ht, hendless⟩
    exact hendless.not_halts (ht.halts h)
  · intro h
    by_contra hs
    exact h (exists_endless hs)

end Stage

end InlineExpr
