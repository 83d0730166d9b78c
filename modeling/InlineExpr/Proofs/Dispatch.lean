import InlineExpr.Proofs.Loops

/-!
# Spans in plain text

A text in which plain text stands between spans is evaluated from left to right: the bodies are
evaluated one after another, each in the context that the one before it leaves (`Runs`), and the
text takes in the values where the spans stood. As long as the values are plain, no replacement
makes, hides or moves a later span (`find?_written`), so a run of the first bodies is a run of the
loop (`ends_of_runs`). The first body that fails decides the error of the text (`dispatch_in_turn`).
-/

namespace InlineExpr

/-- A span with the plain text up to the next span. The body ends at the first closing mark. -/
structure Piece where
  body : Text
  after : Text
  nonempty : body ≠ []
  unclosed : '}' ∉ body
  plain : after.IsPlain

namespace Piece

/-- The text that a piece is written as. -/
def written (p : Piece) : Text :=
  Span.wrap p.body ++ p.after

/-- The pieces with values in the place of their spans. -/
def fill : List Piece → List Text → Text
  | p :: ps, v :: vs => v ++ p.after ++ fill ps vs
  | _, _ => []

/-- The text in front of a piece and the value that it takes in leave plain text in front of the
next one. -/
lemma plain_front {t v : Text} (ht : t.IsPlain) (hv : v.IsPlain) (p : Piece) :
    (t ++ v ++ p.after).IsPlain :=
  (ht.append hv).append p.plain

/-- The first span behind plain text is that of the first piece. -/
lemma find?_written {t : Text} (ht : t.IsPlain) (p : Piece) (rest : Text) :
    Span.find? (t ++ (p.written ++ rest)) = some ⟨t, p.body, p.after ++ rest⟩ := by
  rw [written, List.append_assoc, Span.find?_append_of_not_mem ht.1,
    Span.find?_wrap_append p.nonempty p.unclosed]
  simp

end Piece

namespace Eval

/-- The bodies are evaluated one after another, each in the context that the one before it leaves,
and have these values. -/
inductive Runs : List Text → Context → List Text → Context → Prop where
  | nil {ctx} : Runs [] ctx [] ctx
  | cons {b bs ctx v c vs ctx'} :
    Ends (fun n => expression (text n) (tokenize b)) ctx (.value v c) →
    Runs bs c vs ctx' → Runs (b :: bs) ctx (v :: vs) ctx'

open Piece

variable {ctx ctx' c : Context} {b t v : Text} {e : EvalError} {o : Outcome Text}

/-- A span is replaced by the value of its expression. -/
lemma Ends.span (h : Ends (fun n => expression (text n) (tokenize b)) ctx (.value v c)) :
    Ends (fun n => span (text n) b) ctx (.value v c) := by
  obtain ⟨-, n, hn⟩ := h
  refine ⟨Outcome.value_ne_outOfSteps v c, n, ?_⟩
  simp [Eval.span, mapError, hn]

/-- A span fails as its expression does, and is named if that is empty. -/
lemma Ends.span_error (h : Ends (fun n => expression (text n) (tokenize b)) ctx (.error e c)) :
    Ends (fun n => Eval.span (text n) b) ctx (.error (blameSpan b e) c) := by
  obtain ⟨-, n, hn⟩ := h
  refine ⟨Outcome.error_ne_outOfSteps _ c, n, ?_⟩
  simp [Eval.span, mapError, hn]

/-- A text that holds a span ends as it does with what the span comes to. -/
lemma Ends.of_span {cut : Cut} (hcut : Span.find? t = some cut)
    (h : Ends (fun n => Eval.span (text n) cut.inner >>= fun v =>
      text n (cut.before ++ v ++ cut.after)) ctx o) : Ends (text · t) ctx o := by
  obtain ⟨ho, n, hn⟩ := h
  refine ⟨ho, n + 1, ?_⟩
  dsimp only
  rw [text_of_span hcut]
  exact hn

/-- Plain text is evaluated to itself. -/
lemma Ends.of_plain (ht : t.IsPlain) (ctx : Context) : Ends (text · t) ctx (.value t ctx) := by
  refine ⟨Outcome.value_ne_outOfSteps t ctx, 2, ?_⟩
  dsimp only
  rw [text_of_plain ht 0]
  rfl

/-- The first span of a text comes to the value of its body, and the text goes on from there. -/
lemma Ends.of_written (ht : t.IsPlain) (p : Piece) {rest : Text}
    (hv : Ends (fun n => expression (text n) (tokenize p.body)) ctx (.value v c))
    (h : Ends (text · (t ++ v ++ p.after ++ rest)) c o) :
    Ends (text · (t ++ (p.written ++ rest))) ctx o := by
  apply Ends.of_span (find?_written ht p rest)
  have hrest : Ends (text · (t ++ v ++ (p.after ++ rest))) c o := by simpa using h
  exact Ends.bind (f := fun n v => text n (t ++ v ++ (p.after ++ rest))) (span_steady p.body)
    (text_steady _) hv.span hrest

/-- The first span of a text fails as its body does. -/
lemma Ends.of_written_error (ht : t.IsPlain) (p : Piece) (rest : Text)
    (he : Ends (fun n => expression (text n) (tokenize p.body)) ctx (.error e c)) :
    Ends (text · (t ++ (p.written ++ rest))) ctx (.error (blameSpan p.body e) c) :=
  .of_span (find?_written ht p rest) he.span_error.bind_error

/-- A run of the first bodies with plain values brings the text to where their spans are replaced by
the values. -/
lemma ends_of_runs {done : List Piece} {vs : List Text}
    (h : Runs (done.map body) ctx vs ctx') (hvs : ∀ v ∈ vs, v.IsPlain) (ht : t.IsPlain)
    (rest : Text) (hrest : Ends (text · (t ++ fill done vs ++ rest)) ctx' o) :
    Ends (text · (t ++ (done.flatMap written ++ rest))) ctx o := by
  -- on the pieces; what has been replaced so far belongs to the plain text in front
  induction done generalizing t vs ctx with
  | nil =>
    cases h
    simpa [fill] using hrest
  | cons p done ih =>
    cases h with
    | @cons b bs _ v c vs _ hv hruns =>
      obtain ⟨hv', hvs⟩ := List.forall_mem_cons.1 hvs
      have hdone := ih hruns hvs (plain_front ht hv' p) (by simpa [fill] using hrest)
      rw [List.flatMap_cons, List.append_assoc]
      exact .of_written ht p hv hdone

/-- Pieces with plain values make plain text. -/
lemma fill_plain (ps : List Piece) {vs : List Text} (hvs : ∀ v ∈ vs, v.IsPlain) :
    (fill ps vs).IsPlain := by
  induction ps generalizing vs with
  | nil => exact ⟨List.not_mem_nil, List.not_mem_nil⟩
  | cons p ps ih =>
    cases vs with
    | nil => exact ⟨List.not_mem_nil, List.not_mem_nil⟩
    | cons v vs =>
      obtain ⟨hv, hvs⟩ := List.forall_mem_cons.1 hvs
      exact (hv.append p.plain).append (ih hvs)

/-- Plain text with spans is evaluated as its bodies are, from left to right in one context. If all
of them have plain values, the text comes to these in the places of the spans; if one fails after
such values, the text fails with its error, an empty expression being named by the span. Either way
it leaves the context that the last body leaves. -/
theorem dispatch_in_turn (ht : t.IsPlain) (ps : List Piece) (ctx : Context) :
    (∀ vs ctx', Runs (ps.map body) ctx vs ctx' → (∀ v ∈ vs, v.IsPlain) →
      Ends (text · (t ++ ps.flatMap written)) ctx (.value (t ++ fill ps vs) ctx')) ∧
    ∀ done p rest vs ctx' e c, ps = done ++ p :: rest → Runs (done.map body) ctx vs ctx' →
      (∀ v ∈ vs, v.IsPlain) →
      Ends (fun n => expression (text n) (tokenize p.body)) ctx' (.error e c) →
      Ends (text · (t ++ ps.flatMap written)) ctx (.error (blameSpan p.body e) c) := by
  refine ⟨fun vs ctx' hruns hvs => ?_, ?_⟩
  · have hplain := ht.append (fill_plain ps hvs)
    have hends := ends_of_runs hruns hvs ht [] (by simpa using Ends.of_plain hplain ctx')
    simpa using hends
  · rintro done p rest vs ctx' e c rfl hruns hvs he
    have hplain := ht.append (fill_plain done hvs)
    have hends := ends_of_runs hruns hvs ht (p.written ++ rest.flatMap written)
      (.of_written_error hplain p (rest.flatMap written) he)
    simpa using hends

/-- A span that looks at the separators, and one whose body opens another span. -/
def mixed : List Piece :=
  [⟨"$CONSTANTS.A$ * 2".toList, " b ".toList, by decide, by decide, by decide⟩,
    ⟨"length(#\x7b)".toList, " c".toList, by decide, by decide, by decide⟩]

/-- Both spans have plain values, the first one from a constant that takes in its own; a third span
behind them is empty. -/
theorem dispatch_in_turn_mixed :
    let table := (Table.empty true).insert ['A'] (Span.wrap "1 + 1".toList)
    let start := Engine.start {} table
    let after := Engine.start {} (table.insert ['A'] ['2'])
    let blank : Piece := ⟨[' '], [], by decide, by decide, by decide⟩
    Runs (mixed.map body) start [['4'], ['2']] after ∧
      Ends (text · ("a ".toList ++ mixed.flatMap written)) start
        (.value "a 4 b 2 c".toList after) ∧
      Ends (text · ("a ".toList ++ (mixed ++ [blank]).flatMap written)) start
        (.error (.emptyExpression (Span.wrap [' '])) after) := by
  intro table start after blank
  have hfirst : Ends (fun n => expression (text n) (tokenize "$CONSTANTS.A$ * 2".toList)) start
      (.value ['4'] after) := ⟨nofun, 5, by decide +kernel⟩
  have hsecond : Ends (fun n => expression (text n) (tokenize "length(#\x7b)".toList)) after
      (.value ['2'] after) := ⟨nofun, 3, by decide +kernel⟩
  have hblank : Ends (fun n => expression (text n) (tokenize [' '])) after
      (.error (.emptyExpression []) after) := ⟨nofun, 1, by decide +kernel⟩
  have hruns : Runs (mixed.map body) start [['4'], ['2']] after := .cons hfirst (.cons hsecond .nil)
  have hplain : ∀ v ∈ [['4'], ['2']], Text.IsPlain v := by decide
  have ht : Text.IsPlain "a ".toList := by decide
  exact ⟨hruns, (dispatch_in_turn ht mixed start).1 _ _ hruns hplain,
    (dispatch_in_turn ht (mixed ++ [blank]) start).2 mixed blank [] _ _ _ _ rfl hruns hplain hblank⟩

end Eval

end InlineExpr
