import InlineExpr.Proofs.Invariants
import InlineExpr.Proofs.Marks

/-!
# Texts that come to no span

A text without the mark of spans, on a table whose values have none either, is resolved by its
references alone, and so are the constants that it refers to. What holds of the resolution of such
texts, whatever they are, is shown by one induction (`Eval.SpanlessClosed.text`): it is enough that
it is kept by the resolution of a constant and by going on with a result.
-/

namespace InlineExpr

/-- No constant's value can begin a span. -/
def Table.Spanless (table : Table) : Prop :=
  ∀ name v, table.get? name = some v → '#' ∉ v

/-- A table without spans takes in a text that begins none. -/
lemma Table.Spanless.insert {table : Table} {name v : Text} (h : table.Spanless) (hv : '#' ∉ v) :
    (table.insert name v).Spanless :=
  fun _ _ hw => of_get?_insert h hv hw

namespace Eval

open Table (Spanless)

variable {P : Eval Text → Prop}

/-- The property is kept by every step of resolving a text that comes to no span. -/
structure SpanlessClosed (P : Eval Text → Prop) : Prop where
  exhausted : P exhausted
  pure : ∀ t, '#' ∉ t → P (pure t)
  bind : ∀ {x : Eval Text} {f : Text → Eval Text}, P x → (∀ v, '#' ∉ v → P (f v)) → P (x >>= f)
  constant : ∀ {resolve : Text → Eval Text}, (∀ t, '#' ∉ t → P (resolve t)) →
    ∀ name, P (constant resolve name)

/-- Such a property holds of the resolution of every text that can begin no span. -/
lemma SpanlessClosed.text (hP : SpanlessClosed P) (n : ℕ) :
    (∀ t, '#' ∉ t → P (text n t)) ∧ ∀ t, '#' ∉ t → P (references n t) := by
  induction n with
  | zero =>
    refine ⟨fun t _ => ?_, fun t _ => ?_⟩
    · rw [Eval.text]
      exact hP.exhausted
    · rw [references]
      exact hP.exhausted
  | succ n ih =>
    obtain ⟨iht, ihr⟩ := ih
    refine ⟨fun t ht => ?_, fun t ht => ?_⟩
    · rw [text_of_no_span (Span.find?_eq_none_of_not_mem ht)]
      exact ihr t ht
    · cases hcut : Reference.find? t with
      | none =>
        rw [references_of_no_reference hcut]
        exact hP.pure t ht
      | some cut =>
        rw [references_of_reference hcut]
        apply hP.bind (hP.constant iht cut.inner)
        intro v hv
        -- the resolved constant stands in the place of the reference
        apply ihr
        rw [Reference.eq_of_find? hcut] at ht
        simp only [List.mem_append, not_or] at ht ⊢
        exact ⟨⟨ht.1.1, hv⟩, ht.2⟩

/-- A table without spans stays so, and a text that can begin no span is resolved to such. -/
lemma spanlessClosed_ensures : SpanlessClosed (Ensures Spanless · ('#' ∉ ·)) where
  exhausted := .exhausted
  pure _ ht := .pure ht
  bind := .bind
  constant hr name := .constant name (fun t _ htable hget => hr t (htable name t hget))
    fun _ _ htable hv => htable.insert hv

/-- A constant is resolved to a text that can begin no span. -/
lemma constant_spanless (n : ℕ) (name : Text) :
    Ensures Spanless (constant (text n) name) ('#' ∉ ·) :=
  spanlessClosed_ensures.constant (spanlessClosed_ensures.text n).1 name

end Eval

/-- If the table has no spans before, it has none afterwards. -/
def Context.KeepsSpanless (ctx ctx' : Context) : Prop :=
  ctx.table.Spanless → ctx'.table.Spanless

/-- Keeping a table without spans is carried by all parts of an evaluation. -/
lemma Context.keepsSpanless_isFrame : Eval.IsFrame KeepsSpanless where
  refl _ := id
  trans hab hbc h := hbc (hab h)
  separators _ _ := id

namespace Eval

/-- Whatever is ensured, the table keeps the invariant wherever the evaluation ends. -/
lemma Ensures.within {α : Type} {I : Table → Prop} {Q : α → Prop} {x : Eval α}
    (h : Ensures I x Q) : Within (fun ctx ctx' => I ctx.table → I ctx'.table) x :=
  fun ctx _ hc hctx => (h ctx hctx).of_context? hc

/-- No text brings a span into a table without spans, not even one that holds a span. -/
lemma text_keepsSpanless (n : ℕ) : ∀ t, Within Context.KeepsSpanless (text n t) :=
  (text_within Context.keepsSpanless_isFrame
    (fun n name _ => (constant_spanless n name).within) n).1

end Eval

end InlineExpr
