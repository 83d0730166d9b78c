import InlineExpr.Proofs.Whole

/-!
# How far a result is resolved

References are replaced after the last span, until none is left, and the result is not searched for
spans again. So a result never holds a reference, but the text of a constant may complete a span
with what stands around the reference. A result that holds no span is settled: evaluated again, it
stands for itself and leaves the table as it is. If the opening marks of the text and of the table
begin whole spans, every result is settled (`settled_iff`).
-/

namespace InlineExpr

/-- A text that holds no span, and that stands for itself on the table, which stays as it is. -/
def Engine.Settled (engine : Engine) (t : Text) (table : Table) : Prop :=
  Span.find? t = none ∧ engine.Ends t table (.value t (engine.start table))

namespace Eval

/-- No reference is left in a result. -/
lemma no_reference_of_value (n : Nat) :
    (∀ t ctx out ctx', text n t ctx = .value out ctx' → Reference.find? out = none) ∧
      ∀ t ctx out ctx', references n t ctx = .value out ctx' → Reference.find? out = none := by
  induction n with
  | zero =>
    refine ⟨?_, ?_⟩
    · intro t ctx out ctx' h
      rw [text] at h
      cases h
    · intro t ctx out ctx' h
      rw [references] at h
      cases h
  | succ n ih =>
    obtain ⟨iht, ihr⟩ := ih
    refine ⟨?_, ?_⟩
    · intro t ctx out ctx' h
      cases hcut : Span.find? t with
      | none =>
        rw [text_of_no_span hcut] at h
        exact ihr _ _ _ _ h
      | some cut =>
        rw [text_of_span hcut] at h
        obtain ⟨v, c, _, h⟩ := value_of_bind h
        exact iht _ _ _ _ h
    · intro t ctx out ctx' h
      cases hcut : Reference.find? t with
      | none =>
        rw [references_of_no_reference hcut] at h
        cases h
        exact hcut
      | some cut =>
        rw [references_of_reference hcut] at h
        obtain ⟨v, c, _, h⟩ := value_of_bind h
        exact ihr _ _ _ _ h

end Eval

namespace Engine

open Eval

variable {engine : Engine}

/-- A text that holds neither a span nor a reference is settled. -/
lemma settled_of_resolved {t : Text} (hs : Span.find? t = none) (hr : Reference.find? t = none)
    (table : Table) : engine.Settled t table := by
  refine ⟨hs, nofun, 2, ?_⟩
  dsimp only
  rw [text_of_resolved hs hr 0]
  rfl

/-- A result holds no reference. It is settled on the table that the evaluation leaves if and only
if it holds no span, and it holds none if the opening marks of the text and of the table stand in
whole spans. -/
theorem settled_iff {t out : Text} {table : Table} {ctx : Context}
    (h : engine.Ends t table (.value out ctx)) :
    Reference.find? out = none ∧ (engine.Settled out ctx.table ↔ Span.find? out = none) ∧
      (t.Whole ['#'] → table.Whole ['#'] → engine.Settled out ctx.table) := by
  obtain ⟨_, n, hn⟩ := h
  have href : Reference.find? out = none := (no_reference_of_value n).1 _ _ _ _ hn
  refine ⟨href, ⟨And.left, fun hs => settled_of_resolved hs href _⟩, ?_⟩
  intro ht htable
  -- references may bring in anything but `#`, so this mark alone has to be followed
  have hmarks : Text.AreMarks ['#'] := ⟨.head _, fun c hc => .inl (List.mem_singleton.1 hc)⟩
  have hfree := (text_whole hmarks n).1 t ht (engine.start table) htable
  rw [show text n t (engine.start table) = _ from hn] at hfree
  exact settled_of_resolved (Span.find?_eq_none_of_not_mem (hfree.2 '#' (.head _))) href _

/-- A span and a constant that holds a span. -/
theorem settled_product :
    let t := Span.wrap "1 + 2".toList ++ Reference.wrap ['A']
    let table := (Table.empty true).insert ['A'] (Span.wrap "3 * 4".toList)
    let ctx := Engine.start {} ((Table.empty true).insert ['A'] "12".toList)
    Engine.Ends {} t table (.value "312".toList ctx) ∧ t.Whole ['#'] ∧ table.Whole ['#'] ∧
      Engine.Settled {} "312".toList ctx.table := by
  intro t table ctx
  have hends : Engine.Ends {} t table (.value "312".toList ctx) := ⟨nofun, 6, by decide +kernel⟩
  have ht : t.Whole ['#'] :=
    .span (by decide) (by decide) (by decide) (.of_free (by decide)) (.wrap_reference (by decide))
  have hvalue : (Span.wrap "3 * 4".toList).Whole ['#'] :=
    .wrap_span (by decide) (by decide) (by decide) (.of_free (by decide))
  have htable : table.Whole ['#'] := (Table.Whole.empty _ _).insert hvalue
  exact ⟨hends, ht, htable, (settled_iff hends).2.2 ht htable⟩

/-- The empty text of a constant joins `#` and `{1}` to a span, which stays in the result. -/
theorem not_settled_joined : ¬ ∀ (t out : Text) (table : Table) (ctx : Context),
    Engine.Ends {} t table (.value out ctx) → Engine.Settled {} out ctx.table := by
  intro h
  have hends : Engine.Ends {} ('#' :: (Reference.wrap ['A'] ++ "{1}".toList))
      ((Table.empty true).insert ['A'] [])
      (.value "#{1}".toList (Engine.start {} ((Table.empty true).insert ['A'] []))) :=
    ⟨nofun, 6, by decide +kernel⟩
  exact absurd (h _ _ _ _ hends).1 (by decide)

end Engine

end InlineExpr
