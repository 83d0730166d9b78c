import InlineExpr.Proofs.Alphabet
import InlineExpr.Proofs.Invariants
import InlineExpr.Proofs.Tokens

/-!
# Texts in which marks begin whole pieces

In a text that is whole with respect to some marks (`Text.Whole`), these marks stand nowhere but in
whole spans and whole references, and no span has an opening mark in its body. A replacement that
holds no mark keeps a text whole, so on a table of whole texts a whole text is evaluated to one
without marks (`text_whole`). The marks are `#` alone or `#` and `$`.
-/

namespace InlineExpr

namespace Text

/-- None of the marks occurs in the text. -/
def Free (marks : List Char) (t : Text) : Prop :=
  ∀ c ∈ marks, c ∉ t

instance (marks : List Char) (t : Text) : Decidable (t.Free marks) :=
  List.decidableBAll (fun c => c ∉ t) marks

/-- The marks stand in whole spans and whole references only. -/
inductive Whole (marks : List Char) : Text → Prop where
  | nil : Whole marks []
  | char {c t} : c ∉ marks → Whole marks t → Whole marks (c :: t)
  | reference {name t} : Reference.IsName name → Whole marks t →
    Whole marks (Reference.wrap name ++ t)
  | span {body t} : body ≠ [] → '#' ∉ body → '}' ∉ body → Whole marks body → Whole marks t →
    Whole marks (Span.wrap body ++ t)

/-- The marks that texts may be whole with respect to: the one that opens spans, and possibly the
one of references. -/
structure AreMarks (marks : List Char) : Prop where
  sharp : '#' ∈ marks
  only : ∀ c ∈ marks, c = '#' ∨ c = '$'

variable {marks : List Char} {t : Text}

/-- A text without marks is whole. -/
lemma Whole.of_free (h : t.Free marks) : t.Whole marks := by
  induction t with
  | nil => exact .nil
  | cons c t ih =>
    refine .char (fun hc => h c hc (.head _)) (ih ?_)
    exact fun d hd hm => h d hd (.tail _ hm)

/-- One whole text after another is whole. -/
lemma Whole.append {s : Text} (hs : s.Whole marks) (ht : t.Whole marks) :
    (s ++ t).Whole marks := by
  induction hs with
  | nil => exact ht
  | char hc _ ih => exact .char hc ih
  | reference hname _ ih =>
    rw [List.append_assoc]
    exact .reference hname ih
  | span hne hsharp hclose hbody _ _ ih =>
    rw [List.append_assoc]
    exact .span hne hsharp hclose hbody ih

/-- A reference by itself is whole. -/
lemma Whole.wrap_reference {name : Text} (h : Reference.IsName name) :
    (Reference.wrap name).Whole marks := by
  rw [← List.append_nil (Reference.wrap name)]
  exact .reference h .nil

/-- A span with a whole body that opens no other is whole. -/
lemma Whole.wrap_span {body : Text} (hne : body ≠ []) (hsharp : '#' ∉ body) (hclose : '}' ∉ body)
    (h : body.Whole marks) : (Span.wrap body).Whole marks := by
  rw [← List.append_nil (Span.wrap body)]
  exact .span hne hsharp hclose h .nil

section Spans

variable (hmarks : AreMarks marks)

include hmarks

/-- The first span of a whole text is a whole piece of it. -/
lemma Whole.of_span (h : t.Whole marks) {cut : Cut} (hcut : Span.find? t = some cut) :
    cut.before.Whole marks ∧ cut.inner.Whole marks ∧ cut.after.Whole marks ∧
      '#' ∉ cut.before ∧ '#' ∉ cut.inner := by
  induction h generalizing cut with
  | nil => cases hcut
  | @char c t hc _ ih =>
    have hne := (ne_of_mem_of_not_mem hmarks.sharp hc).symm
    rw [Span.find?_cons_of_ne hne] at hcut
    obtain ⟨rest, hrest, rfl⟩ := Option.map_eq_some_iff.1 hcut
    obtain ⟨hbefore, hinner, hafter, hsharp, hbody⟩ := ih hrest
    exact ⟨.char hc hbefore, hinner, hafter, List.not_mem_cons_of_ne_of_not_mem hne.symm hsharp,
      hbody⟩
  | @reference name t hname _ ih =>
    have hnot := Reference.sharp_not_mem_wrap hname
    rw [Span.find?_append_of_not_mem hnot] at hcut
    obtain ⟨rest, hrest, rfl⟩ := Option.map_eq_some_iff.1 hcut
    obtain ⟨hbefore, hinner, hafter, hsharp, hbody⟩ := ih hrest
    refine ⟨.reference hname hbefore, hinner, hafter, ?_, hbody⟩
    rw [List.mem_append]
    exact fun hm => hm.elim hnot hsharp
  | @span body t hne hsharp hclose hbody ht _ _ =>
    rw [Span.find?_wrap_append hne hclose] at hcut
    cases hcut
    exact ⟨.nil, hbody, ht, List.not_mem_nil, hsharp⟩

/-- A whole text in which no span is found holds no mark that opens one. -/
lemma Whole.sharp_not_mem (h : t.Whole marks) (hnone : Span.find? t = none) : '#' ∉ t := by
  induction h with
  | nil => exact List.not_mem_nil
  | @char c t hc _ ih =>
    have hne := (ne_of_mem_of_not_mem hmarks.sharp hc).symm
    rw [Span.find?_cons_of_ne hne, Option.map_eq_none_iff] at hnone
    exact List.not_mem_cons_of_ne_of_not_mem hne.symm (ih hnone)
  | @reference name t hname _ ih =>
    have hnot := Reference.sharp_not_mem_wrap hname
    rw [Span.find?_append_of_not_mem hnot, Option.map_eq_none_iff] at hnone
    rw [List.mem_append]
    exact fun hm => hm.elim hnot (ih hnone)
  | @span body t hne hsharp hclose _ _ _ _ =>
    rw [Span.find?_wrap_append hne hclose] at hnone
    cases hnone

end Spans

section References

/-- A text with no `#` is free of marks when `$` is none of them. -/
lemma of_sharp_not_mem (hmarks : AreMarks marks) (hdollar : '$' ∉ marks) (h : '#' ∉ t) :
    t.Free marks := by
  intro c hc
  rcases hmarks.only c hc with rfl | rfl
  · exact h
  · exact absurd hc hdollar

/-- There is a `#` in every span. -/
lemma sharp_mem_wrap (body : Text) : '#' ∈ Span.wrap body :=
  .head _

/-- What stands around the first reference of a whole text is whole. -/
lemma Whole.around_reference (hdollar : '$' ∈ marks) (h : t.Whole marks) (hsharp : '#' ∉ t)
    {cut : Cut} (hcut : Reference.find? t = some cut) :
    cut.before.Whole marks ∧ cut.after.Whole marks := by
  induction h generalizing cut with
  | nil => cases hcut
  | @char c t hc _ ih =>
    have hne := (ne_of_mem_of_not_mem hdollar hc).symm
    rw [Reference.find?_cons_of_ne hne] at hcut
    obtain ⟨rest, hrest, rfl⟩ := Option.map_eq_some_iff.1 hcut
    obtain ⟨hbefore, hafter⟩ := ih (fun hm => hsharp (.tail _ hm)) hrest
    exact ⟨.char hc hbefore, hafter⟩
  | @reference name t hname ht _ =>
    rw [Reference.find?_wrap_append hname] at hcut
    cases hcut
    exact ⟨.nil, ht⟩
  | @span body t _ _ _ _ _ _ _ =>
    exact absurd (List.mem_append_left t (sharp_mem_wrap body)) hsharp

/-- What stands around the first reference of a whole text without spans is such a text again. -/
lemma Whole.of_reference (hmarks : AreMarks marks) (h : t.Whole marks) (hsharp : '#' ∉ t)
    {cut : Cut} (hcut : Reference.find? t = some cut) :
    (cut.before.Whole marks ∧ cut.after.Whole marks) ∧ '#' ∉ cut.before ∧ '#' ∉ cut.after := by
  have hparts := hsharp
  rw [Reference.eq_of_find? hcut, List.mem_append, List.mem_append, not_or, not_or] at hparts
  obtain ⟨⟨hbefore, _⟩, hafter⟩ := hparts
  refine ⟨?_, hbefore, hafter⟩
  by_cases hdollar : '$' ∈ marks
  · exact h.around_reference hdollar hsharp hcut
  · exact ⟨.of_free (of_sharp_not_mem hmarks hdollar hbefore),
      .of_free (of_sharp_not_mem hmarks hdollar hafter)⟩

/-- A whole text in which neither a span nor a reference is found holds no mark. -/
lemma Whole.free (hmarks : AreMarks marks) (h : t.Whole marks) (hsharp : '#' ∉ t)
    (hnone : Reference.find? t = none) : t.Free marks := by
  by_cases hdollar : '$' ∈ marks
  · induction h with
    | nil => exact fun _ _ => List.not_mem_nil
    | @char c t hc _ ih =>
      have hne := (ne_of_mem_of_not_mem hdollar hc).symm
      rw [Reference.find?_cons_of_ne hne, Option.map_eq_none_iff] at hnone
      intro d hd hm
      cases hm with
      | head => exact hc hd
      | tail _ hm => exact ih (fun hm => hsharp (.tail _ hm)) hnone d hd hm
    | @reference name t hname _ _ =>
      rw [Reference.find?_wrap_append hname] at hnone
      cases hnone
    | @span body t _ _ _ _ _ _ _ =>
      exact absurd (List.mem_append_left t (sharp_mem_wrap body)) hsharp
  · exact of_sharp_not_mem hmarks hdollar hsharp

end References

section Tokens

/-- A whole word in front of whole tokens leaves them whole. -/
lemma Whole.consWord {word : Text} {tokens : List Text} (hword : word.Whole marks)
    (htokens : ∀ u ∈ tokens, Whole marks u) : ∀ u ∈ Token.consWord word tokens, Whole marks u := by
  rw [Token.consWord]
  split
  · exact htokens
  · intro u hu
    cases hu with
    | head => exact hword
    | tail _ hu => exact htokens u hu

/-- A whole text without spans is cut into whole words and tokens. -/
lemma Whole.scan (h : t.Whole marks) (hsharp : '#' ∉ t) :
    (Token.scan t).1.Whole marks ∧ ∀ u ∈ (Token.scan t).2, Whole marks u := by
  induction h with
  | nil => exact ⟨.nil, nofun⟩
  | @char c t hc _ ih =>
    obtain ⟨hword, htokens⟩ := ih fun hm => hsharp (.tail _ hm)
    rw [scan_cons]
    split
    · exact ⟨.nil, .consWord hword htokens⟩
    · split
      · refine ⟨.nil, ?_⟩
        intro u hu
        cases hu with
        | head => exact .char hc .nil
        | tail _ hu => exact Whole.consWord hword htokens u hu
      · exact ⟨.char hc hword, htokens⟩
  | @reference name t hname _ ih =>
    obtain ⟨hword, htokens⟩ := ih fun hm => hsharp (List.mem_append_right _ hm)
    rw [scan_append (not_separator_of_mem_wrap hname)]
    exact ⟨.reference hname hword, htokens⟩
  | @span body t _ _ _ _ _ _ _ =>
    exact absurd (List.mem_append_left t (sharp_mem_wrap body)) hsharp

/-- The tokens of a whole text without spans are whole. -/
lemma Whole.tokenize (h : t.Whole marks) (hsharp : '#' ∉ t) :
    ∀ u ∈ tokenize t, Whole marks u :=
  .consWord (h.scan hsharp).1 (h.scan hsharp).2

end Tokens

end Text

/-- The values of the table are whole. -/
def Table.Whole (marks : List Char) (table : Table) : Prop :=
  ∀ name v, table.get? name = some v → Text.Whole marks v

/-- An empty table is whole. -/
lemma Table.Whole.empty (marks : List Char) (listsNames : Bool) :
    (Table.empty listsNames).Whole marks :=
  fun _ _ h => nomatch h

/-- A whole table stays so when a whole value is put into it. -/
lemma Table.Whole.insert {marks : List Char} {table : Table} {name v : Text}
    (h : table.Whole marks) (hv : v.Whole marks) : (table.insert name v).Whole marks :=
  fun _ _ hw => Table.of_get?_insert h hv hw

namespace Eval

open Text

variable {marks : List Char}

/-- A constant of a whole table becomes free of marks when whole texts do. -/
lemma constant_free {resolve : Text → Eval Text}
    (hr : ∀ t, Text.Whole marks t → Ensures (Table.Whole marks) (resolve t) (Free marks))
    (name : Text) : Ensures (Table.Whole marks) (constant resolve name) (Free marks) := by
  apply Ensures.constant name (fun t table htable ht => hr t (htable name t ht))
  exact fun table v htable hv => htable.insert (.of_free hv)

variable (hmarks : AreMarks marks)

include hmarks

/-- Operators write no marks. -/
lemma perform_free (op : Operator) (o : Operands) (h : ∀ v ∈ o.values, Free marks v.rawText) :
    ∀ v ∈ (op.perform o).2.values, Free marks v.rawText := by
  intro v hv c hc
  have hwritten : isWritten c = false := by
    rcases hmarks.only c hc with rfl | rfl
    · decide
    · decide
  exact Operator.perform_avoids hwritten op (fun w hw => h w hw c hc) v hv

/-- A span in whose body the marks begin whole pieces has a value without marks. -/
lemma span_free {resolve : Text → Eval Text}
    (hr : ∀ t, Text.Whole marks t → Ensures (Table.Whole marks) (resolve t) (Free marks))
    {body : Text} (h : body.Whole marks) (hsharp : '#' ∉ body) :
    Ensures (Table.Whole marks) (span resolve body) (Free marks) := by
  apply Ensures.weaken (.span (perform_free hmarks) fun t ht => hr t (h.tokenize hsharp t ht))
  rintro t ⟨v, hv, rfl⟩ c hc
  exact Value.Avoids.asText (hv c hc)

/-- On a table of whole texts a whole text is evaluated to a text without marks, and the table keeps
whole texts. -/
lemma text_whole (n : Nat) :
    (∀ t, Text.Whole marks t → Ensures (Table.Whole marks) (text n t) (Free marks)) ∧
      ∀ t, Text.Whole marks t → '#' ∉ t →
        Ensures (Table.Whole marks) (references n t) (Free marks) := by
  induction n with
  | zero =>
    refine ⟨fun t _ => ?_, fun t _ _ => ?_⟩
    · rw [text]
      exact .exhausted
    · rw [references]
      exact .exhausted
  | succ n ih =>
    obtain ⟨iht, ihr⟩ := ih
    refine ⟨fun t ht => ?_, fun t ht hsharp => ?_⟩
    · cases hcut : Span.find? t with
      | none =>
        rw [text_of_no_span hcut]
        exact ihr t ht (ht.sharp_not_mem hmarks hcut)
      | some cut =>
        obtain ⟨hbefore, hinner, hafter, _, hbody⟩ := ht.of_span hmarks hcut
        rw [text_of_span hcut]
        apply Ensures.bind (span_free hmarks iht hinner hbody)
        intro v hv
        exact iht _ ((hbefore.append (.of_free hv)).append hafter)
    · cases hcut : Reference.find? t with
      | none =>
        rw [references_of_no_reference hcut]
        exact .pure (ht.free hmarks hsharp hcut)
      | some cut =>
        obtain ⟨⟨hbefore, hafter⟩, hsharp, hsharp'⟩ := ht.of_reference hmarks hsharp hcut
        rw [references_of_reference hcut]
        apply Ensures.bind (constant_free iht _)
        intro v hv
        apply ihr _ ((hbefore.append (.of_free hv)).append hafter)
        have hv' := hv '#' hmarks.sharp
        simp only [List.mem_append, not_or]
        exact ⟨⟨hsharp, hv'⟩, hsharp'⟩

end Eval

end InlineExpr
