import InlineExpr.Proofs.Loops
import InlineExpr.Proofs.Whole

/-!
# Texts whose evaluation ends

On a table whose opening marks stand in whole spans and whole references, the value of a span or of
a constant holds no mark, so every turn of a loop takes marks away: the evaluation of such a text
ends (`Stage.Whole.halts`). Where the value of a constant is a piece of a reference, it may join
with the text around it to a reference that was replaced before, and the evaluation need not end
although no constant refers to itself (`not_ends_alternating`).
-/

namespace InlineExpr

open Eval

/-- The marks of spans and references. -/
def Stage.marks : List Char := ['#', '$']

/-- The marks of spans and of references are marks that texts may be whole with respect to. -/
lemma Stage.areMarks : Text.AreMarks marks :=
  ⟨.head _, by simp [marks]⟩

/-- What is ensured with any number of steps holds of the outcome. -/
lemma Eval.Ends.of_ensures {α : Type} {I : Table → Prop} {x : Nat → Eval α} {Q : α → Prop}
    {ctx ctx' : Context} {v : α} (h : Ends x ctx (.value v ctx')) (hx : ∀ n, Ensures I (x n) Q)
    (hctx : I ctx.table) : I ctx'.table ∧ Q v := by
  obtain ⟨_, n, hn⟩ := h
  have hmeets := hx n ctx hctx
  rwa [hn] at hmeets

namespace Text

/-- Replacing a piece by a text without the mark adds none of it. -/
lemma count_replace_le {c : Char} {v : Text} (hv : c ∉ v) (before piece after : Text) :
    (before ++ v ++ after).count c ≤ (before ++ piece ++ after).count c := by
  simp only [List.count_append, List.count_eq_zero_of_not_mem hv]
  omega

/-- Replacing a piece with the mark by a text without it takes one away. -/
lemma count_replace_lt {c : Char} {v piece : Text} (hv : c ∉ v) (hpiece : c ∈ piece)
    (before after : Text) :
    (before ++ v ++ after).count c < (before ++ piece ++ after).count c := by
  have hpos := List.count_pos_iff.2 hpiece
  simp only [List.count_append, List.count_eq_zero_of_not_mem hv]
  omega

end Text

namespace Stage

/-- The text of the loop and the values of the table are whole, and the loop of references has no
span before it. -/
def Whole : Stage → Prop
  | spans t ctx => t.Whole marks ∧ ctx.table.Whole marks
  | references t ctx => t.Whole marks ∧ '#' ∉ t ∧ ctx.table.Whole marks

/-- The marks that the loop may still replace. -/
def weight : Stage → Nat
  | spans t _ => t.count '#' + t.count '$' + 1
  | references t _ => t.count '$'

/-- A turn keeps a loop whole and takes marks away. -/
lemma Turn.whole {s t : Stage} (h : Turn s t) (hs : s.Whole) : t.Whole ∧ t.weight < s.weight := by
  cases h with
  | @spanless t ctx hcut =>
    obtain ⟨ht, htable⟩ := hs
    refine ⟨⟨ht, ht.sharp_not_mem areMarks hcut, htable⟩, ?_⟩
    rw [weight, weight]
    omega
  | @span t cut ctx v ctx' hcut hv =>
    obtain ⟨ht, htable⟩ := hs
    obtain ⟨hbefore, hinner, hafter, _, hsharp⟩ := ht.of_span areMarks hcut
    obtain ⟨htable', hfree⟩ := hv.of_ensures
      (fun n => span_free areMarks (text_whole areMarks n).1 hinner hsharp) htable
    refine ⟨⟨(hbefore.append (.of_free hfree)).append hafter, htable'⟩, ?_⟩
    -- the value brings in no mark, and the mark of the span is gone
    have hlt := Text.count_replace_lt (hfree '#' (.head _)) (Text.sharp_mem_wrap cut.inner)
      cut.before cut.after
    have hle := Text.count_replace_le (hfree '$' (.tail _ (.head _))) cut.before
      (Span.wrap cut.inner) cut.after
    rw [← Span.eq_of_find? hcut] at hlt hle
    rw [weight, weight]
    omega
  | @reference t cut ctx v ctx' hcut hv =>
    obtain ⟨ht, hsharp, htable⟩ := hs
    obtain ⟨⟨hbefore, hafter⟩, hsharp, hsharp'⟩ := ht.of_reference areMarks hsharp hcut
    obtain ⟨htable', hfree⟩ := hv.of_ensures
      (fun n => constant_free (text_whole areMarks n).1 cut.inner) htable
    have hv' := hfree '#' (.head _)
    refine ⟨⟨(hbefore.append (.of_free hfree)).append hafter, ?_, htable'⟩, ?_⟩
    · simp only [List.mem_append, not_or]
      exact ⟨⟨hsharp, hv'⟩, hsharp'⟩
    · have hlt := Text.count_replace_lt (hfree '$' (.tail _ (.head _)))
        (Reference.dollar_mem_wrap cut.inner) cut.before cut.after
      rwa [← Reference.eq_of_find? hcut] at hlt

/-- Operands of a whole span are whole, and so are the values of the table that they find. -/
lemma asks_whole {s : Stacks} {ts : List Text} {ctx ctx' : Context} {u : Text}
    (h : Asks s ts ctx u ctx') (hts : ∀ t ∈ ts, Text.Whole marks t)
    (hs : ∀ v ∈ s.operands.values, Text.Free marks v.rawText) (htable : ctx.table.Whole marks) :
    ctx'.table.Whole marks := by
  induction h with
  | here _ => exact htable
  | @later s s' t ts ctx c u ctx' htoken _ ih =>
    obtain ⟨htable', hs'⟩ := htoken.of_ensures
      (fun n => .token (perform_free areMarks) hs ((text_whole areMarks n).1 t (hts t (.head _))))
      htable
    exact ih (fun t ht => hts t (.tail _ ht)) hs' htable'

/-- A whole loop calls for whole texts. -/
lemma Calls.whole {s t : Stage} (h : Calls s t) (hs : s.Whole) : t.Whole := by
  cases h with
  | operand hcut hasks =>
    obtain ⟨ht, htable⟩ := hs
    obtain ⟨_, hinner, _, _, hsharp⟩ := ht.of_span areMarks hcut
    have htokens := hinner.tokenize hsharp
    exact ⟨htokens _ hasks.mem,
      asks_whole hasks htokens (fun _ h => absurd h List.not_mem_nil) htable⟩
  | constant hcut hv henter =>
    obtain ⟨_, _, htable⟩ := hs
    obtain ⟨_, _, rfl⟩ := Context.eq_of_enter henter
    exact ⟨htable _ _ hv, htable⟩

/-- A loop at a whole text comes to loops at whole texts only. -/
lemma Reaches.whole {s t : Stage} (h : Reaches s t) (hs : s.Whole) : t.Whole := by
  induction h with
  | refl => exact hs
  | tail _ hstep ih =>
    rcases hstep with hturn | hcall
    · exact (hturn.whole ih).1
    · exact hcall.whole ih

/-- The weight of a whole text bounds the turns of its loop. -/
lemma Turns.le_weight {n : Nat} {s t : Stage} (h : Turns n s t) (hs : s.Whole) :
    n ≤ s.weight := by
  induction h with
  | none s => exact Nat.zero_le _
  | more hturn _ ih =>
    obtain ⟨ht, hlt⟩ := hturn.whole hs
    exact Nat.lt_of_le_of_lt (ih ht) hlt

/-- The evaluation of a whole text on a table of whole texts ends. -/
lemma Whole.halts {s : Stage} (hs : s.Whole) : s.Halts := by
  rw [halts_iff]
  rintro ⟨t, ht, hendless⟩
  obtain ⟨u, hu⟩ := hendless (t.weight + 1)
  exact absurd (hu.le_weight (ht.whole hs)) (Nat.not_succ_le_self _)

end Stage

namespace Engine

variable {engine : Engine} {t : Text} {table : Table}

/-- A text is evaluated to the end if the loop of its spans ends. -/
lemma ends_iff_spans_halt :
    (∃ o, engine.Ends t table o) ↔ (Stage.spans t (engine.start table)).Halts :=
  exists_ends_iff_halts

/-- An evaluation ends if and only if none of the loops that it comes to can be turned for ever. It
ends if the marks of the text and of the table stand in whole spans and whole references. -/
theorem exists_ends_iff :
    ((∃ o, engine.Ends t table o) ↔
      ¬ ∃ s, Stage.Reaches (.spans t (engine.start table)) s ∧ s.Endless) ∧
    (t.Whole Stage.marks → table.Whole Stage.marks → ∃ o, engine.Ends t table o) := by
  refine ⟨ends_iff_spans_halt.trans Stage.halts_iff, ?_⟩
  intro ht htable
  have hwhole : (Stage.spans t (engine.start table)).Whole := ⟨ht, htable⟩
  exact ends_iff_spans_halt.2 hwhole.halts

/-- A sum with a constant that refers to itself by way of another one: every mark stands in a whole
span or a whole reference, so the evaluation ends. -/
theorem exists_ends_iff_circular :
    let t := Span.wrap ("1 + ".toList ++ Reference.wrap ['A'])
    let table := ((Table.empty true).insert ['A'] (Reference.wrap ['B'])).insert ['B']
      ("2".toList ++ Reference.wrap ['A'])
    (t.Whole Stage.marks ∧ table.Whole Stage.marks) ∧ ∃ o, Engine.Ends {} t table o := by
  intro t table
  have hreference (name : Text) (h : Reference.IsName name) :
      (Reference.wrap name).Whole Stage.marks := .wrap_reference h
  have ht : t.Whole Stage.marks :=
    .wrap_span (by decide) (by decide) (by decide)
      ((Text.Whole.of_free (by decide)).append (hreference ['A'] (by decide)))
  have htable : table.Whole Stage.marks :=
    ((Table.Whole.empty _ true).insert (hreference ['B'] (by decide))).insert
      ((Text.Whole.of_free (by decide)).append (hreference ['A'] (by decide)))
  exact ⟨⟨ht, htable⟩, exists_ends_iff.2 ht htable⟩

/-- Two constants that are pieces of references to each other. -/
def alternating : Table :=
  ((Table.empty true).insert ['A'] "$$CONSTANTS.".toList).insert ['B'] "CONSTANTS.A$B$".toList

/-- On `alternating`, the text `$CONSTANTS.A$B$` is rewritten to `$$CONSTANTS.B$` and back again. -/
theorem not_ends_alternating : ¬ ∀ (t : Text) (table : Table), ∃ o, Engine.Ends {} t table o := by
  intro hall
  -- the value of `A` makes the rest of the text a reference to `B`, whose value undoes this
  have hthere : Stage.Turn
      (.references "$CONSTANTS.A$B$".toList (Engine.start {} alternating))
      (.references ("$$CONSTANTS.".toList ++ "B$".toList) (Engine.start {} alternating)) :=
    @Stage.Turn.reference _ ⟨[], ['A'], "B$".toList⟩ _ _ _ (by decide +kernel)
      ⟨nofun, 3, by decide +kernel⟩
  have hback : Stage.Turn
      (.references ("$$CONSTANTS.".toList ++ "B$".toList) (Engine.start {} alternating))
      (.references (['$'] ++ "CONSTANTS.A$B$".toList ++ []) (Engine.start {} alternating)) :=
    @Stage.Turn.reference _ ⟨['$'], ['B'], []⟩ _ _ _ (by decide +kernel)
      ⟨nofun, 3, by decide +kernel⟩
  have hsame : ['$'] ++ "CONSTANTS.A$B$".toList ++ [] = "$CONSTANTS.A$B$".toList := by
    decide +kernel
  rw [hsame] at hback
  have hstart : Stage.Turn (.spans "$CONSTANTS.A$B$".toList (Engine.start {} alternating)) _ :=
    .spanless (by decide +kernel)
  have hhalts := ends_iff_spans_halt.1 (hall "$CONSTANTS.A$B$".toList alternating)
  exact (Stage.endless_of_cycle hthere hback).not_halts (hstart.halts hhalts)

end Engine

end InlineExpr
