import InlineExpr.Proofs.Errors
import InlineExpr.Proofs.Remembering
import InlineExpr.Proofs.Template
import InlineExpr.Proofs.Termination

/-!
# Expansion of references

On a table of templates the evaluation of a template gives its expansion, and every name that the
template reaches holds its own expansion afterwards (`ends_expansion`). While it runs, some
constants hold their expansions already and all others their templates (`Table.Partly`).
-/

namespace InlineExpr

open Reference (IsName)

namespace Table

/-- The table `now` holds the expansion of what the constant held on `table`. -/
abbrev Expanded (table now : Table) : Text → Prop :=
  Holds table.Expands table now

/-- Every constant of `now` holds its template or its expansion, and then all names that it reached
hold theirs. -/
abbrev Partly (table now : Table) : Prop :=
  Remembers table.Expands (fun value name => table.Reachable name value) table now

end Table

namespace Eval

/-- All names that the template reaches are there, none of them is being resolved or reaches itself,
and its chains fit into the depth that is left. -/
structure Fits (table : Table) (ctx : Context) (t : Text) : Prop where
  present : ∀ name, table.Reachable name t → table.get? name ≠ none
  fresh : ∀ name, table.Reachable name t → name ∉ ctx.chain
  acyclic : ∀ name value, table.Reachable name t → table.get? name = some value →
    ¬table.Reachable name value
  short : ∀ names, table.Chain t names → ctx.depth + names.length ≤ ctx.maxDepth

/-- The template was expanded to `out`: on the table `after` all names that it reaches hold their
expansions, and all others what they held on the table `before`. -/
structure Expanded (table before : Table) (t out : Text) (after : Table) : Prop where
  expands : table.Expands t out
  partly : table.Partly after
  reached : ∀ name, table.Reachable name t → table.Expanded after name
  others : ∀ name, ¬table.Reachable name t → after.get? name = before.get? name

/-- The evaluation of a template ended with its expansion, or else with an error that a reference
can end with, and only if the template does not fit. -/
def Expansion (table : Table) (ctx : Context) (t : Text) : Outcome Text → Prop
  | .value out c => Expanded table ctx.table t out c.table
  | .error e _ => e.OfReference ∧ ¬Fits table ctx t
  | .outOfSteps => True

variable {table : Table} {ctx : Context} {s t name value : Text}

/-- A text that refers to less fits where one that refers to more does. -/
lemma Fits.mono (hrefers : ∀ name, Text.Refers name s → Text.Refers name t)
    (h : Fits table ctx t) : Fits table ctx s where
  present name hreach := h.present name (hreach.mono hrefers)
  fresh name hreach := h.fresh name (hreach.mono hrefers)
  acyclic name value hreach := h.acyclic name value (hreach.mono hrefers)
  short names hchain := h.short names (hchain.mono hrefers)

/-- What fits into a context fits into one that agrees with it. -/
lemma Fits.of_keeps {c : Context} (hkeeps : ctx.Keeps c) (h : Fits table ctx t) :
    Fits table c t where
  present := h.present
  fresh name hreach := by
    rw [hkeeps.chain]
    exact h.fresh name hreach
  acyclic := h.acyclic
  short names hchain := by
    rw [hkeeps.depth, hkeeps.maxDepth]
    exact h.short names hchain

/-- Plain text fits into any context. -/
lemma Fits.of_plain (h : t.IsPlain) : Fits table ctx t where
  present name hreach := absurd hreach (Table.not_reachable_of_plain h name)
  fresh name hreach := absurd hreach (Table.not_reachable_of_plain h name)
  acyclic name _ hreach := absurd hreach (Table.not_reachable_of_plain h name)
  short names hchain := absurd hchain (Table.not_chain_of_plain h names)

/-- The value of a constant that is entered fits if the reference to it does. -/
lemma Fits.entered (h : Fits table ctx (Reference.wrap name)) (hname : IsName name)
    (hvalue : table.get? name = some value) :
    Fits table (ctx.entered name) value := by
  have hreach : ∀ other, table.Reachable other (Reference.wrap name) ↔
      other = name ∨ table.Reachable other value :=
    fun other => Table.reachable_wrap_iff hname hvalue
  have hself := (hreach name).2 (.inl rfl)
  have hrefers : Text.Refers name (Reference.wrap name) := (Text.refers_wrap_iff hname).2 rfl
  refine ⟨fun other ho => h.present other ((hreach other).2 (.inr ho)), fun other ho => ?_,
    fun other w ho => h.acyclic other w ((hreach other).2 (.inr ho)), fun names hnames => ?_⟩
  · rw [Context.entered, List.mem_append, List.mem_singleton]
    rintro (hm | rfl)
    · exact h.fresh other ((hreach other).2 (.inr ho)) hm
    · exact h.acyclic other value hself hvalue ho
  · have hlonger := h.short _ (.more hrefers hvalue hnames)
    simp only [Context.entered, List.length_cons] at hlonger ⊢
    omega

/-- A constant is refused only if the reference to it does not fit. -/
lemma not_fits_of_refused {e : EvalError} (hname : IsName name)
    (henter : ctx.enter name = .error e) :
    e.OfReference ∧ ¬Fits table ctx (Reference.wrap name) := by
  have hrefers : Text.Refers name (Reference.wrap name) := (Text.refers_wrap_iff hname).2 rfl
  rw [Context.enter] at henter
  split at henter
  · rename_i hdepth
    cases henter
    refine ⟨trivial, fun h => ?_⟩
    have hshort := h.short _ (.last hrefers)
    rw [List.length_singleton] at hshort
    omega
  · split at henter
    · rename_i hchain
      cases henter
      exact ⟨trivial, fun h => h.fresh name (.direct hrefers) hchain⟩
    · cases henter

/-- A plain text stands for itself and reaches no names. -/
lemma Expanded.of_plain (h : t.IsPlain) (hpartly : table.Partly ctx.table) :
    Expanded table ctx.table t t ctx.table where
  expands := .of_plain h.2
  partly := hpartly
  reached name hreach := absurd hreach (Table.not_reachable_of_plain h name)
  others _ _ := rfl

/-- A constant that holds the expansion of its value is resolved as the value would be. -/
lemma Expansion.of_expands {w : Text} {o : Outcome Text} (h : Expansion table ctx w o)
    (hw : w.IsPlain) (hvalue : table.Expands value w)
    (hclosed : ∀ name, table.Reachable name value → table.Expanded ctx.table name) :
    Expansion table ctx value o := by
  cases o with
  | value out c =>
    have hsame (name : Text) := h.others name (Table.not_reachable_of_plain hw name)
    obtain rfl := h.expands.eq_of_plain hw.2
    exact ⟨hvalue, h.partly, fun name hreach => (hclosed name hreach).congr (hsame name),
      fun name _ => hsame name⟩
  | error e c => exact absurd (Fits.of_plain hw) h.2
  | outOfSteps => trivial

/-- A constant takes in what its value was expanded to. -/
lemma Expanded.insert {before after : Table} {out : Text}
    (h : Expanded table before value out after) (hname : IsName name)
    (hvalue : table.get? name = some value) :
    Expanded table before (Reference.wrap name) out (after.insert name out) := by
  refine ⟨?_, h.partly.insert hvalue h.expands h.reached, fun other hother => ?_,
    fun other hother => ?_⟩
  · rw [← List.append_nil (Reference.wrap name), ← List.append_nil out]
    exact .reference hname hvalue h.expands .nil
  · rcases (Table.reachable_wrap_iff hname hvalue).1 hother with rfl | hother
    · exact .of_insert hvalue h.expands
    · exact (h.reached other hother).insert hvalue h.expands
  · rw [Table.reachable_wrap_iff hname hvalue, not_or] at hother
    rw [Table.get?_insert, if_neg (Ne.symm hother.1), h.others other hother.2]

section Runs

variable (htable : ∀ name v, table.get? name = some v → v.Template)

include htable

/-- A constant is expanded if every template is when it is resolved. -/
lemma constant_expansion {resolve : Text → Eval Text}
    (hr : ∀ t ctx, t.Template → table.Partly ctx.table → Expansion table ctx t (resolve t ctx))
    (hname : IsName name) (hpartly : table.Partly ctx.table) :
    Expansion table ctx (Reference.wrap name) (constant resolve name ctx) := by
  cases hw : ctx.table.get? name with
  | none =>
    rw [constant_of_missing hw]
    refine ⟨trivial, fun h => ?_⟩
    have hpresent := h.present name (.direct ((Text.refers_wrap_iff hname).2 rfl))
    exact hpresent (hpartly.get?_eq_none hw)
  | some w =>
    cases henter : ctx.enter name with
    | error e =>
      rw [constant_of_refused hw henter]
      exact not_fits_of_refused hname henter
    | ok inner =>
      obtain ⟨-, -, rfl⟩ := Context.eq_of_enter henter
      rw [constant_of_entered hw henter]
      obtain ⟨value, hvalue, hheld⟩ := hpartly.of_get? hw
      -- whether the constant holds its value or its expansion, its value is expanded
      have hinner : Expansion table (ctx.entered name) value (resolve w (ctx.entered name)) := by
        rcases hheld with rfl | ⟨hexpands, hclosed⟩
        · exact hr w _ (htable name w hvalue) hpartly
        · have hplain := hexpands.plain htable (htable name value hvalue)
          have hw := hr w (ctx.entered name) (.of_plain hplain) hpartly
          exact hw.of_expands hplain hexpands hclosed
      cases hx : resolve w (ctx.entered name) with
      | value out c =>
        rw [hx] at hinner
        exact hinner.insert hname hvalue
      | error e c =>
        rw [hx] at hinner
        exact ⟨hinner.1, fun h => hinner.2 (h.entered hname hvalue)⟩
      | outOfSteps => trivial

/-- Expansion goes on behind a reference that was replaced by its expansion. -/
lemma Expansion.after_reference {cut : Cut} (ht : t.Template)
    (hcut : Reference.find? t = some cut) {v : Text} {c : Context} (hkeeps : ctx.Keeps c)
    (hv : Expanded table ctx.table (Reference.wrap cut.inner) v c.table) {o : Outcome Text}
    (h : Expansion table c (cut.before ++ v ++ cut.after) o) : Expansion table ctx t o := by
  obtain ⟨hbefore, hname, hafter⟩ := ht.of_reference hcut
  have hplain : (cut.before ++ v).IsPlain :=
    hbefore.append (hv.expands.plain htable (.wrap hname))
  have htext : t = cut.before ++ (Reference.wrap cut.inner ++ cut.after) := by
    rw [← List.append_assoc]
    exact Reference.eq_of_find? hcut
  have hreach (n : Text) : table.Reachable n t ↔
      table.Reachable n (Reference.wrap cut.inner) ∨ table.Reachable n cut.after := by
    rw [htext, Table.reachable_plain_append_iff hbefore, Table.reachable_append_iff (.wrap hname)]
  have hrest (n : Text) : table.Reachable n (cut.before ++ v ++ cut.after) ↔
      table.Reachable n cut.after := Table.reachable_plain_append_iff hplain
  cases o with
  | value out c' =>
    obtain ⟨w, rfl, hw⟩ := h.expands.plain_append_inv hplain.2
    refine ⟨?_, h.partly, fun n hn => ?_, fun n hn => ?_⟩
    · rw [htext, List.append_assoc]
      exact .append (.of_plain hbefore.2) (hv.expands.append hw)
    · by_cases hn' : table.Reachable n (cut.before ++ v ++ cut.after)
      · exact h.reached n hn'
      · have hnow := (hreach n).1 hn
        rw [hrest] at hn'
        exact (hv.reached n (hnow.resolve_right hn')).congr (h.others n (mt (hrest n).1 hn'))
    · rw [hreach, not_or] at hn
      rw [h.others n (mt (hrest n).1 hn.2), hv.others n hn.1]
  | error e c' =>
    refine ⟨h.1, fun hfits => h.2 ((hfits.of_keeps hkeeps).mono fun n hn => ?_)⟩
    rw [Text.refers_append_iff (.of_plain hplain),
      or_iff_right (Text.not_refers_of_plain hplain n)] at hn
    rw [htext, Text.refers_append_iff (.of_plain hbefore), Text.refers_append_iff (.wrap hname)]
    exact .inr (.inr hn)
  | outOfSteps => trivial

/-- Within any number of steps, a template on a table that holds values or expansions is expanded,
or does not fit. -/
lemma text_expansion (n : Nat) :
    (∀ t ctx, t.Template → table.Partly ctx.table → Expansion table ctx t (text n t ctx)) ∧
      ∀ t ctx, t.Template → table.Partly ctx.table →
        Expansion table ctx t (references n t ctx) := by
  induction n with
  | zero =>
    refine ⟨fun t ctx _ _ => ?_, fun t ctx _ _ => ?_⟩
    · rw [text]
      trivial
    · rw [references]
      trivial
  | succ n ih =>
    obtain ⟨iht, ihr⟩ := ih
    refine ⟨fun t ctx ht hpartly => ?_, fun t ctx ht hpartly => ?_⟩
    · rw [text_of_no_span (Span.find?_eq_none_of_not_mem ht.sharp_not_mem)]
      exact ihr t ctx ht hpartly
    · cases hcut : Reference.find? t with
      | none =>
        rw [references_of_no_reference hcut]
        exact .of_plain (ht.plain hcut) hpartly
      | some cut =>
        obtain ⟨hbefore, hname, hafter⟩ := ht.of_reference hcut
        have hconstant := constant_expansion htable iht hname hpartly
        rw [references_of_reference hcut, bind_apply]
        cases hx : constant (text n) cut.inner ctx with
        | value v c =>
          rw [hx] at hconstant
          have hkeeps := (constant_keeps (text_keeps n) cut.inner).of_value hx
          have hreplaced := hbefore.append (hconstant.expands.plain htable (.wrap hname))
          exact .after_reference htable ht hcut hkeeps hconstant
            (ihr _ c ((Text.Template.of_plain hreplaced).append hafter) hconstant.partly)
        | error e c =>
          rw [hx] at hconstant
          refine ⟨hconstant.1, fun hfits => hconstant.2 (hfits.mono fun other hother => ?_)⟩
          rw [Reference.eq_of_find? hcut, List.append_assoc,
            Text.refers_append_iff (.of_plain hbefore), Text.refers_append_iff (.wrap hname)]
          exact .inr (.inl hother)
        | outOfSteps => trivial

end Runs

end Eval

/-- In a template all marks stand in whole references. -/
lemma Text.Template.whole {t : Text} (h : t.Template) : t.Whole Stage.marks := by
  induction h with
  | nil => exact .nil
  | char hsharp hdollar _ ih => exact .char (by simp [Stage.marks, hsharp, hdollar]) ih
  | reference hname _ ih => exact .reference hname ih

namespace Engine

open Eval

variable {engine : Engine} {t : Text} {table : Table}

/-- On a table of templates the evaluation of a template ends. -/
lemma exists_ends_of_template (ht : t.Template)
    (htable : ∀ name v, table.get? name = some v → v.Template) : ∃ o, engine.Ends t table o := by
  have hwhole : (Stage.spans t (engine.start table)).Whole :=
    ⟨ht.whole, fun name v hv => (htable name v hv).whole⟩
  exact ends_iff_spans_halt.2 hwhole.halts

/-- Where all names that a template reaches are there, none of them reaches itself, and no chain of
references is longer than the depth limit, the evaluation ends with the expansion of the template,
every name that it reaches holds its own expansion, and all others are as they were. Where a name
that it reaches is missing or reaches itself, the evaluation ends with an error of a reference. -/
theorem ends_expansion (ht : t.Template)
    (htable : ∀ name v, table.get? name = some v → v.Template) :
    ((∀ name, table.Reachable name t → table.get? name ≠ none) →
      (∀ name value, table.Reachable name t → table.get? name = some value →
        ¬table.Reachable name value) →
      (∀ names, table.Chain t names → names.length ≤ engine.maxDepth) →
      ∃ out ctx, engine.Ends t table (.value out ctx) ∧ (∀ v, table.Expands t v ↔ v = out) ∧
        (∀ name, table.Reachable name t → ∃ value v, table.get? name = some value ∧
          table.Expands value v ∧ ctx.table.get? name = some v) ∧
        ∀ name, ¬table.Reachable name t → ctx.table.get? name = table.get? name) ∧
    ((∃ name, table.Reachable name t ∧ (table.get? name = none ∨
        ∃ value, table.get? name = some value ∧ table.Reachable name value)) →
      ∃ e ctx, engine.Ends t table (.error e ctx) ∧ e.OfReference) := by
  obtain ⟨o, hends⟩ := exists_ends_of_template ht htable
  have hexpansion : Expansion table (engine.start table) t o := by
    obtain ⟨-, n, hn⟩ := hends
    rw [← hn]
    exact (text_expansion htable n).1 t (engine.start table) ht (.refl _ _ table)
  constructor
  · intro hpresent hacyclic hshort
    have hfits : Fits table (engine.start table) t := by
      refine ⟨hpresent, fun _ _ => List.not_mem_nil, hacyclic, fun names hnames => ?_⟩
      have hdepth : (engine.start table).depth = 0 := rfl
      rw [hdepth, Nat.zero_add]
      exact hshort names hnames
    cases o with
    | value out ctx =>
      refine ⟨out, ctx, hends, fun v => ⟨fun hv => hv.unique hexpansion.expands, ?_⟩,
        hexpansion.reached, hexpansion.others⟩
      rintro rfl
      exact hexpansion.expands
    | error e ctx => exact absurd hfits hexpansion.2
    | outOfSteps => exact absurd rfl hends.1
  · rintro ⟨name, hreach, hbad⟩
    cases o with
    | value out ctx =>
      obtain ⟨value, v, hvalue, -⟩ := hexpansion.expands.present hreach
      rcases hbad with hnone | ⟨w, hw, hself⟩
      · cases hvalue.symm.trans hnone
      · exact absurd hself (hexpansion.expands.acyclic hreach hw)
    | error e ctx => exact ⟨e, ctx, hends, hexpansion.1⟩
    | outOfSteps => exact absurd rfl hends.1

/-- A constant that refers to another one twice, and one that refers to itself. -/
def sharing : Table :=
  ((Table.empty true).insert ['A'] (Reference.wrap ['B'] ++ Reference.wrap ['B'])).insert
    ['B'] ['x'] |>.insert ['L'] (Reference.wrap ['L'])

/-- Every value of the table is a template. -/
lemma sharing_template (name v : Text) (hv : sharing.get? name = some v) : v.Template := by
  have hB : IsName ['B'] := by decide
  simp only [sharing, Table.get?_insert, Table.get?_empty] at hv
  split at hv
  · cases hv
    exact .wrap (by decide)
  · split at hv
    · cases hv
      exact .of_plain (by decide)
    · split at hv
      · cases hv
        exact .reference hB (.wrap hB)
      · cases hv

/-- The first constant refers to the second one twice. -/
lemma sharing_get?_A : sharing.get? ['A'] = some (Reference.wrap ['B'] ++ Reference.wrap ['B']) :=
  rfl

/-- The second constant is plain text. -/
lemma sharing_get?_B : sharing.get? ['B'] = some ['x'] := rfl

/-- From the second constant nothing else is reached. -/
lemma sharing_reachable_B_iff {name : Text} :
    sharing.Reachable name (Reference.wrap ['B']) ↔ name = ['B'] := by
  rw [Table.reachable_wrap_iff (by decide) sharing_get?_B,
    or_iff_left (Table.not_reachable_of_plain (by decide) name)]

/-- From the first constant the second one is reached. -/
lemma sharing_reachable_A_iff {name : Text} :
    sharing.Reachable name (Reference.wrap ['A']) ↔ name = ['A'] ∨ name = ['B'] := by
  rw [Table.reachable_wrap_iff (by decide) sharing_get?_A,
    Table.reachable_append_iff (.wrap (by decide)), or_self, sharing_reachable_B_iff]

/-- No constant that is reached from the first one reaches itself. -/
lemma sharing_acyclic {name value : Text} (hname : sharing.Reachable name (Reference.wrap ['A']))
    (hvalue : sharing.get? name = some value) : ¬sharing.Reachable name value := by
  intro hself
  rcases sharing_reachable_A_iff.1 hname with rfl | rfl
  · cases sharing_get?_A.symm.trans hvalue
    rw [Table.reachable_append_iff (.wrap (by decide)), or_self, sharing_reachable_B_iff] at hself
    exact absurd hself (by decide)
  · cases sharing_get?_B.symm.trans hvalue
    exact Table.not_reachable_of_plain (by decide) _ hself

/-- Chains from the first constant have two names at most. -/
lemma length_of_chain_sharing {names : List Text}
    (h : sharing.Chain (Reference.wrap ['A']) names) : names.length ≤ 2 := by
  cases h with
  | last _ => exact Nat.le_succ 1
  | more hrefers hvalue hchain =>
    obtain rfl := (Text.refers_wrap_iff (by decide)).1 hrefers
    cases sharing_get?_A.symm.trans hvalue
    cases hchain with
    | last _ => exact Nat.le_refl 2
    | more hrefers hvalue hchain =>
      rw [Text.refers_wrap_append_iff (by decide), Text.refers_wrap_iff (by decide), or_self]
        at hrefers
      subst hrefers
      cases sharing_get?_B.symm.trans hvalue
      exact absurd hchain (Table.not_chain_of_plain (by decide) _)

/-- A constant that is shared is expanded, and one that refers to itself is refused. -/
theorem ends_expansion_sharing :
    (∃ out ctx, Engine.Ends {} (Reference.wrap ['A']) sharing (.value out ctx) ∧
      (∀ v, sharing.Expands (Reference.wrap ['A']) v ↔ v = out) ∧
      ctx.table.get? ['L'] = some (Reference.wrap ['L'])) ∧
    ∃ e ctx, Engine.Ends {} (Reference.wrap ['L']) sharing (.error e ctx) ∧ e.OfReference := by
  have hA : IsName ['A'] := by decide
  have hL : IsName ['L'] := by decide
  constructor
  · have hpresent : ∀ name, sharing.Reachable name (Reference.wrap ['A']) →
        sharing.get? name ≠ none := by
      intro name hname
      rcases sharing_reachable_A_iff.1 hname with rfl | rfl
      · exact (nomatch ·)
      · exact (nomatch ·)
    have hshort : ∀ names, sharing.Chain (Reference.wrap ['A']) names →
        names.length ≤ maxDepth {} :=
      fun names hnames => Nat.le_trans (length_of_chain_sharing hnames) (Nat.le_add_left 2 62)
    obtain ⟨out, ctx, hends, hout, -, hothers⟩ := (ends_expansion (.wrap hA) sharing_template).1
      hpresent (fun _ _ => sharing_acyclic) hshort
    refine ⟨out, ctx, hends, hout, (hothers _ ?_).trans rfl⟩
    rw [sharing_reachable_A_iff]
    decide
  · have hreach : sharing.Reachable ['L'] (Reference.wrap ['L']) :=
      .direct ((Text.refers_wrap_iff hL).2 rfl)
    exact (ends_expansion (.wrap hL) sharing_template).2 ⟨['L'], hreach, .inr ⟨_, rfl, hreach⟩⟩

end Engine

end InlineExpr
