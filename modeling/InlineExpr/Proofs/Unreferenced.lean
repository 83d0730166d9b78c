import InlineExpr.Proofs.Alphabet
import InlineExpr.Proofs.Requests
import InlineExpr.Proofs.Resolution

/-!
# No reference survives

A text is searched for references until none is found, so its result holds none
(`Reference.find?_eq_none_iff`). The operators do not bring one back: what they write of themselves
has no opening mark, and a reference in a piece of an operand is one in the operand. Results of
texts are all that a table takes in, so no reference is in what it took in either
(`no_reference_survives`).
-/

namespace InlineExpr

/-- Somewhere in the text stands a reference. -/
def Text.HoldsReference (t : Text) : Prop :=
  ∃ name, Reference.IsName name ∧ Reference.wrap name <:+: t

namespace Reference

/-- A reference that is found has a name. -/
lemma isName_of_find? {t : Text} {cut : Cut} (h : find? t = some cut) : IsName cut.inner := by
  fun_induction find? t generalizing cut with
  | case1 => cases h
  | case2 c t name rest hs =>
    cases h
    obtain ⟨-, hne, hname⟩ := eq_of_atStart? hs
    exact ⟨hne, List.all_eq_true.2 hname⟩
  | case3 c t _ ih =>
    obtain ⟨inner, hi, hb⟩ := Option.map_eq_some_iff.1 h
    cases hb
    have hinner : IsName inner.inner := ih hi
    exact hinner

/-- The search for a reference finds one wherever one stands. -/
lemma find?_ne_none {name t : Text} (hname : IsName name) (h : wrap name <:+: t) :
    find? t ≠ none := by
  induction t with
  | nil => simp [wrap, closing] at h
  | cons c t ih =>
    rw [find?]
    cases hs : atStart? (c :: t) with
    | some _ => simp
    | none =>
      obtain ⟨rest, hrest⟩ | hpiece := List.infix_cons_iff.1 h
      · simp [← hrest, atStart?_wrap hname] at hs
      · simpa using ih hpiece

/-- A reference is found exactly if the text holds one. -/
lemma find?_eq_none_iff {t : Text} : find? t = none ↔ ¬ t.HoldsReference := by
  constructor
  · rintro h ⟨name, hname, hpiece⟩
    exact find?_ne_none hname hpiece h
  · intro h
    cases hcut : find? t with
    | none => rfl
    | some cut =>
      have hpiece : wrap cut.inner <:+: t := ⟨cut.before, cut.after, (eq_of_find? hcut).symm⟩
      exact absurd ⟨cut.inner, isName_of_find? hcut, hpiece⟩ h

end Reference

/-- No operator makes a reference. -/
lemma Text.isKept_unreferenced : IsKept (¬ ·.HoldsReference) where
  written h := by
    rintro ⟨name, -, hpiece⟩
    -- the operators do not write the opening mark
    have hwritten := h '$' (hpiece.subset (Reference.dollar_mem_wrap name))
    simp [isWritten] at hwritten
  piece hs ht := by
    rintro ⟨name, hname, hpiece⟩
    exact ht ⟨name, hname, hpiece.trans hs⟩

namespace Eval

/-- No reference is in the result of a text. -/
lemma text_unreferenced (n : Nat) (t : Text) :
    Ensures (fun _ => True) (text n t) (¬ ·.HoldsReference) := by
  intro ctx _
  cases h : text n t ctx with
  | value out c =>
    have hnone := (no_reference_of_value n).1 t ctx out c h
    exact ⟨trivial, Reference.find?_eq_none_iff.1 hnone⟩
  | error e c => trivial
  | outOfSteps => trivial

/-- Operands without references make a result without. -/
lemma expression_unreferenced (n : Nat) (ts : List Text) :
    Ensures (fun _ => True) (expression (text n) ts) (¬ ·.HoldsReference) := by
  have hperform : ∀ (op : Operator) o, (∀ v ∈ o.values, v.Has (¬ ·.HoldsReference)) →
      ∀ v ∈ (op.perform o).2.values, v.Has (¬ ·.HoldsReference) :=
    fun op _ => Operator.perform_has Text.isKept_unreferenced op
  apply Ensures.weaken (.expression hperform fun t _ => text_unreferenced n t)
  rintro _ ⟨v, hv, rfl⟩
  exact hv.asText Text.isKept_unreferenced

end Eval

/-- A constant has the value that it had, or one with the property. -/
def Context.TakesIn (P : Text → Prop) (ctx c : Context) : Prop :=
  ∀ name v, c.table.get? name = some v → ctx.table.get? name = some v ∨ P v

namespace Context

variable {P : Text → Prop} {ctx c : Context}

/-- What constants take in is carried by all parts of an evaluation. -/
lemma takesIn_isFrame : Eval.IsFrame (TakesIn P) where
  refl _ _ _ h := .inl h
  trans hab hbc name v h := by
    obtain hb | hP := hbc name v h
    · exact hab name v hb
    · exact .inr hP
  separators _ _ _ _ h := .inl h

/-- A constant may take in a text with the property. -/
lemma TakesIn.define (h : TakesIn P ctx c) (name : Text) {value : Text} (hvalue : P value) :
    TakesIn P ctx (c.define name value) := by
  intro other v hv
  exact Table.of_get?_insert h (.inr hvalue) hv

end Context

namespace Eval

open Context (TakesIn takesIn_isFrame)

variable {P : Text → Prop} {resolve : Text → Eval Text}

/-- Where the values of constants are resolved to texts with the property, the table takes in no
others. -/
lemma constant_takesIn (hr : ∀ t, Within (TakesIn P) (resolve t))
    (hP : ∀ t, Ensures (fun _ => True) (resolve t) P) (name : Text) :
    Within (TakesIn P) (constant resolve name) := by
  apply Within.constant takesIn_isFrame
  · intro ctx value v c _ _ h
    have hv := hP value (ctx.entered name) trivial
    rw [h] at hv
    exact TakesIn.define ((hr value).of_value h) name hv.2
  · intro ctx value e c _ _ h
    have hc : TakesIn P (ctx.entered name) c := (hr value).of_error h
    exact hc

end Eval

namespace Request

open Eval

variable {r : Request} {ctx c : Context} {o : Outcome Text}

/-- No request has a result that holds a reference. -/
lemma run_unreferenced (n : Nat) (r : Request) :
    Ensures (fun _ => True) (r.run n) (¬ ·.HoldsReference) := by
  cases r with
  | text t => exact text_unreferenced n t
  | expression ts => exact expression_unreferenced n ts
  | constant name =>
    exact .constant name (fun t _ _ _ => text_unreferenced n t) fun _ _ _ _ => trivial

/-- Wherever a request ends, neither its result nor any value that the table took in holds a
reference. -/
theorem no_reference_survives (h : r.Ends ctx o) (hc : o.context? = some c) :
    (∀ out, o = .value out c → ¬ out.HoldsReference) ∧
      ∀ name v, c.table.get? name = some v → ctx.table.get? name ≠ some v →
        ¬ v.HoldsReference := by
  refine ⟨?_, ?_⟩
  · rintro out rfl
    obtain ⟨-, n, hn⟩ := h
    have hout := run_unreferenced n r ctx trivial
    rw [show r.run n ctx = _ from hn] at hout
    exact hout.2
  · intro name v hv hne
    have htakes := h.within Context.takesIn_isFrame
      (fun n name hr => constant_takesIn hr (text_unreferenced n) name) hc
    obtain hold | hv := htakes name v hv
    · exact absurd hold hne
    · exact hv

/-- What `A` is resolved to makes a reference to `B` of the text behind it. -/
theorem no_reference_survives_joined :
    let table := (((Table.empty true).insert ['A'] "$CONST$CONSTANTS.C$".toList).insert ['B']
      (Span.wrap "1 + 1".toList)).insert ['C'] []
    let ctx := Engine.start {} table
    let c := Engine.start {} ((table.insert ['A'] "$CONST".toList).insert ['B'] ['2'])
    Ends (.text "$CONSTANTS.A$ANTS.B$".toList) ctx (.value ['2'] c) ∧
      ¬ Text.HoldsReference ['2'] ∧ ctx.table.get? ['A'] ≠ some "$CONST".toList ∧
      c.table.get? ['A'] = some "$CONST".toList ∧ ¬ Text.HoldsReference "$CONST".toList := by
  intro table ctx c
  have hends : Ends (.text "$CONSTANTS.A$ANTS.B$".toList) ctx (.value ['2'] c) :=
    ⟨nofun, 8, by decide +kernel⟩
  have hbefore : ctx.table.get? ['A'] ≠ some "$CONST".toList := by decide +kernel
  have hafter : c.table.get? ['A'] = some "$CONST".toList := by decide +kernel
  obtain ⟨hout, htable⟩ := no_reference_survives hends rfl
  exact ⟨hends, hout _ rfl, hbefore, hafter, htable _ _ hafter hbefore⟩

end Request

end InlineExpr
