import InlineExpr.Proofs.Operands
import Mathlib.Data.List.Forall2

/-!
# Values that no operator tells apart

Operators see a value through its text, its truth value, its number and its absence. Where two
values agree in these they are alike (`Value.Alike`), and alike operands make alike results or one
and the same error (`Operator.result_alike`). In particular a value is like its own text, although a
truth value turns into a word and the placeholder into the empty text (`Value.alike_text`). The
errors are those of single operators; none of them is about the expression as a whole.
-/

namespace InlineExpr

/-- The errors that single operators raise. -/
def EvalError.OfOperator : EvalError → Prop
  | .typeMismatch .. | .parameterCount .. | .arithmetic .. | .outOfBounds ..
  | .missingOperand _ => True
  | _ => False

/-- The values agree in all that operators see of them. -/
structure Value.Alike (v w : Value) : Prop where
  asText : v.asText = w.asText
  asBool? : v.asBool? = w.asBool?
  asNumber? : v.asNumber? = w.asNumber?
  isAbsent : v.isAbsent = w.isAbsent

/-- Both are results, and they are related, or both are the same error of an operator. -/
def Agree {α β : Type} (R : α → β → Prop) : Except EvalError α → Except EvalError β → Prop
  | .ok a, .ok b => R a b
  | .error e, .error e' => e = e' ∧ e.OfOperator
  | _, _ => False

namespace Value

/-- A value is like itself. -/
lemma Alike.refl (v : Value) : v.Alike v :=
  ⟨rfl, rfl, rfl, rfl⟩

/-- The text of a value is its own text. -/
lemma asText_text_asText (v : Value) : (text v.asText).asText = v.asText := by
  have hnot : ∀ b, boolText b ≠ placeholder := by decide
  cases v with
  | bool b => exact if_neg (hnot b)
  | text t =>
    by_cases h : t = placeholder
    · subst h
      decide
    · rw [show (text t).asText = t from if_neg h, asText, if_neg h]

/-- A value is not told apart from its text. -/
lemma alike_text (v : Value) : v.Alike (text v.asText) where
  asText := v.asText_text_asText.symm
  asBool? := by
    cases v with
    | bool b => cases b <;> decide
    | text t =>
      by_cases h : t = placeholder
      · subst h
        decide
      · rw [asText, if_neg h]
  asNumber? := by
    cases v with
    | bool b => cases b <;> decide
    | text t => exact congrArg Binary64.ofText? (text t).asText_text_asText.symm
  isAbsent := by
    cases v with
    | bool b => cases b <;> decide
    | text t =>
      by_cases h : t = placeholder
      · subst h
        decide
      · rw [asText, if_neg h]

end Value

namespace Agree

variable {α β γ δ : Type} {R : α → β → Prop} {S : γ → δ → Prop}

/-- What follows on related results agrees if it agrees on all that are related. -/
lemma bind {x : Except EvalError α} {y : Except EvalError β} {f : α → Except EvalError γ}
    {g : β → Except EvalError δ} (h : Agree R x y) (hf : ∀ a b, R a b → Agree S (f a) (g b)) :
    Agree S (x >>= f) (y >>= g) := by
  cases x with
  | ok a =>
    cases y with
    | ok b => exact hf a b h
    | error e => exact h.elim
  | error e =>
    cases y with
    | ok b => exact h.elim
    | error e' => exact h

/-- Functions that take related results to related ones keep the agreement. -/
lemma map {x : Except EvalError α} {y : Except EvalError β} {f : α → γ} {g : β → δ}
    (h : Agree R x y) (hf : ∀ a b, R a b → S (f a) (g b)) : Agree S (x.map f) (y.map g) := by
  cases x with
  | ok a =>
    cases y with
    | ok b => exact hf a b h
    | error e => exact h.elim
  | error e =>
    cases y with
    | ok b => exact h.elim
    | error e' => exact h

/-- Results that agree are the same, or the same error. -/
lemma eq {x y : Except EvalError α} (h : Agree Eq x y) : x = y := by
  cases x with
  | ok a =>
    cases y with
    | ok b => exact congrArg _ h
    | error e => exact h.elim
  | error e =>
    cases y with
    | ok b => exact h.elim
    | error e' => exact congrArg _ h.1

end Agree

namespace Reduction

open Value (Alike)

variable {α β : Type}

/-- On values that are alike, the reductions agree and leave values that are alike. -/
def Indifferent (R : α → α → Prop) (r s : Reduction α) : Prop :=
  ∀ vs ws, List.Forall₂ Alike vs ws →
    Agree R (r.apply vs).1 (s.apply ws).1 ∧ List.Forall₂ Alike (r.apply vs).2 (s.apply ws).2

namespace Indifferent

variable {R : α → α → Prop} {S : β → β → Prop}

/-- Results that agree without any operands make reductions that agree. -/
lemma ofExcept {x y : Except EvalError α} (h : Agree R x y) :
    Indifferent R (ofExcept x) (ofExcept y) := by
  intro vs ws hvs
  cases x with
  | ok a =>
    cases y with
    | ok b => exact ⟨h, hvs⟩
    | error e => exact h.elim
  | error e =>
    cases y with
    | ok b => exact h.elim
    | error e' => exact ⟨h, hvs⟩

/-- Related values at once agree. -/
lemma pure {a b : α} (h : R a b) : Indifferent R (pure a) (pure b) :=
  fun _ _ hvs => ⟨h, hvs⟩

/-- An error of an operator agrees with itself. -/
lemma throw {e : EvalError} (h : e.OfOperator) : Indifferent R (throw e) (throw e) :=
  fun _ _ hvs => ⟨⟨rfl, h⟩, hvs⟩

/-- Operands taken from alike values are alike. -/
lemma operand (op : Operator) : Indifferent Alike (operand op) (operand op) := by
  intro vs ws hvs
  cases hvs with
  | nil => exact ⟨⟨rfl, trivial⟩, .nil⟩
  | cons hv hrest => exact ⟨hv, hrest⟩

/-- What follows on related values is indifferent if it is on all that are related. -/
lemma bind {r s : Reduction α} {f g : α → Reduction β} (h : Indifferent R r s)
    (hf : ∀ a b, R a b → Indifferent S (f a) (g b)) : Indifferent S (r >>= f) (s >>= g) := by
  intro vs ws hvs
  obtain ⟨hagree, hrest⟩ := h vs ws hvs
  rw [apply_bind, apply_bind]
  cases hr : r.apply vs with
  | mk x vs' =>
    cases hs : s.apply ws with
    | mk y ws' =>
      rw [hr, hs] at hagree hrest
      cases x with
      | ok a =>
        cases y with
        | ok b => exact hf a b hagree vs' ws' hrest
        | error e => exact hagree.elim
      | error e =>
        cases y with
        | ok b => exact hagree.elim
        | error e' => exact ⟨hagree, hrest⟩

end Indifferent

end Reduction

namespace Operator

open Reduction
open Value (Alike)

variable {v w a b a' b' : Value}

/-- Alike values are read as the same number, or refused alike. -/
lemma decimalOf_alike (op : Operator) (h : v.Alike w) :
    Agree Eq (op.decimalOf v) (op.decimalOf w) := by
  rw [decimalOf, decimalOf, h.asText]
  cases Decimal.ofText? w.asText with
  | some d => rfl
  | none => exact ⟨rfl, trivial⟩

/-- Alike values are read as the same truth value, or refused alike. -/
lemma boolOf_alike (op : Operator) (h : v.Alike w) : Agree Eq (op.boolOf v) (op.boolOf w) := by
  rw [boolOf, boolOf, h.asBool?, h.asText]
  cases w.asBool? with
  | some b => rfl
  | none => exact ⟨rfl, trivial⟩

/-- Alike values are read as the same index, or refused alike. -/
lemma indexOf_alike (op : Operator) (h : v.Alike w) :
    Agree Eq (op.indexOf v) (op.indexOf w) := by
  rw [indexOf, indexOf, h.asNumber?, h.asText]
  cases w.asNumber?.bind Binary64.truncate? with
  | some i => rfl
  | none => exact ⟨rfl, trivial⟩

/-- Arithmetic does not tell alike operands apart. -/
lemma arithmetic_alike (op : Operator)
    (f : Decimal → Decimal → Except Decimal.DivisionError Decimal)
    (ha : a.Alike a') (hb : b.Alike b') :
    Agree Alike (arithmetic op f a b) (arithmetic op f a' b') := by
  apply Agree.bind (decimalOf_alike op ha)
  rintro x _ rfl
  apply Agree.bind (decimalOf_alike op hb)
  rintro y _ rfl
  cases f x y with
  | ok d => exact .refl _
  | error e => exact ⟨rfl, trivial⟩

/-- The order does not tell alike operands apart. -/
lemma ordered_alike (accept : Ordering → Bool) (ha : a.Alike a') (hb : b.Alike b') :
    Agree Alike (ordered accept a b) (ordered accept a' b') := by
  rw [ordered, ordered, order?, order?, ha.asNumber?, hb.asNumber?, ha.asText, hb.asText]
  exact .refl _

/-- Logic does not tell alike operands apart. -/
lemma logical_alike (op : Operator) (f : Bool → Bool → Bool) (ha : a.Alike a') (hb : b.Alike b') :
    Agree Alike (logical op f a b) (logical op f a' b') := by
  apply Agree.bind (boolOf_alike op ha)
  rintro x _ rfl
  apply Agree.bind (boolOf_alike op hb)
  rintro y _ rfl
  exact .refl _

/-- Which branch a choice has as its result depends on the truth value of the predicate alone. -/
lemma choose_alike {p p' t t' f f' : Value} (hp : p.Alike p') (ht : t.Alike t')
    (hf : f.Alike f') : Agree Alike (choose p t f) (choose p' t' f') := by
  apply Agree.bind (boolOf_alike colon hp)
  rintro x _ rfl
  cases x with
  | true => exact ht
  | false => exact hf

/-- The same slice of the same text agrees with itself. -/
lemma slice_agree (t : Text) (first last : Int) :
    Agree Alike (slice t first last) (slice t first last) := by
  rw [slice]
  split
  · exact .refl _
  · exact ⟨rfl, trivial⟩

/-- An operator on two operands is indifferent if its function agrees on alike ones. -/
lemma binary_indifferent (op : Operator) {f : Value → Value → Except EvalError Value}
    (h : ∀ {a a' b b'}, a.Alike a' → b.Alike b' → Agree Alike (f a b) (f a' b')) :
    Indifferent Alike (binary op f) (binary op f) :=
  .bind (.operand op) fun _ _ hb => .bind (.operand op) fun _ _ ha => .ofExcept (h ha hb)

/-- The parameters of a slice are read alike from alike values. -/
lemma sliceParameters_indifferent (count : Nat) :
    Indifferent Alike (sliceParameters count) (sliceParameters count) := by
  unfold sliceParameters
  split
  · apply Indifferent.bind (.operand _)
    intro i i' hi
    apply Indifferent.bind (.ofExcept (indexOf_alike _ hi))
    rintro first _ rfl
    apply Indifferent.bind (.operand _)
    intro t t' ht
    rw [ht.asText]
    exact .ofExcept (slice_agree _ _ _)
  · apply Indifferent.bind (.operand _)
    intro j j' hj
    apply Indifferent.bind (.ofExcept (indexOf_alike _ hj))
    rintro last _ rfl
    apply Indifferent.bind (.operand _)
    intro i i' hi
    apply Indifferent.bind (.ofExcept (indexOf_alike _ hi))
    rintro first _ rfl
    apply Indifferent.bind (.operand _)
    intro t t' ht
    rw [ht.asText]
    exact .ofExcept (slice_agree _ _ _)
  · exact .throw trivial

/-- No operator tells values apart that are alike. -/
lemma reduction_indifferent {op : Operator} {count : Nat} {r : Reduction Value}
    (h : op.reduction? count = some r) : Indifferent Alike r r := by
  cases op with
  | plus | minus | times | divide =>
    cases h
    exact binary_indifferent _ (arithmetic_alike _ _)
  | conj | disj =>
    cases h
    exact binary_indifferent _ (logical_alike _ _)
  | greater | less | greaterEqual | lessEqual =>
    cases h
    exact binary_indifferent _ (ordered_alike _)
  | startsWith | endsWith | equal | notEqual =>
    cases h
    apply binary_indifferent
    intro a a' b b' ha hb
    rw [ha.asText, hb.asText]
    exact .refl _
  | isEmpty | isNotEmpty =>
    cases h
    apply Indifferent.bind (.operand _)
    intro v w hv
    rw [hv.isAbsent]
    exact .pure (.refl _)
  | length =>
    cases h
    apply Indifferent.bind (.operand _)
    intro v w hv
    rw [hv.asText]
    exact .pure (.refl _)
  | substring =>
    cases h
    exact sliceParameters_indifferent count
  | colon =>
    cases h
    apply Indifferent.bind (.operand _)
    intro f f' hf
    apply Indifferent.bind (.operand _)
    intro t t' ht
    apply Indifferent.bind (.operand _)
    intro p p' hp
    exact .ofExcept (choose_alike hp ht hf)
  | question | comma | openParen | closeParen => cases h

/-- Operands that are alike make alike results, or the same error. -/
lemma result_alike (op : Operator) {own own' : List Value} (h : List.Forall₂ Alike own own') :
    Agree Alike (op.result own) (op.result own') := by
  rw [result, result, ← h.length_eq]
  cases hr : op.reduction? own.length with
  | none => exact ⟨rfl, trivial⟩
  | some r => exact (reduction_indifferent hr _ _ (List.rel_reverse h)).1

end Operator

end InlineExpr
