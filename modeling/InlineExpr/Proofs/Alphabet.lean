import InlineExpr.Proofs.Literals
import InlineExpr.Proofs.Operands

/-!
# What operators write

Of themselves operators write letters, digits, signs and points (`isWritten`); whatever else stands
in their results is a piece of an operand. So what holds of all texts of written characters, and of
every piece of a text of which it holds, is kept when an operator is performed
(`Operator.perform_has`). In particular a character that is never written and occurs in none of the
values stays out of them (`Operator.perform_avoids`).
-/

namespace InlineExpr

/-- The characters that operators write of themselves. -/
def isWritten (c : Char) : Bool :=
  c.isAlphanum || c == '-' || c == '.'

/-- A property that operators keep: the texts of written characters have it, and so has every piece
of a text that has it. -/
structure Text.IsKept (P : Text → Prop) : Prop where
  written : ∀ {t : Text}, (∀ c ∈ t, isWritten c = true) → P t
  piece : ∀ {s t : Text}, s <:+: t → P t → P s

/-- The text of a value has the property. -/
def Value.Has (P : Text → Prop) (v : Value) : Prop :=
  P v.rawText

/-- The text of a value does not hold the character. -/
def Value.Avoids (c : Char) (v : Value) : Prop :=
  c ∉ v.rawText

/-- A character that operators never write is kept out. -/
lemma Text.isKept_not_mem {c : Char} (hc : isWritten c = false) : IsKept (c ∉ ·) where
  written h hm := by
    rw [h c hm] at hc
    cases hc
  piece hs ht hm := ht (hs.subset hm)

/-- Digits are written. -/
lemma isWritten_of_isDigit {c : Char} (h : c.isDigit = true) : isWritten c = true := by
  simp [isWritten, Char.isAlphanum, h]

/-- The digits of a number are written. -/
lemma isWritten_of_mem_toDigits {n : Nat} {c : Char} (h : c ∈ Nat.toDigits 10 n) :
    isWritten c = true :=
  isWritten_of_isDigit (Nat.isDigit_of_mem_toDigits (by decide) (by decide) h)

/-- The letters of a truth value are written. -/
lemma isWritten_of_mem_boolText {b : Bool} {c : Char} (h : c ∈ Value.boolText b) :
    isWritten c = true := by
  have hall : (Value.boolText b).all isWritten = true := by cases b <;> decide
  exact List.all_eq_true.1 hall c h

namespace Decimal

/-- What is written for a decimal is a literal. -/
lemma isWritten_of_mem_toText {d : Decimal} {c : Char} (h : c ∈ d.toText) :
    isWritten c = true := by
  obtain ⟨l, htext, -⟩ := exists_literal d
  rw [← htext] at h
  rcases l.of_mem_text h with h | rfl | rfl
  · exact isWritten_of_isDigit h
  · rfl
  · rfl

end Decimal

namespace Value

/-- A value that avoids a character is read without it. -/
lemma Avoids.asText {c : Char} {v : Value} (h : v.Avoids c) : c ∉ v.asText := by
  cases v with
  | bool b => exact h
  | text t =>
    rw [Value.asText]
    split
    · exact List.not_mem_nil
    · exact h

variable {P : Text → Prop} (hP : Text.IsKept P)

include hP

/-- A value is read as a text with the property that it has. -/
lemma Has.asText {v : Value} (h : v.Has P) : P v.asText := by
  cases v with
  | bool b => exact h
  | text t =>
    rw [Value.asText]
    split
    · exact hP.piece List.nil_infix h
    · exact h

/-- Truth values have the property. -/
lemma has_bool (b : Bool) : (bool b).Has P :=
  hP.written fun _ => isWritten_of_mem_boolText

/-- Decimal numbers have the property. -/
lemma has_decimal (d : Decimal) : (text d.toText).Has P :=
  hP.written fun _ => Decimal.isWritten_of_mem_toText

/-- Whole numbers have the property. -/
lemma has_toDigits (n : Nat) : (text (Nat.toDigits 10 n)).Has P :=
  hP.written fun _ => isWritten_of_mem_toDigits

end Value

namespace Reduction

variable {α β : Type} {P : Value → Prop}

/-- On values with `P` a reduction leaves values with `P`, and its result has `Q`. -/
def Yields (P : Value → Prop) (r : Reduction α) (Q : α → Prop) : Prop :=
  ∀ values, (∀ v ∈ values, P v) →
    (∀ v ∈ (r.apply values).2, P v) ∧ ∀ a, (r.apply values).1 = .ok a → Q a

/-- A result found without operands has what its value has. -/
lemma Yields.ofExcept {x : Except EvalError α} {Q : α → Prop} (h : ∀ a, x = .ok a → Q a) :
    Yields P (ofExcept x) Q := by
  intro values hvalues
  cases x with
  | ok a =>
    refine ⟨hvalues, ?_⟩
    intro a' ha
    cases ha
    exact h a rfl
  | error e => exact ⟨hvalues, nofun⟩

/-- A value at once is one with the property. -/
lemma Yields.pure {a : α} {Q : α → Prop} (h : Q a) : Yields P (pure a) Q := by
  intro values hvalues
  refine ⟨hvalues, ?_⟩
  intro a' ha
  cases ha
  exact h

/-- An error has no value to speak of. -/
lemma Yields.throw (e : EvalError) {Q : α → Prop} : Yields P (throw e) Q :=
  fun _ hvalues => ⟨hvalues, nofun⟩

/-- An operand comes from the values. -/
lemma Yields.operand (op : Operator) : Yields P (operand op) P := by
  intro values hvalues
  cases values with
  | nil => exact ⟨nofun, nofun⟩
  | cons v rest =>
    refine ⟨fun w hw => hvalues w (.tail _ hw), ?_⟩
    intro a ha
    cases ha
    exact hvalues _ (.head _)

/-- One reduction after another has what the second one yields. -/
lemma Yields.bind {r : Reduction α} {f : α → Reduction β} {Q : α → Prop} {R : β → Prop}
    (hr : Yields P r Q) (hf : ∀ a, Q a → Yields P (f a) R) : Yields P (r >>= f) R := by
  intro values hvalues
  obtain ⟨hrest, hresult⟩ := hr values hvalues
  rw [apply_bind]
  cases hx : r.apply values with
  | mk x rest =>
    rw [hx] at hrest hresult
    cases x with
    | ok a => exact hf a (hresult a rfl) rest hrest
    | error e => exact ⟨hrest, nofun⟩

end Reduction

namespace Operator

open Reduction Value

/-- An operator on two operands has what its function yields. -/
lemma binary_yields {P : Value → Prop} (op : Operator)
    {f : Value → Value → Except EvalError Value}
    (h : ∀ a b v, P a → P b → f a b = .ok v → P v) : Yields P (binary op f) P :=
  .bind (.operand op) fun b hb => .bind (.operand op) fun a ha => .ofExcept fun v => h a b v ha hb

variable {P : Text → Prop}

/-- A choice has one of its branches as its result. -/
lemma choose_has {p t f v : Value} (ht : t.Has P) (hf : f.Has P) (h : choose p t f = .ok v) :
    v.Has P := by
  obtain ⟨b, _, h⟩ := eq_ok_of_bind h
  cases b with
  | true => cases h; exact ht
  | false => cases h; exact hf

variable (hP : Text.IsKept P)

include hP

/-- A slice has the property that its text has. -/
lemma slice_has {t : Text} (ht : P t) {first last : Int} {v : Value}
    (h : slice t first last = .ok v) : v.Has P := by
  rw [slice] at h
  split at h
  · cases h
    exact hP.piece ((List.take_prefix _ _).isInfix.trans (List.drop_suffix _ _).isInfix) ht
  · cases h

/-- A slice is a piece of its text. -/
lemma sliceParameters_yields (count : Nat) :
    Yields (Value.Has P) (sliceParameters count) (Value.Has P) := by
  have hindex : ∀ v, Yields (Value.Has P) (Reduction.ofExcept (indexOf substring v))
      fun _ => True := fun _ => .ofExcept fun _ _ => trivial
  unfold sliceParameters
  split
  · apply Yields.bind (.operand _)
    intro _ _
    apply Yields.bind (hindex _)
    intro _ _
    exact .bind (.operand _) fun _ ht => .ofExcept fun _ => slice_has hP (ht.asText hP)
  · apply Yields.bind (.operand _)
    intro _ _
    apply Yields.bind (hindex _)
    intro _ _
    apply Yields.bind (.operand _)
    intro _ _
    apply Yields.bind (hindex _)
    intro _ _
    exact .bind (.operand _) fun _ ht => .ofExcept fun _ => slice_has hP (ht.asText hP)
  · exact .throw _

/-- Numbers that arithmetic writes have the property. -/
lemma arithmetic_has {op : Operator}
    {f : Decimal → Decimal → Except Decimal.DivisionError Decimal} {a b v : Value}
    (h : arithmetic op f a b = .ok v) : v.Has P := by
  obtain ⟨x, _, h⟩ := eq_ok_of_bind h
  obtain ⟨y, _, h⟩ := eq_ok_of_bind h
  cases hf : f x y with
  | error e => rw [hf] at h; cases h
  | ok d =>
    rw [hf] at h
    cases h
    exact has_decimal hP d

/-- Truth values that logic writes have the property. -/
lemma logical_has {op : Operator} {f : Bool → Bool → Bool} {a b v : Value}
    (h : logical op f a b = .ok v) : v.Has P := by
  obtain ⟨x, _, h⟩ := eq_ok_of_bind h
  obtain ⟨y, _, h⟩ := eq_ok_of_bind h
  cases h
  exact has_bool hP _

/-- A result has what the operators keep if the operands have it. -/
lemma reduction_yields {op : Operator} {count : Nat} {r : Reduction Value}
    (h : op.reduction? count = some r) : Yields (Value.Has P) r (Value.Has P) := by
  cases op with
  | plus | minus | times | divide =>
    cases h
    exact binary_yields _ fun _ _ _ _ _ hv => arithmetic_has hP hv
  | conj | disj =>
    cases h
    exact binary_yields _ fun _ _ _ _ _ hv => logical_has hP hv
  | startsWith | endsWith | equal | notEqual | greater | less | greaterEqual | lessEqual =>
    cases h
    exact binary_yields _ fun _ _ _ _ _ hv => by cases hv; exact has_bool hP _
  | isEmpty | isNotEmpty =>
    cases h
    exact .bind (.operand _) fun _ _ => .pure (has_bool hP _)
  | length =>
    cases h
    exact .bind (.operand _) fun _ _ => .pure (has_toDigits hP _)
  | substring =>
    cases h
    exact sliceParameters_yields hP count
  | colon =>
    cases h
    apply Yields.bind (.operand _)
    intro f hf
    apply Yields.bind (.operand _)
    intro t ht
    exact .bind (.operand _) fun p _ => .ofExcept fun _ => choose_has ht hf
  | question | comma | openParen | closeParen => cases h

/-- What operators keep holds of the values that an operator leaves if it held of those before. -/
lemma perform_has (op : Operator) {o : Operands} (h : ∀ v ∈ o.values, v.Has P) :
    ∀ v ∈ (op.perform o).2.values, v.Has P := by
  rw [perform]
  cases hr : op.reduction? (o.separators + 1) with
  | none =>
    -- a mark that computes nothing leaves the values, whether it is an error or not
    dsimp only
    split
    · exact h
    · exact h
  | some r =>
    obtain ⟨hrest, hresult⟩ := reduction_yields hP hr o.values h
    dsimp only
    cases hx : r.apply o.values with
    | mk x rest =>
      rw [hx] at hrest hresult
      cases x with
      | error e => exact hrest
      | ok v =>
        intro w hw
        cases hw with
        | head => exact hresult _ rfl
        | tail _ hw => exact hrest w hw

omit hP in
/-- No value that an operator leaves holds a character that is not written and was in no value
before. -/
lemma perform_avoids {c : Char} (hc : isWritten c = false) (op : Operator) {o : Operands}
    (h : ∀ v ∈ o.values, v.Avoids c) : ∀ v ∈ (op.perform o).2.values, v.Avoids c :=
  perform_has (Text.isKept_not_mem hc) op h

end Operator

end InlineExpr
