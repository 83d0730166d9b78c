import InlineExpr.Proofs.Neighbours
import InlineExpr.Proofs.Tree

/-!
# Texts of expressions

A text is a layout of an expression if it is cut into the tokens that write the expression down. But
for what separates tokens, every character of a layout stands in a token of an operator or an
operand (`Expr.not_mem_layout`), so a layout of literal operands may be the body of a span
(`Expr.isBody_layout`).
-/

namespace InlineExpr

/-- The operands that stand for themselves, also inside of a span. -/
def Operand.IsLiteral : Operand → Prop
  | .text t => t.IsPlain ∧ '}' ∉ t ∧ Operator.ofToken? t = none
  | .constant _ => False

instance : (a : Operand) → Decidable a.IsLiteral
  | .text t => inferInstanceAs (Decidable (t.IsPlain ∧ '}' ∉ t ∧ Operator.ofToken? t = none))
  | .constant _ => inferInstanceAs (Decidable False)

section Tokens

variable {P : Text → Prop} (hop : ∀ op : Operator, P op.token) {t : Text}

include hop

mutual

/-- The tokens of an expression are those of its operators and its operands. -/
lemma Expr.of_mem_tokens (e : Expr) (h : ∀ a ∈ e.operands, P a.token) (ht : t ∈ e.tokens) :
    P t := by
  match e with
  | .operand a =>
    rw [Expr.tokens] at ht
    rw [List.mem_singleton.1 ht]
    exact h a (.head _)
  | .binary op left right =>
    rw [Expr.operands, List.forall_mem_append] at h
    rw [Expr.tokens, List.mem_append, List.mem_cons] at ht
    rcases ht with ht | rfl | ht
    · exact left.of_mem_tokens h.1 ht
    · exact hop op
    · exact right.of_mem_tokens h.2 ht
  | .choice predicate whenTrue whenFalse =>
    rw [Expr.operands, List.forall_mem_append, List.forall_mem_append] at h
    rw [Expr.tokens, List.mem_append, List.mem_cons, List.mem_append, List.mem_cons] at ht
    rcases ht with ht | rfl | ht | rfl | ht
    · exact predicate.of_mem_tokens h.1 ht
    · exact hop .question
    · exact whenTrue.of_mem_tokens h.2.1 ht
    · exact hop .colon
    · exact whenFalse.of_mem_tokens h.2.2 ht
  | .group e =>
    rw [Expr.operands] at h
    rw [Expr.tokens, List.mem_cons, List.mem_append, List.mem_singleton] at ht
    rcases ht with rfl | ht | rfl
    · exact hop .openParen
    · exact e.of_mem_tokens h ht
    · exact hop .closeParen
  | .call f args =>
    rw [Expr.operands] at h
    rw [Expr.tokens, List.mem_cons, List.mem_cons, List.mem_append, List.mem_singleton] at ht
    rcases ht with rfl | rfl | ht | rfl
    · exact hop f
    · exact hop .openParen
    · exact args.of_mem_tokens h ht
    · exact hop .closeParen

/-- What holds of the tokens of operators and operands holds of those of arguments. -/
lemma Args.of_mem_tokens (args : Args) (h : ∀ a ∈ args.operands, P a.token)
    (ht : t ∈ args.tokens) : P t := by
  match args with
  | .last e =>
    rw [Args.operands] at h
    rw [Args.tokens] at ht
    exact e.of_mem_tokens h ht
  | .more e args =>
    rw [Args.operands, List.forall_mem_append] at h
    rw [Args.tokens, List.mem_append, List.mem_cons] at ht
    rcases ht with ht | rfl | ht
    · exact e.of_mem_tokens h.1 ht
    · exact hop .comma
    · exact args.of_mem_tokens h.2 ht

end

end Tokens

/-- An expression is written with one token at least. -/
lemma Expr.tokens_ne_nil (e : Expr) : e.tokens ≠ [] := by
  cases e <;> simp [Expr.tokens]

section Layouts

variable {e : Expr} {b : Text}

/-- A literal operand has a plain token, which is no operator and closes no span. -/
lemma Operand.IsLiteral.token {a : Operand} (h : a.IsLiteral) :
    a.token.IsPlain ∧ '}' ∉ a.token ∧ Operator.ofToken? a.token = none := by
  cases a with
  | text t => exact h
  | constant name => exact h.elim

/-- What no token of an expression holds does not stand in its text, unless it separates tokens. -/
lemma Expr.not_mem_layout {c : Char} (hb : tokenize b = e.tokens) (hsep : isSeparator c = false)
    (hop : ∀ op : Operator, c ∉ op.token) (h : ∀ a ∈ e.operands, c ∉ a.token) : c ∉ b := by
  intro hc
  obtain ⟨t, ht, hct⟩ := Text.exists_mem_tokenize hc hsep
  rw [hb] at ht
  exact Expr.of_mem_tokens (P := (c ∉ ·)) hop e h ht hct

/-- No layout of an expression is empty. -/
lemma Expr.layout_ne_nil (hb : tokenize b = e.tokens) : b ≠ [] := by
  rintro rfl
  exact e.tokens_ne_nil hb.symm

/-- The token of an operator is plain and closes no span. -/
lemma Operator.token_plain (op : Operator) : op.token.IsPlain ∧ '}' ∉ op.token := by
  cases op <;> decide

/-- A layout of literal operands may be the body of a span. -/
lemma Expr.isBody_layout (hb : tokenize b = e.tokens) (h : ∀ a ∈ e.operands, a.IsLiteral) :
    Span.IsBody b :=
  ⟨layout_ne_nil hb,
    ⟨not_mem_layout hb rfl (fun op => op.token_plain.1.1) fun a ha => (h a ha).token.1.1,
      not_mem_layout hb rfl (fun op => op.token_plain.1.2) fun a ha => (h a ha).token.1.2⟩,
    not_mem_layout hb rfl (fun op => op.token_plain.2) fun a ha => (h a ha).token.2.1⟩

end Layouts

end InlineExpr
