import InlineExpr.Proofs.Literals
import InlineExpr.Proofs.Subexpression

/-!
# Sums, differences and products

Arithmetic on texts loses nothing (`Engine.eval_arithmetic`): a span that writes down a tree of
sums, differences and products of literals has a literal as its value, and it denotes the number of
the tree.

Every operator reads its operands as decimals and writes its result out, so the parts of a tree have
literals as their values as well. What is read back is exact (`Decimal.exists_literal`) unless a
literal has more places than a scale can count, and there are never more of them than in the tree
(`Arithmetic.places`).
-/

namespace InlineExpr

/-- The operators that lose nothing. -/
inductive ExactOp where
  | plus
  | minus
  | times

namespace ExactOp

/-- The operator that is written for it. -/
def operator : ExactOp → Operator
  | plus => .plus
  | minus => .minus
  | times => .times

/-- What an operator makes of two numbers. -/
def onNumbers : ExactOp → ℚ → ℚ → ℚ
  | plus => (· + ·)
  | minus => (· - ·)
  | times => (· * ·)

/-- What an operator makes of two decimals. -/
def onDecimals : ExactOp → Decimal → Decimal → Decimal
  | plus => Decimal.add
  | minus => Decimal.sub
  | times => Decimal.mul

/-- It is written between its operands. -/
lemma operator_isBinary (op : ExactOp) : op.operator.IsBinary := by
  cases op <;> exact .inl rfl

/-- A result is exact, and has no more places than both operands together, where that number fits in
64 bits. -/
lemma onDecimals_spec (op : ExactOp) {a b : Decimal} (ha : 0 ≤ a.scale.toInt)
    (hb : 0 ≤ b.scale.toInt) (hfits : a.scale.toInt + b.scale.toInt ≤ Numeral.maxInt64) :
    (op.onDecimals a b).value = op.onNumbers a.value b.value ∧
      (op.onDecimals a b).scale.toInt ≤ a.scale.toInt + b.scale.toInt := by
  have hmax : (max a.scale b.scale).toInt ≤ a.scale.toInt + b.scale.toInt := by
    rw [Decimal.toInt_max]
    omega
  have hsum : (a.scale + b.scale).toInt = a.scale.toInt + b.scale.toInt :=
    Decimal.toInt_add_of_fits (le_trans (by decide) (add_nonneg ha hb)) hfits
  cases op with
  | plus => exact ⟨Decimal.value_add a b, hmax⟩
  | minus =>
    refine ⟨Decimal.value_sub a b, ?_⟩
    rw [onDecimals, Decimal.sub]
    split
    · exact le_add_of_nonneg_right hb
    · split
      · exact le_add_of_nonneg_left ha
      · exact hmax
  | times =>
    refine ⟨Decimal.value_mul hsum, ?_⟩
    rw [onDecimals, Decimal.mul]
    split
    · exact le_add_of_nonneg_left ha
    · split
      · exact le_add_of_nonneg_right hb
      · exact hsum.le

end ExactOp

namespace Decimal.Literal

variable (l : Literal)

/-- No text without a digit is a literal. -/
lemma text_ne {t : Text} (h : t.any Char.isDigit = false) : l.text ≠ t := by
  rintro rfl
  rw [List.any_eq_true.2 l.exists_digit_mem_text] at h
  cases h

/-- A literal has digits, a sign and a point at most. -/
lemma not_mem_text {c : Char} (hdigit : c.isDigit = false) (hminus : c ≠ '-') (hpoint : c ≠ '.') :
    c ∉ l.text := by
  intro hc
  rcases l.of_mem_text hc with h | rfl | rfl
  · exact Numeral.ne_of_isDigit h hdigit rfl
  · exact hminus rfl
  · exact hpoint rfl

/-- A literal is no operator, and it stands for itself. -/
lemma isLiteral : (Operand.text l.text).IsLiteral := by
  refine ⟨⟨l.not_mem_text rfl (by decide) (by decide), l.not_mem_text rfl (by decide) (by decide)⟩,
    l.not_mem_text rfl (by decide) (by decide), ?_⟩
  rw [Option.eq_none_iff_forall_ne_some]
  intro op hop
  have htoken : op.token.any Char.isDigit = false := by cases op <;> decide
  exact l.text_ne htoken (Operator.ofToken?_eq_some_iff.1 hop)

/-- The text of a literal is read as it stands. -/
lemma asText : Value.asText (.text l.text) = l.text :=
  if_neg (l.text_ne (by decide))

/-- A literal is read as its decimal if its places can be counted. -/
lemma decimalOf_text (op : Operator) (h : l.places.length ≤ Numeral.maxInt64) :
    op.decimalOf (.text l.text) = .ok l.decimal := by
  rw [Operator.decimalOf, l.asText, Decimal.ofText?_text l h]

/-- An operator makes of two literals what is written for the decimal that it makes of theirs. -/
lemma result_text (op : ExactOp) {r : Literal} (hl : l.places.length ≤ Numeral.maxInt64)
    (hr : r.places.length ≤ Numeral.maxInt64) :
    op.operator.result [.text l.text, .text r.text] =
      .ok (.text (op.onDecimals l.decimal r.decimal).toText) := by
  have hresult {o : Operator} {f : Decimal → Decimal → Decimal}
      (ho : o.reduction? 2 = some (o.binary (o.arithmetic fun a b => .ok (f a b)))) :
      o.result [.text l.text, .text r.text] = .ok (.text (f l.decimal r.decimal).toText) := by
    rw [Operator.result_binary ho, Operator.arithmetic, decimalOf_text l _ hl,
      decimalOf_text r _ hr]
    rfl
  cases op with
  | plus => exact hresult rfl
  | minus => exact hresult rfl
  | times => exact hresult rfl

end Decimal.Literal

/-- A tree of sums, differences and products, with literals at its leaves. -/
inductive Arithmetic where
  | literal (l : Decimal.Literal)
  | binary (op : ExactOp) (left right : Arithmetic)
  /-- Parentheses that stand whether they are called for or not. -/
  | parens (e : Arithmetic)

namespace Arithmetic

/-- The number of a tree. -/
def value : Arithmetic → ℚ
  | literal l => l.value
  | binary op left right => op.onNumbers left.value right.value
  | parens e => e.value

/-- The number of places of all literals together. -/
def places : Arithmetic → ℕ
  | literal l => l.places.length
  | binary _ left right => left.places + right.places
  | parens e => e.places

/-- The expression of a tree, with parentheses around what binds less tightly than `priority`.
Operators of one priority are taken from the left. -/
def expr (priority : ℕ) : Arithmetic → Expr
  | literal l => .operand (.text l.text)
  | binary op left right =>
    let e := .binary op.operator (left.expr op.operator.priority)
      (right.expr (op.operator.priority + 1))
    if priority ≤ op.operator.priority then e else .group e
  | parens e => .group (e.expr 1)

/-- A tree is written with the parentheses that keep its parts together. -/
lemma fits_expr (e : Arithmetic) {priority : ℕ} (h : priority ≤ 6) :
    (e.expr priority).Fits priority := by
  induction e generalizing priority with
  | literal l => exact h
  | parens e ih => exact ⟨h, ih (by decide)⟩
  | binary op left right ihl ihr =>
    have hpriority : 1 ≤ op.operator.priority ∧ op.operator.priority + 1 ≤ 6 := by
      cases op <;> decide
    have hparts := And.intro op.operator_isBinary
      (And.intro (ihl (Nat.le_of_succ_le hpriority.2)) (ihr hpriority.2))
    rw [expr]
    split
    · exact ⟨‹_›, hparts⟩
    · exact ⟨h, hpriority.1, hparts⟩

/-- The operands of a tree are its literals. -/
lemma isLiteral_of_mem_operands (e : Arithmetic) (priority : ℕ) :
    ∀ a ∈ (e.expr priority).operands, a.IsLiteral := by
  induction e generalizing priority with
  | literal l =>
    rintro a (_ | ⟨_, ⟨⟩⟩)
    exact l.isLiteral
  | parens e ih => exact ih 1
  | binary op left right ihl ihr =>
    have hparts :=
      List.forall_mem_append.2 ⟨ihl op.operator.priority, ihr (op.operator.priority + 1)⟩
    rw [expr]
    split
    · exact hparts
    · exact hparts

/-- A text of a tree is longer than the places of its literals. -/
lemma places_le_length_flatten (e : Arithmetic) (priority : ℕ) :
    e.places ≤ (e.expr priority).tokens.flatten.length := by
  induction e generalizing priority with
  | literal l =>
    rw [expr, Expr.tokens, List.flatten_singleton]
    exact l.length_places_le
  | parens e ih =>
    have h := ih 1
    rw [expr, Expr.tokens]
    simp only [places, List.flatten_cons, List.flatten_append, List.length_append]
    omega
  | binary op left right ihl ihr =>
    have hl := ihl op.operator.priority
    have hr := ihr (op.operator.priority + 1)
    rw [expr]
    split
    · simp only [places, Expr.tokens, List.flatten_cons, List.flatten_append, List.length_append]
      omega
    · simp only [places, Expr.tokens, List.flatten_cons, List.flatten_append, List.length_append]
      omega

/-- An expression has no more decimal places than its layout has characters. -/
lemma places_le_length (e : Arithmetic) {b : Text} (hb : tokenize b = (e.expr 1).tokens) :
    e.places ≤ b.length := by
  have h := Text.length_flatten_tokenize_le b
  rw [hb] at h
  exact (e.places_le_length_flatten 1).trans h

/-- The expression of a tree has a literal as its value, and it denotes the number of the tree. -/
lemma eval_expr (e : Arithmetic) (h : e.places ≤ Numeral.maxInt64) (priority : ℕ) :
    ∃ l : Decimal.Literal, (e.expr priority).eval Operand.verbatim = .ok (.text l.text) ∧
      l.value = e.value ∧ l.places.length ≤ e.places := by
  induction e generalizing priority with
  | literal l => exact ⟨l, rfl, rfl, le_refl _⟩
  | parens e ih => exact ih h 1
  | binary op left right ihl ihr =>
    rw [places] at h
    obtain ⟨l, hl, hlvalue, hlplaces⟩ := ihl (by omega) op.operator.priority
    obtain ⟨r, hr, hrvalue, hrplaces⟩ := ihr (by omega) (op.operator.priority + 1)
    obtain ⟨res, htext, hvalue, hscale⟩ :=
      Decimal.exists_literal (op.onDecimals l.decimal r.decimal)
    have hlscale := l.toInt_scale_decimal (by omega)
    have hrscale := r.toInt_scale_decimal (by omega)
    obtain ⟨hexact, hplaces⟩ := op.onDecimals_spec (a := l.decimal) (b := r.decimal) (by omega)
      (by omega) (by omega)
    refine ⟨res, ?_, ?_, ?_⟩
    · have hresult := l.result_text op (r := r) (by omega) (by omega)
      have hboth : Expr.eval Operand.verbatim (.binary op.operator (left.expr op.operator.priority)
          (right.expr (op.operator.priority + 1))) = .ok (.text res.text) := by
        rw [Expr.eval, hl, hr, htext]
        exact hresult
      rw [expr]
      split
      · exact hboth
      · exact hboth
    · rw [hvalue, hexact, l.value_decimal (by omega), r.value_decimal (by omega), hlvalue, hrvalue,
        value]
    · rw [places]
      omega

end Arithmetic

namespace Engine

variable {engine : Engine} {table : Table} {e : Arithmetic} {b : Text}

/-- Arithmetic through texts loses nothing: a span that writes down a tree has a literal as its
value, and what the literal denotes, and what is read from it again, is the number of the tree. The
length of a text is a whole number of 64 bits with a sign. -/
theorem eval_arithmetic (hreg : engine.registry = .standard) (hlength : b.length ≤ Numeral.maxInt64)
    (hb : tokenize b = (e.expr 1).tokens) :
    ∃ l : Decimal.Literal, engine.eval (Span.wrap b) table = .value l.text (engine.start table) ∧
      l.value = e.value ∧ ∃ d, Decimal.ofText? l.text = some d ∧ d.value = e.value := by
  have hliteral := e.isLiteral_of_mem_operands 1
  have hplaces := e.places_le_length hb
  obtain ⟨l, hl, hvalue, hlplaces⟩ := e.eval_expr (by omega) 1
  refine ⟨l, ?_, hvalue, l.decimal, Decimal.ofText?_text l (by omega),
    (l.value_decimal (by omega)).trans hvalue⟩
  rw [eval_wrap (Expr.isBody_layout hb hliteral),
    Eval.span_of_literal hreg rfl (e.fits_expr (by decide)) hliteral hb, hl]
  change Outcome.value (Value.asText _) _ = _
  rw [l.asText]

/-- `-1.50 * (2 - 0.25) * 1.0 + 007` -/
def mixed : Arithmetic :=
  .binary .plus
    (.binary .times
      (.binary .times (.literal ⟨true, ['1'], ['5', '0'], rfl, rfl⟩)
        (.binary .minus (.literal ⟨false, ['2'], [], rfl, rfl⟩)
          (.literal ⟨false, ['0'], ['2', '5'], rfl, rfl⟩)))
      (.literal ⟨false, ['1'], ['0'], rfl, rfl⟩))
    (.literal ⟨false, ['0', '0', '7'], [], rfl, rfl⟩)

/-- The places of a product add up, but a factor of one lends none. -/
theorem eval_arithmetic_mixed :
    let b := "-1.50 * (2 - 0.25) * 1.0 + 007".toList
    (Engine.registry {} = .standard ∧ b.length ≤ Numeral.maxInt64 ∧
      tokenize b = (mixed.expr 1).tokens) ∧
    (Engine.eval {} (Span.wrap b) (.empty true)).result? = some (.ok "4.3750".toList) ∧
    ∃ d, Decimal.ofText? "4.3750".toList = some d ∧ d.value = mixed.value := by
  intro b
  have hlength : (b.length : ℤ) ≤ Numeral.maxInt64 := by decide
  have hb : tokenize b = (mixed.expr 1).tokens := by decide
  have hresult : (Engine.eval {} (Span.wrap b) (.empty true)).result? =
      some (.ok "4.3750".toList) := by
    rw [eval_wrap (by decide)]
    decide +kernel
  obtain ⟨l, hl, -, hread⟩ := @eval_arithmetic {} (.empty true) mixed b rfl hlength hb
  rw [hl] at hresult
  have htext : l.text = "4.3750".toList := Except.ok.inj (Option.some.inj hresult)
  rw [htext] at hread
  rw [hl]
  exact ⟨⟨rfl, hlength, hb⟩, hresult, hread⟩

end Engine

end InlineExpr
