import InlineExpr.Proofs.Alike
import InlineExpr.Proofs.Tree

/-!
# Places in expressions

A place is an expression with a hole, and filling the hole with an expression gives an expression
again. So `s` is a subexpression of `e` exactly when some place filled with `s` is `e`, and the same
place filled with `r` is `e` with `r` instead of `s`.

An operand may stand wherever an expression stands (`Place.fits_fill`). Of an expression only its
value matters to the expressions around it, and of the value only what operators see of it
(`Place.eval_fill`).
-/

namespace InlineExpr

mutual

/-- An expression with a hole. -/
inductive Expr.Place where
  | here
  | left (op : Operator) (place : Expr.Place) (right : Expr)
  | right (op : Operator) (left : Expr) (place : Expr.Place)
  | predicate (place : Expr.Place) (whenTrue whenFalse : Expr)
  | whenTrue (predicate : Expr) (place : Expr.Place) (whenFalse : Expr)
  | whenFalse (predicate whenTrue : Expr) (place : Expr.Place)
  | group (place : Expr.Place)
  | argument (f : Operator) (place : Args.Place)

/-- Arguments with a hole in one of them. -/
inductive Args.Place where
  | last (place : Expr.Place)
  | head (place : Expr.Place) (args : Args)
  | tail (e : Expr) (place : Args.Place)

end

mutual

/-- The expression that a place becomes when `s` is put there. -/
def Expr.Place.fill (s : Expr) : Expr.Place → Expr
  | .here => s
  | .left op place right => .binary op (place.fill s) right
  | .right op left place => .binary op left (place.fill s)
  | .predicate place whenTrue whenFalse => .choice (place.fill s) whenTrue whenFalse
  | .whenTrue predicate place whenFalse => .choice predicate (place.fill s) whenFalse
  | .whenFalse predicate whenTrue place => .choice predicate whenTrue (place.fill s)
  | .group place => .group (place.fill s)
  | .argument f place => .call f (place.fill s)

/-- The arguments that a place becomes when `s` is put there. -/
def Args.Place.fill (s : Expr) : Args.Place → Args
  | .last place => .last (place.fill s)
  | .head place args => .more (place.fill s) args
  | .tail e place => .more e (place.fill s)

end

/-- What is put into one argument adds no separators to the call. -/
lemma Args.Place.separators_fill (place : Args.Place) (s r : Expr) :
    (place.fill s).separators = (place.fill r).separators := by
  match place with
  | .last place => rfl
  | .head place args => rfl
  | .tail e place => exact congrArg (· + 1) (place.separators_fill s r)

/-- What is put into one argument does not change how many there are. -/
lemma Args.Place.size_fill (place : Args.Place) (s r : Expr) :
    (place.fill s).size = (place.fill r).size :=
  congrArg (· + 1) (place.separators_fill s r)

/-- What binds more tightly may stand where less is asked for. -/
lemma Expr.Fits.of_le {e : Expr} {p q : Nat} (h : e.Fits q) (hp : p ≤ q) : e.Fits p := by
  cases e <;> rw [Expr.Fits] at h ⊢
  case operand a => exact Nat.le_trans hp h
  case binary op left right => exact ⟨Nat.le_trans hp h.1, h.2⟩
  case choice predicate whenTrue whenFalse => exact ⟨Nat.le_trans hp h.1, h.2⟩
  case group e => exact ⟨Nat.le_trans hp h.1, h.2⟩
  case call f args => exact ⟨Nat.le_trans hp h.1, h.2⟩

/-- Nothing binds more tightly than an operand. -/
lemma Expr.Fits.le_six {e : Expr} {p : Nat} (h : e.Fits p) : p ≤ 6 := by
  cases e <;> rw [Expr.Fits] at h
  case operand a => exact h
  case binary op left right =>
    have hsix : ∀ op : Operator, op.IsBinary → op.priority ≤ 6 := by
      intro op hop
      cases op <;> simp_all [Operator.IsBinary, Operator.kind, Operator.priority]
    exact Nat.le_trans h.1 (hsix op h.2.1)
  case choice predicate whenTrue whenFalse => exact Nat.le_trans h.1 (by decide)
  case group e => exact h.1
  case call f args => exact h.1

mutual

/-- A subexpression is an expression in its own right. -/
lemma Expr.Place.fits_of_fill (place : Expr.Place) {s : Expr} {p : Nat} (hp : 1 ≤ p)
    (h : (place.fill s).Fits p) : s.Fits 1 := by
  match place with
  | .here => exact h.of_le hp
  | .left op place right =>
    rw [Expr.Place.fill, Expr.Fits] at h
    exact place.fits_of_fill (Nat.le_of_lt h.2.1.binds_operands.1) h.2.2.1
  | .right op left place =>
    rw [Expr.Place.fill, Expr.Fits] at h
    exact place.fits_of_fill (Nat.le_add_left 1 _) h.2.2.2
  | .predicate place whenTrue whenFalse =>
    rw [Expr.Place.fill, Expr.Fits] at h
    exact place.fits_of_fill (Nat.le_refl 1) h.2.1
  | .whenTrue predicate place whenFalse =>
    rw [Expr.Place.fill, Expr.Fits] at h
    exact place.fits_of_fill (Nat.le_refl 1) h.2.2.1
  | .whenFalse predicate whenTrue place =>
    rw [Expr.Place.fill, Expr.Fits] at h
    exact place.fits_of_fill (by decide) h.2.2.2
  | .group place =>
    rw [Expr.Place.fill, Expr.Fits] at h
    exact place.fits_of_fill (Nat.le_refl 1) h.2
  | .argument f place =>
    rw [Expr.Place.fill, Expr.Fits] at h
    exact place.fits_of_fit h.2.2.2

/-- What is put into one argument may stand as an argument. -/
lemma Args.Place.fits_of_fit (place : Args.Place) {s : Expr} (h : (place.fill s).Fit) :
    s.Fits 1 := by
  match place with
  | .last place =>
    rw [Args.Place.fill, Args.Fit] at h
    exact place.fits_of_fill (Nat.le_refl 1) h
  | .head place args =>
    rw [Args.Place.fill, Args.Fit] at h
    exact place.fits_of_fill (Nat.le_refl 1) h.1
  | .tail e place =>
    rw [Args.Place.fill, Args.Fit] at h
    exact place.fits_of_fit h.2

end

mutual

/-- An operand may stand wherever an expression does. -/
lemma Expr.Place.fits_fill (place : Expr.Place) {s : Expr} {p : Nat} (a : Operand)
    (h : (place.fill s).Fits p) : (place.fill (.operand a)).Fits p := by
  match place with
  | .here =>
    rw [Expr.Place.fill, Expr.Fits]
    exact h.le_six
  | .left op place right =>
    rw [Expr.Place.fill, Expr.Fits] at h ⊢
    exact ⟨h.1, h.2.1, place.fits_fill a h.2.2.1, h.2.2.2⟩
  | .right op left place =>
    rw [Expr.Place.fill, Expr.Fits] at h ⊢
    exact ⟨h.1, h.2.1, h.2.2.1, place.fits_fill a h.2.2.2⟩
  | .predicate place whenTrue whenFalse =>
    rw [Expr.Place.fill, Expr.Fits] at h ⊢
    exact ⟨h.1, place.fits_fill a h.2.1, h.2.2⟩
  | .whenTrue predicate place whenFalse =>
    rw [Expr.Place.fill, Expr.Fits] at h ⊢
    exact ⟨h.1, h.2.1, place.fits_fill a h.2.2.1, h.2.2.2⟩
  | .whenFalse predicate whenTrue place =>
    rw [Expr.Place.fill, Expr.Fits] at h ⊢
    exact ⟨h.1, h.2.1, h.2.2.1, place.fits_fill a h.2.2.2⟩
  | .group place =>
    rw [Expr.Place.fill, Expr.Fits] at h ⊢
    exact ⟨h.1, place.fits_fill a h.2⟩
  | .argument f place =>
    rw [Expr.Place.fill, Expr.Fits] at h ⊢
    rw [place.size_fill (.operand a) s]
    exact ⟨h.1, h.2.1, h.2.2.1, place.fit_fill a h.2.2.2⟩

/-- An operand may stand as an argument wherever an expression may. -/
lemma Args.Place.fit_fill (place : Args.Place) {s : Expr} (a : Operand)
    (h : (place.fill s).Fit) : (place.fill (.operand a)).Fit := by
  match place with
  | .last place =>
    rw [Args.Place.fill, Args.Fit] at h ⊢
    exact place.fits_fill a h
  | .head place args =>
    rw [Args.Place.fill, Args.Fit] at h ⊢
    exact ⟨place.fits_fill a h.1, h.2⟩
  | .tail e place =>
    rw [Args.Place.fill, Args.Fit] at h ⊢
    exact ⟨h.1, place.fit_fill a h.2⟩

end

mutual

/-- The operands of a subexpression stand between those in front of it and those behind it. -/
lemma Expr.Place.exists_operands (place : Expr.Place) :
    ∃ before after, ∀ s, (place.fill s).operands = before ++ s.operands ++ after := by
  match place with
  | .here => exact ⟨[], [], fun s => by simp [Expr.Place.fill]⟩
  | .left op place right =>
    obtain ⟨before, after, h⟩ := place.exists_operands
    exact ⟨before, after ++ right.operands, fun s => by simp [Expr.Place.fill, Expr.operands, h]⟩
  | .right op left place =>
    obtain ⟨before, after, h⟩ := place.exists_operands
    exact ⟨left.operands ++ before, after, fun s => by simp [Expr.Place.fill, Expr.operands, h]⟩
  | .predicate place whenTrue whenFalse =>
    obtain ⟨before, after, h⟩ := place.exists_operands
    exact ⟨before, after ++ (whenTrue.operands ++ whenFalse.operands),
      fun s => by simp [Expr.Place.fill, Expr.operands, h]⟩
  | .whenTrue predicate place whenFalse =>
    obtain ⟨before, after, h⟩ := place.exists_operands
    exact ⟨predicate.operands ++ before, after ++ whenFalse.operands,
      fun s => by simp [Expr.Place.fill, Expr.operands, h]⟩
  | .whenFalse predicate whenTrue place =>
    obtain ⟨before, after, h⟩ := place.exists_operands
    exact ⟨predicate.operands ++ (whenTrue.operands ++ before), after,
      fun s => by simp [Expr.Place.fill, Expr.operands, h]⟩
  | .group place =>
    obtain ⟨before, after, h⟩ := place.exists_operands
    exact ⟨before, after, fun s => by simp [Expr.Place.fill, Expr.operands, h]⟩
  | .argument f place =>
    obtain ⟨before, after, h⟩ := place.exists_operands
    exact ⟨before, after, fun s => by simp [Expr.Place.fill, Expr.operands, h]⟩

/-- The operands around an argument are the same, whatever is put there. -/
lemma Args.Place.exists_operands (place : Args.Place) :
    ∃ before after, ∀ s, (place.fill s).operands = before ++ s.operands ++ after := by
  match place with
  | .last place =>
    obtain ⟨before, after, h⟩ := place.exists_operands
    exact ⟨before, after, fun s => by simp [Args.Place.fill, Args.operands, h]⟩
  | .head place args =>
    obtain ⟨before, after, h⟩ := place.exists_operands
    exact ⟨before, after ++ args.operands, fun s => by simp [Args.Place.fill, Args.operands, h]⟩
  | .tail e place =>
    obtain ⟨before, after, h⟩ := place.exists_operands
    exact ⟨e.operands ++ before, after, fun s => by simp [Args.Place.fill, Args.operands, h]⟩

end

section Values

open Value (Alike)

variable {x x' y y' z z' : Except EvalError Value} {xs xs' : Except EvalError (List Value)}

/-- Alike operands make an operator on two of them agree. -/
lemma Agree.binary (op : Operator) (hx : Agree Alike x x') (hy : Agree Alike y y') :
    Agree Alike (x >>= fun a => y >>= fun b => op.result [a, b])
      (x' >>= fun a => y' >>= fun b => op.result [a, b]) := by
  apply hx.bind
  intro a a' ha
  apply hy.bind
  intro b b' hb
  exact op.result_alike (.cons ha (.cons hb .nil))

/-- Alike branches of a choice make it agree. -/
lemma Agree.choice (hx : Agree Alike x x') (hy : Agree Alike y y') (hz : Agree Alike z z') :
    Agree Alike (x >>= fun p => y >>= fun t => z >>= fun f => Operator.colon.result [p, t, f])
      (x' >>= fun p => y' >>= fun t => z' >>= fun f => Operator.colon.result [p, t, f]) := by
  apply hx.bind
  intro p p' hp
  apply hy.bind
  intro t t' ht
  apply hz.bind
  intro f f' hf
  exact Operator.colon.result_alike (.cons hp (.cons ht (.cons hf .nil)))

/-- Alike arguments make a call agree. -/
lemma Agree.call (f : Operator) (h : Agree (List.Forall₂ Alike) xs xs') :
    Agree Alike (xs >>= f.result) (xs' >>= f.result) :=
  h.bind fun _ _ => f.result_alike

/-- An argument by itself is a list of arguments that agrees. -/
lemma Agree.last (hx : Agree Alike x x') :
    Agree (List.Forall₂ Alike) (x >>= fun v => pure [v]) (x' >>= fun v => pure [v]) :=
  hx.bind fun _ _ hv => .cons hv .nil

/-- One more argument that agrees makes a list that agrees. -/
lemma Agree.more (hx : Agree Alike x x') (h : Agree (List.Forall₂ Alike) xs xs') :
    Agree (List.Forall₂ Alike) (x >>= fun v => xs >>= fun vs => pure (v :: vs))
      (x' >>= fun v => xs' >>= fun vs => pure (v :: vs)) := by
  apply hx.bind
  intro v v' hv
  exact h.bind fun _ _ hvs => .cons hv hvs

/-- The two ways to read operands give the same texts, or the same errors of operators. -/
def AgreeOn (read read' : Operand → Except EvalError Text) (as : List Operand) : Prop :=
  ∀ a ∈ as, Agree Eq (read a) (read' a)

variable {read read' : Operand → Except EvalError Text}

/-- Readings that agree on operands in a row agree on the first ones. -/
lemma AgreeOn.left {as bs : List Operand} (h : AgreeOn read read' (as ++ bs)) :
    AgreeOn read read' as :=
  fun a ha => h a (List.mem_append_left bs ha)

/-- Readings that agree on operands in a row agree on the last ones. -/
lemma AgreeOn.right {as bs : List Operand} (h : AgreeOn read read' (as ++ bs)) :
    AgreeOn read read' bs :=
  fun a ha => h a (List.mem_append_right as ha)

mutual

/-- An expression has alike values where its operands stand for the same texts. -/
lemma Expr.eval_agree (e : Expr) (h : AgreeOn read read' e.operands) :
    Agree Alike (e.eval read) (e.eval read') := by
  match e with
  | .operand a =>
    rw [Expr.eval, Expr.eval]
    apply Agree.bind (h a (.head _))
    rintro t _ rfl
    exact .refl _
  | .binary op left right =>
    rw [Expr.operands] at h
    rw [Expr.eval, Expr.eval]
    exact .binary op (left.eval_agree h.left) (right.eval_agree h.right)
  | .choice predicate whenTrue whenFalse =>
    rw [Expr.operands] at h
    rw [Expr.eval, Expr.eval]
    exact .choice (predicate.eval_agree h.left) (whenTrue.eval_agree h.right.left)
      (whenFalse.eval_agree h.right.right)
  | .group e =>
    rw [Expr.operands] at h
    rw [Expr.eval, Expr.eval]
    exact e.eval_agree h
  | .call f args =>
    rw [Expr.operands] at h
    rw [Expr.eval, Expr.eval]
    exact .call f (args.eval_agree h)

/-- Arguments agree when their operands are read alike. -/
lemma Args.eval_agree (args : Args) (h : AgreeOn read read' args.operands) :
    Agree (List.Forall₂ Alike) (args.eval read) (args.eval read') := by
  match args with
  | .last e =>
    rw [Args.operands] at h
    rw [Args.eval, Args.eval]
    exact .last (e.eval_agree h)
  | .more e args =>
    rw [Args.operands] at h
    rw [Args.eval, Args.eval]
    exact .more (e.eval_agree h.left) (args.eval_agree h.right)

end

variable {s r : Expr}

mutual

/-- A subexpression may be exchanged for one with a value that is alike. -/
lemma Expr.Place.eval_fill (place : Expr.Place) (hvalue : Agree Alike (s.eval read) (r.eval read'))
    (h : AgreeOn read read' (place.fill s).operands) :
    Agree Alike ((place.fill s).eval read) ((place.fill r).eval read') := by
  match place with
  | .here => exact hvalue
  | .left op place right =>
    rw [Expr.Place.fill, Expr.operands] at h
    rw [Expr.Place.fill, Expr.Place.fill, Expr.eval, Expr.eval]
    exact .binary op (place.eval_fill hvalue h.left) (right.eval_agree h.right)
  | .right op left place =>
    rw [Expr.Place.fill, Expr.operands] at h
    rw [Expr.Place.fill, Expr.Place.fill, Expr.eval, Expr.eval]
    exact .binary op (left.eval_agree h.left) (place.eval_fill hvalue h.right)
  | .predicate place whenTrue whenFalse =>
    rw [Expr.Place.fill, Expr.operands] at h
    rw [Expr.Place.fill, Expr.Place.fill, Expr.eval, Expr.eval]
    exact .choice (place.eval_fill hvalue h.left) (whenTrue.eval_agree h.right.left)
      (whenFalse.eval_agree h.right.right)
  | .whenTrue predicate place whenFalse =>
    rw [Expr.Place.fill, Expr.operands] at h
    rw [Expr.Place.fill, Expr.Place.fill, Expr.eval, Expr.eval]
    exact .choice (predicate.eval_agree h.left) (place.eval_fill hvalue h.right.left)
      (whenFalse.eval_agree h.right.right)
  | .whenFalse predicate whenTrue place =>
    rw [Expr.Place.fill, Expr.operands] at h
    rw [Expr.Place.fill, Expr.Place.fill, Expr.eval, Expr.eval]
    exact .choice (predicate.eval_agree h.left) (whenTrue.eval_agree h.right.left)
      (place.eval_fill hvalue h.right.right)
  | .group place =>
    rw [Expr.Place.fill, Expr.operands] at h
    rw [Expr.Place.fill, Expr.Place.fill, Expr.eval, Expr.eval]
    exact place.eval_fill hvalue h
  | .argument f place =>
    rw [Expr.Place.fill, Expr.operands] at h
    rw [Expr.Place.fill, Expr.Place.fill, Expr.eval, Expr.eval]
    exact .call f (place.eval_fill hvalue h)

/-- Arguments agree when what is put there agrees and the operands are read alike. -/
lemma Args.Place.eval_fill (place : Args.Place) (hvalue : Agree Alike (s.eval read) (r.eval read'))
    (h : AgreeOn read read' (place.fill s).operands) :
    Agree (List.Forall₂ Alike) ((place.fill s).eval read) ((place.fill r).eval read') := by
  match place with
  | .last place =>
    rw [Args.Place.fill, Args.operands] at h
    rw [Args.Place.fill, Args.Place.fill, Args.eval, Args.eval]
    exact .last (place.eval_fill hvalue h)
  | .head place args =>
    rw [Args.Place.fill, Args.operands] at h
    rw [Args.Place.fill, Args.Place.fill, Args.eval, Args.eval]
    exact .more (place.eval_fill hvalue h.left) (args.eval_agree h.right)
  | .tail e place =>
    rw [Args.Place.fill, Args.operands] at h
    rw [Args.Place.fill, Args.Place.fill, Args.eval, Args.eval]
    exact .more (e.eval_agree h.left) (place.eval_fill hvalue h.right)

end

end Values

end InlineExpr
