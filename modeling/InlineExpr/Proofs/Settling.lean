import InlineExpr.Proofs.Evaluation

/-!
# Settling the stacks

Every event of an expression that takes operators off the stack begins by performing those that bind
tightly enough: an incoming operator, a closing parenthesis, the end of the expression. That common
part is `Stacks.settle`, with the binding strength as its parameter. Settling first with a higher
strength changes nothing (`settle_then`), so the operators that a subexpression leaves pending may
be thought of as performed as soon as its last token is read.
-/

namespace InlineExpr

namespace Stacks

variable {reg : Registry}

/-- Whether an operator on the stack binds at least as tightly as `p`, and is neither a separator
nor an opening parenthesis of the registry. -/
def binds (reg : Registry) (p : Nat) (top : Entry) : Bool :=
  decide (p ≤ top.operator.priority) && !reg.owns top .comma && !reg.owns top .openParen

/-- Performs the topmost operator and goes on with the rest. -/
def performThen (go : List Entry → Operands → Except EvalError Unit × Stacks) (top : Entry)
    (ops : List Entry) (o : Operands) : Except EvalError Unit × Stacks :=
  match top.operator.perform o with
  | (.ok _, o) => go ops o
  | (.error x, o) => (.error x, ⟨ops, o⟩)

/-- Performs the operators on top that bind at least as tightly as `p`. -/
def settle (reg : Registry) (p : Nat) : List Entry → Operands → Except EvalError Unit × Stacks
  | [], o => (.ok (), ⟨[], o⟩)
  | top :: ops, o =>
    if binds reg p top then
      match top.operator.perform o with
      | (.ok _, o) => settle reg p ops o
      | (.error x, o) => (.error x, ⟨ops, o⟩)
    else (.ok (), ⟨top :: ops, o⟩)

/-- Goes on with the stacks that something leaves, unless it failed. -/
def andThen (f g : Stacks → Except EvalError Unit × Stacks) (s : Stacks) :
    Except EvalError Unit × Stacks :=
  match f s with
  | (.ok _, s) => g s
  | (.error x, s) => (.error x, s)

/-- Puts an operator of the registry on the stack. -/
def pushOperator (op : Operator) (s : Stacks) : Stacks :=
  { s with operators := ⟨op, true⟩ :: s.operators }

/-- No closing parenthesis is stacked. -/
def NoneClosing (ops : List Entry) : Prop :=
  ∀ e ∈ ops, e.operator ≠ .closeParen

/-- An operator is preceded by those that bind as tightly as itself. -/
lemma reduce_eq_settle (op : Operator) (ops : List Entry) (o : Operands) :
    reduce reg op ops o = settle reg op.priority ops o := by
  induction ops generalizing o with
  | nil => rfl
  | cons top ops ih =>
    rw [reduce, settle, show binds reg op.priority top = yields reg op top from rfl]
    by_cases h : yields reg op top = true
    · rw [if_pos h, if_pos h]
      cases top.operator.perform o with
      | mk x o =>
        cases x with
        | ok _ => exact ih o
        | error x => rfl
    · rw [if_neg h, if_neg h]

/-- What binds tightly binds as well for less. -/
lemma binds_of_le {p q : Nat} (h : p ≤ q) {top : Entry} (hq : binds reg q top = true) :
    binds reg p top = true := by
  simp only [binds, Bool.and_eq_true, decide_eq_true_eq] at hq ⊢
  exact ⟨⟨Nat.le_trans h hq.1.1, hq.1.2⟩, hq.2⟩

/-- An operator that binds less tightly stays. -/
lemma not_binds_of_lt {p : Nat} {op : Operator} (h : op.priority < p) (own : Bool) :
    ¬ binds .standard p ⟨op, own⟩ = true := by
  intro hb
  simp only [binds, Bool.and_eq_true, decide_eq_true_eq] at hb
  exact absurd hb.1.1 (Nat.not_le_of_lt h)

/-- The opening parenthesis of a group never comes off to make way. -/
lemma not_binds_openParen (p : Nat) : ¬ binds .standard p ⟨.openParen, true⟩ = true := by
  simp [binds, Registry.owns]

/-- What begins by performing the operators that bind as tightly as `p` may as well find them
performed. -/
lemma settle_then {p : Nat} (go : List Entry → Operands → Except EvalError Unit × Stacks)
    {ops : List Entry} (hgo : ∀ top rest o, top ∈ ops → binds reg p top = true →
      go (top :: rest) o = performThen go top rest o) (o : Operands) :
    (match settle reg p ops o with
      | (.ok _, s) => go s.operators s.operands
      | (.error x, s) => (.error x, s)) = go ops o := by
  -- while the top binds, both sides perform it; where it does not, settling is over
  induction ops generalizing o with
  | nil => rfl
  | cons top ops ih =>
    rw [settle]
    by_cases h : binds reg p top = true
    · rw [if_pos h, hgo top ops o (.head _) h, performThen]
      cases top.operator.perform o with
      | mk x o =>
        cases x with
        | ok _ => exact ih (fun t rest o ht => hgo t rest o (.tail _ ht)) o
        | error x => rfl
    · rw [if_neg h]

/-- Settling with a lower strength begins with what binds more tightly. -/
lemma settle_andThen_settle {p q : Nat} (h : p ≤ q) (s : Stacks) :
    andThen (fun s => settle reg q s.operators s.operands)
      (fun s => settle reg p s.operators s.operands) s = settle reg p s.operators s.operands := by
  apply settle_then (settle reg p)
  intro top rest o _ hq
  rw [settle, if_pos (binds_of_le h hq)]
  rfl

/-- A closing parenthesis begins with the operators above the opening one. -/
lemma settle_andThen_close {p : Nat} {s : Stacks} (h : NoneClosing s.operators) :
    andThen (fun s => settle reg p s.operators s.operands) (accept reg .closeParen) s =
      accept reg .closeParen s := by
  apply settle_then (unwind reg 0)
  intro top rest o htop hp
  have hopen : reg.owns top .openParen = false := by
    simp only [binds, Bool.and_eq_true, Bool.not_eq_true'] at hp
    exact hp.2
  rw [unwind, if_neg (h top htop), hopen, if_neg Bool.false_ne_true]
  rfl

/-- The end of an expression begins with any operators on top. -/
lemma settle_andThen_drain {p : Nat} (s : Stacks) :
    andThen (fun s => settle reg p s.operators s.operands) drain s = drain s :=
  settle_then applyAll (fun _ _ _ _ _ => rfl) s.operands

/-- What stays on the stack when operators that bind as tightly as `p` are called for: nothing but
first marks of choices binds that tightly in front of it. -/
def Waits (reg : Registry) (p : Nat) : List Entry → Prop
  | [] => True
  | top :: ops => binds reg p top = true → top.operator = .question ∧ Waits reg p ops

/-- Operators that wait for something wait for what binds tighter. -/
lemma Waits.mono {p q : Nat} (h : p ≤ q) {ops : List Entry} (hw : Waits reg p ops) :
    Waits reg q ops := by
  induction ops with
  | nil => trivial
  | cons top ops ih =>
    intro hq
    obtain ⟨hop, hrest⟩ := hw (binds_of_le h hq)
    exact ⟨hop, ih hrest⟩

/-- Only the first marks of choices come off a stack that waits. -/
lemma settle_of_waits {p : Nat} {ops : List Entry} (h : Waits reg p ops) (o : Operands) :
    settle reg p ops o = (.ok (), ⟨ops.dropWhile (binds reg p), o⟩) := by
  induction ops with
  | nil => rfl
  | cons top ops ih =>
    rw [settle, List.dropWhile_cons]
    by_cases hp : binds reg p top = true
    · obtain ⟨hop, hrest⟩ := h hp
      -- the first mark of a choice computes nothing, so the operands stay
      rw [if_pos hp, if_pos hp, hop]
      exact ih hrest
    · rw [if_neg hp, if_neg hp]

/-- What is left when tight operators have come off waits. -/
lemma waits_dropWhile (p : Nat) (ops : List Entry) :
    Waits reg p (ops.dropWhile (binds reg p)) := by
  induction ops with
  | nil => trivial
  | cons top ops ih =>
    rw [List.dropWhile_cons]
    by_cases hp : binds reg p top = true
    · rw [if_pos hp]
      exact ih
    · rw [if_neg hp]
      exact fun h => absurd h hp

/-- Choices bind loosely: a stack that waits for anything tighter stays as it is. -/
lemma dropWhile_of_waits {p : Nat} (hp : 2 ≤ p) {ops : List Entry} (h : Waits reg p ops) :
    ops.dropWhile (binds reg p) = ops := by
  cases ops with
  | nil => rfl
  | cons top ops =>
    have hnot : ¬ binds reg p top = true := by
      intro hb
      obtain ⟨hop, _⟩ := h hb
      simp only [binds, hop, Bool.and_eq_true, decide_eq_true_eq, Operator.priority] at hb
      omega
    rw [List.dropWhile_cons, if_neg hnot]

/-- A function is not closed by the parenthesis of a group, because no group stands behind it. -/
lemma fire_of_waits {p : Nat} (hp : p ≤ 6) {ops : List Entry} (h : Waits reg p ops)
    (o : Operands) : fire ops o = (.ok (), ⟨ops, o⟩) := by
  cases ops with
  | nil => rfl
  | cons top ops =>
    have hkind : ¬ top.operator.kind = .function := by
      intro hk
      -- a function binds more tightly than `p` asks for, but is not the mark of a choice
      have hb : binds reg p top = true := by
        simp only [binds, Registry.owns]
        cases hop : top.operator <;> simp_all [Operator.kind, Operator.priority]
      obtain ⟨hop, _⟩ := h hb
      rw [hop] at hk
      cases hk
    rw [fire, if_neg hkind]

/-- Performing one operator and going on leaves a part of the stack from below. -/
lemma performThen_suffix {go : List Entry → Operands → Except EvalError Unit × Stacks}
    {ops : List Entry} (hgo : ∀ o, (go ops o).2.operators <:+ ops) (top : Entry) (o : Operands) :
    (performThen go top ops o).2.operators <:+ top :: ops := by
  rw [performThen]
  cases top.operator.perform o with
  | mk x o =>
    cases x with
    | ok _ => exact (hgo o).trans (List.suffix_cons _ _)
    | error e => exact List.suffix_cons _ _

/-- Settling leaves a part of the stack from below. -/
lemma settle_suffix (p : Nat) (ops : List Entry) (o : Operands) :
    (settle reg p ops o).2.operators <:+ ops := by
  induction ops generalizing o with
  | nil => exact List.suffix_refl _
  | cons top ops ih =>
    rw [settle]
    split
    · exact performThen_suffix ih top o
    · exact List.suffix_refl _

/-- What settling leaves on top does not bind. -/
lemma not_binds_of_settle {p : Nat} {ops rest : List Entry} {o : Operands} {s : Stacks}
    {top : Entry} (h : settle reg p ops o = (.ok (), s)) (hs : s.operators = top :: rest) :
    binds reg p top = false := by
  induction ops generalizing o with
  | nil =>
    cases h
    cases hs
  | cons e ops ih =>
    rw [settle] at h
    split at h
    · cases hx : e.operator.perform o with
      | mk x o' =>
        rw [hx] at h
        cases x with
        | ok _ => exact ih h
        | error x => cases h
    · cases h
      cases hs
      exact Bool.eq_false_iff.2 ‹_›

/-- Firing a function leaves a part of the stack from below. -/
lemma fire_suffix (ops : List Entry) (o : Operands) : (fire ops o).2.operators <:+ ops := by
  cases ops with
  | nil => exact List.suffix_refl _
  | cons f ops =>
    rw [fire]
    split
    · exact List.suffix_cons _ _
    · exact List.suffix_refl _

/-- Unwinding leaves a part of the stack from below. -/
lemma unwind_suffix (nested : Nat) (ops : List Entry) (o : Operands) :
    (unwind reg nested ops o).2.operators <:+ ops := by
  induction ops generalizing nested o with
  | nil => exact List.suffix_refl _
  | cons top ops ih =>
    rw [unwind.eq_def]
    dsimp only
    -- a closing parenthesis nests, an opening one ends the innermost, the rest is performed
    split
    · exact (ih _ o).trans (List.suffix_cons _ _)
    · split
      · cases nested with
        | zero => exact (fire_suffix ops o).trans (List.suffix_cons _ _)
        | succ nested => exact (ih nested o).trans (List.suffix_cons _ _)
      · exact performThen_suffix (ih nested) top o

/-- An operator that is taken in without an error stands on top of the settled stacks. -/
lemma eq_of_accept {op : Operator} (hop : op ≠ .closeParen) {s s' : Stacks}
    (h : accept reg op s = (.ok (), s')) : ∃ settled,
      settle reg op.priority s.operators s.operands = (.ok (), settled) ∧
        s' = settled.pushOperator op := by
  rw [accept, if_neg hop, reduce_eq_settle] at h
  cases hr : settle reg op.priority s.operators s.operands with
  | mk x settled =>
    rw [hr] at h
    cases x with
    | error e => cases h
    | ok _ =>
      cases h
      exact ⟨settled, rfl, rfl⟩

/-- An operator that is taken in leaves the settled stacks, and stands on top of them unless they
failed. -/
lemma accept_leaves (reg : Registry) {op : Operator} (hop : op ≠ .closeParen) (s : Stacks) :
    (accept reg op s).2 = (settle reg op.priority s.operators s.operands).2 ∨
      ∃ settled, settle reg op.priority s.operators s.operands = (.ok (), settled) ∧
        (accept reg op s).2 = settled.pushOperator op := by
  rw [accept, if_neg hop, reduce_eq_settle]
  cases settle reg op.priority s.operators s.operands with
  | mk x settled =>
    cases x with
    | error e => exact .inl rfl
    | ok _ => exact .inr ⟨settled, rfl, rfl⟩

/-- What holds of the stacked operators, and of an operator that is taken in and comes to be
stacked, holds of all that are stacked then. -/
lemma forall_mem_accept {P : Entry → Prop} {op : Operator} {s : Stacks}
    (hs : ∀ e ∈ s.operators, P e) (hop : op ≠ .closeParen → P ⟨op, true⟩) :
    ∀ e ∈ (accept reg op s).2.operators, P e := by
  intro e h
  by_cases hclose : op = .closeParen
  · rw [accept, if_pos hclose, hclose, apply] at h
    exact hs e ((unwind_suffix 0 _ _).subset h)
  · have hsuffix := @settle_suffix reg op.priority s.operators s.operands
    obtain hleaves | ⟨settled, hsettle, hleaves⟩ := accept_leaves reg hclose s
    · rw [hleaves] at h
      exact hs e (hsuffix.subset h)
    · rw [hleaves] at h
      rw [hsettle] at hsuffix
      cases h with
      | head => exact hop hclose
      | tail _ h => exact hs e (hsuffix.subset h)

end Stacks

namespace Eval

open Stacks

/-- Settles the stacks in a context. -/
def finish (reg : Registry) (p : Nat) : Stacks → Eval Stacks :=
  onStacks fun s => settle reg p s.operators s.operands

/-- Work on the stacks in two parts is done one after the other. -/
lemma onStacks_andThen (f g : Stacks → Except EvalError Unit × Stacks) (s : Stacks) :
    onStacks (Stacks.andThen f g) s = onStacks f s >>= onStacks g := by
  funext ctx
  rw [bind_apply, onStacks, onStacks, Stacks.andThen]
  cases f { s with operands := { s.operands with separators := ctx.separators } } with
  | mk x s =>
    cases x with
    | ok _ => rfl
    | error x => rfl

end Eval

end InlineExpr
