import InlineExpr.Proofs.ShuntingYard
import InlineExpr.Proofs.Tree
import Mathlib.Data.List.DropRight

/-!
# The stacks compute the value of the tree

The tokens that write an expression tree down are evaluated on two stacks without a tree ever being
built. Here the outcome is shown to be that of the tree: the value that `Expr.eval` gives it, or the
first error from left to right (`expression_tokens`).

Reading the tokens of a subexpression leaves operators of its right edge pending, so the invariant
speaks of the stacks once they are settled, with a strength that the subexpression has and that the
stack below waits for (`Computes`). Arguments leave their separators behind, one fewer than there
are arguments (`ComputesArgs`), and the closing parenthesis counts them for its call alone. One
lemma for each form of an expression says that the invariant passes from its parts to the whole.
-/

namespace InlineExpr

namespace Eval

open Stacks

section Parts

variable (resolve : Text → Eval Text) (ctx : Context)

/-- Some tokens, read on stacks that wait for `p` and then settled for `p`, leave one value on top
of these stacks. -/
def Computes (p : Nat) (ts : List Text) (x : Except EvalError Value) : Prop :=
  ∀ ops vs, Waits .standard p ops → NoneClosing ops →
    (tokens resolve (stacked ops vs) ts >>= finish .standard p) ctx =
      (ofExcept x >>= fun v => finish .standard p (stacked ops (v :: vs))) ctx

/-- Some tokens, read behind an operator that yields to none, leave the values of arguments and the
`k` separators between them. -/
def ComputesArgs (k : Nat) (ts : List Text) (x : Except EvalError (List Value)) : Prop :=
  ∀ top ops vs, (∀ p, ¬ binds .standard p top = true) → NoneClosing (top :: ops) →
    (tokens resolve (stacked (top :: ops) vs) ts >>= finish .standard 1) ctx =
      (ofExcept x >>= fun ws =>
        pure (stacked (List.replicate k ⟨.comma, true⟩ ++ top :: ops) (ws.reverse ++ vs))) ctx

end Parts

section Forms

variable {resolve : Text → Eval Text} {ctx : Context} {x y z : Except EvalError Value}
  {ts us ws : List Text} {p q : Nat}

/-- No closing parenthesis is stacked by another operator. -/
lemma noneClosing_cons {op : Operator} (hop : op ≠ .closeParen) {own : Bool} {ops : List Entry}
    (h : NoneClosing ops) : NoneClosing (⟨op, own⟩ :: ops) := by
  intro e he
  cases he with
  | head => exact hop
  | tail _ he => exact h e he

/-- An operator that does not bind tightly enough keeps all below it waiting. -/
lemma waits_cons {top : Entry} (h : ¬ binds .standard p top = true) (ops : List Entry) :
    Waits .standard p (top :: ops) :=
  fun hb => absurd hb h

/-- Separators never come off to make way. -/
lemma not_binds_comma (p : Nat) : ¬ binds .standard p ⟨.comma, true⟩ = true := by
  simp [binds, Registry.owns]

/-- An operator that computes makes way for all that bind no tighter. -/
lemma binds_own {op : Operator} (hcomma : op ≠ .comma) (hopen : op ≠ .openParen)
    (h : p ≤ op.priority) : binds .standard p ⟨op, true⟩ = true := by
  simp [binds, Registry.owns, h, hcomma, hopen]

/-- An operand leaves the text that it resolves to. -/
lemma Computes.operand {t : Text} {r : Except EvalError Text} (p : Nat)
    (hlookup : ctx.registry.lookup? t = none) (hresolve : resolve t ctx = ofExcept r ctx) :
    Computes resolve ctx p [t] (r >>= fun v => pure (.text v)) := by
  intro ops vs _ _
  rw [tokens, bind_assoc, bind_apply, token_apply, hlookup]
  dsimp only
  rw [bind_apply, hresolve]
  cases r with
  | ok v => rfl
  | error e => rfl

variable (hsep : ctx.separators = 0)

include hsep

/-- A last operand that binds more tightly than the rest may be settled first. -/
lemma Computes.finish_of_le (h : Computes resolve ctx q ts x) (hp : p ≤ q) (hq : 2 ≤ q)
    {ops : List Entry} (hwaits : Waits .standard q ops) (hops : NoneClosing ops)
    (vs : List Value) :
    (tokens resolve (stacked ops vs) ts >>= finish .standard p) ctx =
      (ofExcept x >>= fun v => finish .standard p (stacked ops (v :: vs))) ctx := by
  have hfinish : (tokens resolve (stacked ops vs) ts >>= finish .standard p) =
      (tokens resolve (stacked ops vs) ts >>= finish .standard q) >>= finish .standard p := by
    rw [bind_assoc]
    congr 1
    funext s
    exact (finish_bind_finish hp s).symm
  rw [hfinish]
  exact bind_of_settled (h ops vs hwaits hops)
    (fun v => finish_of_waits_two hsep hq hwaits (v :: vs)) _

/-- A last argument has no separator behind it. -/
lemma ComputesArgs.last (h : Computes resolve ctx 1 ts x) :
    ComputesArgs resolve ctx 0 ts (x >>= fun v => pure [v]) := by
  intro top ops vs htop hops
  rw [h _ vs (waits_cons (htop 1) ops) hops, ofExcept_bind, bind_assoc]
  apply ofExcept_bind_congr
  intro v _
  rw [finish_of_waits hsep (waits_cons (htop 1) ops), List.dropWhile_cons_of_neg (htop 1)]
  rfl

section Reading

variable (hr : ∀ t, Within Context.Keeps (resolve t)) (hreg : ctx.registry = .standard)

include hr hreg

/-- A binary operator waits for its right operand on a stack that is settled for its left one. -/
lemma Computes.binary {op : Operator} (hop : op.IsBinary) (hp : p ≤ op.priority)
    (hleft : Computes resolve ctx op.priority ts x)
    (hright : Computes resolve ctx (op.priority + 1) us y) :
    Computes resolve ctx p (ts ++ op.token :: us)
      (x >>= fun a => y >>= fun b => op.result [a, b]) := by
  intro ops vs hwaits hops
  obtain ⟨hcomma, hopen, hclose⟩ := hop.ne_mark
  obtain ⟨htwo, hkind, htakes⟩ := hop.binds_operands
  have hwaits' := hwaits.mono hp
  -- the left operand, settled as strongly as the operator that comes in asks for
  rw [tokens_incoming hr hreg hclose rfl (Nat.le_refl _) hops,
    bind_of_settled (hleft ops vs hwaits' hops)
      (fun a => finish_of_waits_two hsep htwo hwaits' (a :: vs)), ofExcept_bind, bind_assoc]
  apply ofExcept_bind_congr
  intro a _
  rw [bind_of_value (finish_of_waits_two hsep htwo hwaits' (a :: vs)), ofExcept_bind, bind_assoc]
  -- the right operand is settled more strongly, so that the operator stays below it
  have hnot := not_binds_of_lt (Nat.lt_succ_self op.priority) true
  rw [stacked_pushOperator, hright.finish_of_le hsep (by omega) (by omega)
    (waits_cons hnot ops) (noneClosing_cons hclose hops) (a :: vs)]
  apply ofExcept_bind_congr
  intro b _
  exact finish_performs hsep [a, b] htakes hkind (binds_own hcomma hopen hp) ops vs

/-- The first mark of a choice comes off before the second one is performed, and performing it takes
nothing. -/
lemma Computes.choice (hp : p ≤ 1) (hpredicate : Computes resolve ctx 1 ts x)
    (htrue : Computes resolve ctx 1 us y) (hfalse : Computes resolve ctx 2 ws z) :
    Computes resolve ctx p (ts ++ Operator.question.token :: (us ++ Operator.colon.token :: ws))
      (x >>= fun a => y >>= fun b => z >>= fun c => Operator.colon.result [a, b, c]) := by
  intro ops vs hwaits hops
  -- the marks of this choice take the first marks of the choices around it off the stack
  have hfinish : ∀ a : Value, finish .standard p (stacked ops (a :: vs)) ctx =
      finish .standard p (stacked (ops.dropWhile (binds .standard 1)) (a :: vs)) ctx := by
    intro a
    rw [← finish_bind_finish hp, bind_of_value (finish_of_waits hsep (hwaits.mono hp) (a :: vs))]
  have hops' : NoneClosing (ops.dropWhile (binds .standard 1)) :=
    fun e he => hops e ((List.dropWhile_suffix _).subset he)
  have hwaits' : Waits .standard 1 (ops.dropWhile (binds .standard 1)) := waits_dropWhile 1 ops
  have hdrop := List.dropWhile_idempotent (binds .standard 1) ops
  have hmark : Waits .standard 1 (⟨.question, true⟩ :: ops.dropWhile (binds .standard 1)) :=
    fun _ => ⟨rfl, hwaits'⟩
  rw [tokens_incoming hr hreg (show Operator.question ≠ .closeParen by decide) (q := 1) rfl
      (Nat.le_refl 1) hops,
    bind_of_settled (hpredicate ops vs (hwaits.mono hp) hops)
      (fun a => finish_of_waits hsep (hwaits.mono hp) (a :: vs)), ofExcept_bind, bind_assoc]
  apply ofExcept_bind_congr
  intro a _
  -- the first branch is read on the first mark, which the second one takes off
  rw [bind_of_value (finish_of_waits hsep hwaits' (a :: vs)), hdrop, stacked_pushOperator,
    tokens_incoming hr hreg (show Operator.colon ≠ .closeParen by decide) (q := 1) rfl
      (Nat.le_refl 1) (noneClosing_cons (by decide) hops'),
    bind_of_settled (htrue _ (a :: vs) hmark (noneClosing_cons (by decide) hops'))
      (fun b => finish_of_waits hsep hmark (b :: a :: vs)), ofExcept_bind, bind_assoc]
  apply ofExcept_bind_congr
  intro b _
  rw [show List.dropWhile _ (_ :: List.dropWhile _ ops) = _ from hdrop,
    bind_of_value (finish_of_waits hsep hwaits' (b :: a :: vs)), hdrop, stacked_pushOperator,
    hfalse.finish_of_le hsep (by omega) (Nat.le_refl 2)
      (waits_cons (not_binds_of_lt (by decide) true) _) (noneClosing_cons (by decide) hops'),
    ofExcept_bind, bind_assoc]
  apply ofExcept_bind_congr
  intro c _
  -- the second mark is performed with the three values, whatever else is called for
  have htakes : Operator.colon.Takes [a, b, c].length := rfl
  have hbinds : binds .standard p ⟨.colon, true⟩ = true := binds_own (by decide) (by decide) hp
  apply (finish_performs hsep [a, b, c] htakes (by decide) hbinds _ vs).trans
  apply ofExcept_bind_congr
  intro v _
  exact (hfinish v).symm

/-- A group is read on its opening parenthesis, which comes off with its value on top. -/
lemma Computes.group (hp : p ≤ 6) (h : Computes resolve ctx 1 ts x) :
    Computes resolve ctx p
      (Operator.openParen.token :: (ts ++ [Operator.closeParen.token])) x := by
  intro ops vs hwaits hops
  -- the opening parenthesis keeps what is below it from being settled
  have hinner := waits_cons (not_binds_openParen 1) ops
  have hsettled : ∀ a, finish .standard 1 (stacked (⟨.openParen, true⟩ :: ops) (a :: vs)) ctx =
      .value (stacked (⟨.openParen, true⟩ :: ops) (a :: vs)) ctx := by
    intro a
    rw [finish_of_waits hsep hinner, List.dropWhile_cons_of_neg (not_binds_openParen 1)]
  rw [tokens_pushing hreg hsep (show Operator.openParen ≠ .closeParen by decide) (by decide)
      (hwaits.mono (Nat.le_succ_of_le hp)),
    tokens_closing hr hreg 1 (noneClosing_cons (by decide) hops),
    bind_of_settled (h _ vs hinner (noneClosing_cons (by decide) hops)) hsettled]
  apply ofExcept_bind_congr
  intro a _
  exact bind_of_value (close_group hsep hp hwaits (a :: vs)) _

/-- The separator behind an argument yields to no operator of the arguments after it. -/
lemma ComputesArgs.more {k : Nat} {xs : Except EvalError (List Value)}
    (h : Computes resolve ctx 1 ts x) (hargs : ComputesArgs resolve ctx k us xs) :
    ComputesArgs resolve ctx (k + 1) (ts ++ Operator.comma.token :: us)
      (x >>= fun v => xs >>= fun vs => pure (v :: vs)) := by
  intro top ops vs htop hops
  have hstays : ∀ p v, finish .standard p (stacked (top :: ops) (v :: vs)) ctx =
      .value (stacked (top :: ops) (v :: vs)) ctx := by
    intro p v
    rw [finish_of_waits hsep (waits_cons (htop p) ops), List.dropWhile_cons_of_neg (htop p)]
  rw [tokens_incoming hr hreg (show Operator.comma ≠ .closeParen by decide) rfl (Nat.zero_le 1)
      hops,
    bind_of_settled (h _ vs (waits_cons (htop 1) ops) hops) (hstays 1), ofExcept_bind, bind_assoc]
  apply ofExcept_bind_congr
  intro v _
  rw [bind_of_value (hstays _ v), stacked_pushOperator,
    hargs _ _ (v :: vs) not_binds_comma (noneClosing_cons (by decide) hops), ofExcept_bind,
    bind_assoc]
  apply ofExcept_bind_congr
  intro ws _
  -- its separator lies below those of the arguments behind it
  have hcommas : List.replicate k (⟨.comma, true⟩ : Entry) ++ ⟨.comma, true⟩ :: top :: ops =
      List.replicate (k + 1) ⟨.comma, true⟩ ++ top :: ops := by
    rw [List.replicate_succ', List.append_assoc]
    rfl
  rw [hcommas]
  change _ = (pure (stacked _ ((v :: ws).reverse ++ vs)) : Eval Stacks) ctx
  rw [List.reverse_cons, List.append_assoc]
  rfl

/-- A call is read on its function and its opening parenthesis, and the closing one counts as many
arguments as there are. -/
lemma Computes.call {f : Operator} {k : Nat} {xs : Except EvalError (List Value)} (hp : p ≤ 6)
    (hf : f.kind = .function) (htakes : f.Takes (k + 1))
    (hlength : ∀ own, xs = .ok own → own.length = k + 1)
    (hargs : ComputesArgs resolve ctx k ts xs) :
    Computes resolve ctx p
      (f.token :: Operator.openParen.token :: (ts ++ [Operator.closeParen.token]))
      (xs >>= f.result) := by
  intro ops vs hwaits hops
  obtain ⟨hclose, hpriority⟩ := Operator.function_binds hf
  -- nothing on the stack binds as tightly as a function, and a function waits for its parenthesis
  have hwaits' : Waits .standard f.priority ops := hwaits.mono (by omega)
  have hnot : ¬ binds .standard Operator.openParen.priority ⟨f, true⟩ = true :=
    not_binds_of_lt (by rw [hpriority]; decide) true
  rw [tokens_pushing hreg hsep hclose (by omega) hwaits',
    tokens_pushing hreg hsep (show Operator.openParen ≠ .closeParen by decide) (by decide)
      (waits_cons hnot ops),
    tokens_closing hr hreg 1 (noneClosing_cons (by decide) (noneClosing_cons hclose hops)),
    bind_of_settled (hargs _ _ vs not_binds_openParen
      (noneClosing_cons (by decide) (noneClosing_cons hclose hops))) (fun _ => rfl),
    ofExcept_bind, bind_assoc]
  apply ofExcept_bind_congr
  intro own hown
  have hk := hlength own hown
  rw [bind_apply, close_call hsep hf (by rwa [hk]) hk.symm ops vs, ← bind_apply, bind_assoc]
  rfl

end Reading

end Forms

/-- The operands resolve to what `read` says, and are none of the operators in use. -/
def Reads (resolve : Text → Eval Text) (read : Operand → Except EvalError Text) (ctx : Context)
    (as : List Operand) : Prop :=
  ∀ a ∈ as, ctx.registry.lookup? a.token = none ∧ resolve a.token ctx = ofExcept (read a) ctx

/-- Operands in a row are read as told, and so are the first ones. -/
lemma Reads.left {resolve read ctx} {as bs : List Operand}
    (h : Reads resolve read ctx (as ++ bs)) : Reads resolve read ctx as :=
  fun a ha => h a (List.mem_append_left bs ha)

/-- Operands in a row are read as told, and so are the last ones. -/
lemma Reads.right {resolve read ctx} {as bs : List Operand}
    (h : Reads resolve read ctx (as ++ bs)) : Reads resolve read ctx bs :=
  fun a ha => h a (List.mem_append_right as ha)

section Trees

variable {resolve : Text → Eval Text} {read : Operand → Except EvalError Text} {ctx : Context}
  (hr : ∀ t, Within Context.Keeps (resolve t)) (hreg : ctx.registry = .standard)
  (hsep : ctx.separators = 0)

include hr hreg hsep

mutual

/-- The tokens of an expression compute its value. -/
lemma computes_tree (e : Expr) {p : Nat} (hfits : e.Fits p)
    (hreads : Reads resolve read ctx e.operands) :
    Computes resolve ctx p e.tokens (e.eval read) := by
  match e with
  | .operand a =>
    obtain ⟨hlookup, hresolve⟩ := hreads a (.head _)
    rw [Expr.tokens, Expr.eval]
    exact .operand p hlookup hresolve
  | .binary op left right =>
    rw [Expr.Fits] at hfits
    obtain ⟨hp, hop, hleft, hright⟩ := hfits
    rw [Expr.operands] at hreads
    rw [Expr.tokens, Expr.eval]
    exact .binary hsep hr hreg hop hp (computes_tree left hleft hreads.left)
      (computes_tree right hright hreads.right)
  | .choice predicate whenTrue whenFalse =>
    rw [Expr.Fits] at hfits
    obtain ⟨hp, hpredicate, htrue, hfalse⟩ := hfits
    rw [Expr.operands] at hreads
    rw [Expr.tokens, Expr.eval]
    exact .choice hsep hr hreg hp (computes_tree predicate hpredicate hreads.left)
      (computes_tree whenTrue htrue hreads.right.left)
      (computes_tree whenFalse hfalse hreads.right.right)
  | .group e =>
    rw [Expr.Fits] at hfits
    obtain ⟨hp, he⟩ := hfits
    rw [Expr.operands] at hreads
    rw [Expr.tokens, Expr.eval]
    exact .group hsep hr hreg hp (computes_tree e he hreads)
  | .call f args =>
    rw [Expr.Fits] at hfits
    obtain ⟨hp, hf, htakes, hargs⟩ := hfits
    rw [Expr.operands] at hreads
    rw [Expr.tokens, Expr.eval]
    exact .call hsep hr hreg hp hf htakes (fun _ => Args.length_of_eval)
      (computes_args args hargs hreads)

/-- The tokens of arguments leave their values and the separators between them. -/
lemma computes_args (args : Args) (hfit : args.Fit)
    (hreads : Reads resolve read ctx args.operands) :
    ComputesArgs resolve ctx args.separators args.tokens (args.eval read) := by
  match args with
  | .last e =>
    rw [Args.Fit] at hfit
    rw [Args.operands] at hreads
    rw [Args.tokens, Args.eval]
    exact .last hsep (computes_tree e hfit hreads)
  | .more e args =>
    rw [Args.Fit] at hfit
    rw [Args.operands] at hreads
    rw [Args.tokens, Args.eval]
    exact .more hsep hr hreg (computes_tree e hfit.1 hreads.left)
      (computes_args args hfit.2 hreads.right)

end

end Trees

section Expressions

variable {α : Type} {resolve : Text → Eval Text} {read : Operand → Except EvalError Text}
  {ctx : Context}

/-- Settling before everything comes off changes nothing. -/
lemma finish_bind_drain {reg : Registry} (p : Nat) (s : Stacks) :
    (finish reg p s >>= onStacks drain) = onStacks drain s := by
  rw [finish, ← onStacks_andThen]
  congr 1
  funext s
  exact settle_andThen_drain s

/-- At the end of an expression the tokens may find the stacks settled. -/
lemma tokens_draining (reg : Registry) (p : Nat) (s : Stacks) (ts : List Text)
    (go : Stacks → Eval α) : (tokens resolve s ts >>= fun s => onStacks drain s >>= go) =
      (tokens resolve s ts >>= finish reg p) >>= fun s => onStacks drain s >>= go := by
  rw [bind_assoc]
  congr 1
  funext s
  rw [← bind_assoc, finish_bind_drain]

/-- An expression has the outcome of its tree, however its operands are resolved. -/
lemma expression_tree (hr : ∀ t, Within Context.Keeps (resolve t))
    (hreg : ctx.registry = .standard) (hsep : ctx.separators = 0) {e : Expr} (hfits : e.Fits 1)
    (hreads : Reads resolve read ctx e.operands) :
    expression resolve e.tokens ctx = ofExcept ((e.eval read).map Value.asText) ctx := by
  have hwaits : Waits .standard 1 [] := trivial
  have hsettled : ∀ v, finish .standard 1 (stacked [] [v]) ctx = .value (stacked [] [v]) ctx :=
    fun v => finish_of_waits hsep hwaits [v]
  have hempty : Stacks.empty = stacked [] [] := rfl
  rw [expression, hempty, tokens_draining .standard 1, bind_of_settled
    (computes_tree hr hreg hsep e hfits hreads [] [] hwaits (fun _ h => nomatch h)) hsettled]
  cases e.eval read with
  | error x => rfl
  | ok v =>
    have hleft : onStacks drain (stacked [] [v]) ctx = .value (stacked [] [v]) ctx :=
      onStacks_stacked (x := .ok ()) hsep rfl
    rw [ofExcept_ok_bind, bind_of_value hleft]
    rfl

/-- A constant with a plain value is resolved to this value, and the table stays as it is. -/
lemma constant_of_plain {name v : Text} (hget : ctx.table.get? name = some v) (hv : v.IsPlain)
    (hchain : name ∉ ctx.chain) (hdepth : ctx.depth < ctx.maxDepth) (n : Nat) :
    constant (text (n + 2)) name ctx = .value v ctx := by
  rw [constant_of_resolved hget hdepth hchain (by rw [text_of_plain hv]; rfl), Context.define,
    Table.insert_of_get? hget]

/-- An operand that is plain is resolved to what it stands for. -/
lemma text_of_operand {a : Operand} (h : a.IsPlain ctx) (n : Nat) :
    text (n + 4) a.token ctx = ofExcept (a.read ctx.table) ctx := by
  cases a with
  | text t =>
    rw [Operand.token, text_of_plain h.1]
    rfl
  | constant name =>
    obtain ⟨hname, hvalue⟩ := h
    have hspan := Span.find?_eq_none_of_not_mem (Reference.sharp_not_mem_wrap hname)
    have hfind := Reference.find?_wrap_append hname []
    rw [List.append_nil] at hfind
    rw [Operand.token, text_of_no_span hspan, references_of_reference hfind]
    cases hget : ctx.table.get? name with
    | none =>
      rw [bind_of_error (constant_of_missing hget), Operand.read, hget]
      rfl
    | some v =>
      obtain ⟨hv, hchain, hdepth⟩ := hvalue v hget
      rw [bind_of_value (constant_of_plain hget hv hchain hdepth n), List.nil_append,
        List.append_nil, references_of_no_reference (Reference.find?_eq_none_of_not_mem hv.2),
        Operand.read, hget]
      rfl

/-- A reference names no operator. -/
lemma ofToken?_wrap (name : Text) : Operator.ofToken? (Reference.wrap name) = none := by
  cases hop : Operator.ofToken? (Reference.wrap name) with
  | none => rfl
  | some op =>
    have htoken := Operator.ofToken?_eq_some_iff.1 hop
    rw [← List.append_nil (Reference.wrap name), Reference.wrap_append_eq_cons] at htoken
    cases op <;> cases htoken

/-- A plain operand is no operator of any registry. -/
lemma lookup?_operand {a : Operand} (h : a.IsPlain ctx) (reg : Registry) :
    reg.lookup? a.token = none := by
  cases a with
  | text t => exact lookup?_of_not_operator h.2 reg
  | constant name => exact lookup?_of_not_operator (ofToken?_wrap name) reg

/-- The evaluation of an expression has the outcome of its tree: the value of the operators on their
own operands, or the first error from left to right. The context is left as it was. -/
theorem expression_tokens {steps : Nat} (hsteps : 4 ≤ steps) (hreg : ctx.registry = .standard)
    (hsep : ctx.separators = 0) {e : Expr} (hfits : e.Fits 1)
    (hplain : ∀ a ∈ e.operands, a.IsPlain ctx) :
    expression (text steps) e.tokens ctx =
      ofExcept ((e.eval (Operand.read ctx.table)).map Value.asText) ctx := by
  obtain ⟨n, rfl⟩ := Nat.exists_eq_add_of_le' hsteps
  apply expression_tree (text_keeps (n + 4)) hreg hsep hfits
  intro a ha
  exact ⟨lookup?_operand (hplain a ha) _, text_of_operand (hplain a ha) n⟩

/-- A choice whose last branch is a call with a call among its arguments:
`isEmpty ( $CONSTANTS.N$ ) ? x : substring ( hello , 1 , length ( $CONSTANTS.M$ ) )`. -/
def nested : Expr :=
  .choice (.call .isEmpty (.last (.operand (.constant ['N'])))) (.operand (.text ['x']))
    (.call .substring (.more (.operand (.text "hello".toList)) (.more (.operand (.text ['1']))
      (.last (.call .length (.last (.operand (.constant ['M']))))))))

/-- The context for `nested`, in which both of its constants have values. -/
def nestedContext : Context :=
  .fresh (.ofList true [(['M'], "abc".toList), (['N'], ['a'])]) .standard 1

/-- A call within a call in a branch of a choice is evaluated like its tree. -/
theorem expression_tokens_nested :
    (4 ≤ 4 ∧ nestedContext.registry = .standard ∧ nestedContext.separators = 0 ∧ nested.Fits 1 ∧
      ∀ a ∈ nested.operands, a.IsPlain nestedContext) ∧
    expression (text 4) nested.tokens nestedContext = .value "el".toList nestedContext := by
  have hfits : nested.Fits 1 := by
    simp [nested, Expr.Fits, Args.Fit, Args.size, Args.separators, Operator.kind, Operator.Takes]
  have hplain : ∀ a ∈ nested.operands, a.IsPlain nestedContext := by
    decide
  exact ⟨⟨Nat.le_refl 4, rfl, rfl, hfits, hplain⟩,
    (expression_tokens (Nat.le_refl 4) rfl rfl hfits hplain).trans (by rfl)⟩

end Expressions

end Eval

end InlineExpr
