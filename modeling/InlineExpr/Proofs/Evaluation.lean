import InlineExpr.Engine
import InlineExpr.Proofs.Symbols
import InlineExpr.Proofs.Tables
import Mathlib.Tactic.Common

/-!
# Laws of evaluations

Evaluations form a lawful monad, and the number of steps is only a bound: an evaluation of a text
that ends within some steps ends in the same way within any more (`text_of_le`). So a text has at
most one outcome from a context, which `Eval.Ends` names whatever the number of steps it takes
(`Ends.unique`).

The steps enter the evaluation of a text through the recursive calls alone, directly or through the
resolver that expressions and constants take as a parameter. So monotonicity is one induction on the
steps, over lemmas about any two evaluations of which one extends the other (`Eval.Extends`).
-/

namespace InlineExpr

/-- A value is not a want of steps. -/
lemma Outcome.value_ne_outOfSteps {α : Type} (a : α) (ctx : Context) :
    Outcome.value a ctx ≠ .outOfSteps := by
  intro h
  cases h

/-- An error is not a want of steps. -/
lemma Outcome.error_ne_outOfSteps {α : Type} (e : EvalError) (ctx : Context) :
    (Outcome.error e ctx : Outcome α) ≠ .outOfSteps := by
  intro h
  cases h

/-- What an evaluation that ended has to say, without its context. -/
def Outcome.result? {α : Type} : Outcome α → Option (Except EvalError α)
  | .value a _ => some (.ok a)
  | .error e _ => some (.error e)
  | .outOfSteps => none

/-- The constant is missing from the table or cannot be entered, which is the error. -/
def Context.Refuses (ctx : Context) (name : Text) (e : EvalError) : Prop :=
  (ctx.table.get? name = none ∧
    e = .unknownConstant name (Text.suggestions name ctx.table.names)) ∨
  ctx.enter name = .error e

namespace Eval

variable {α β : Type}

/-- An evaluation goes on where the one before it has a result. -/
lemma bind_apply (x : Eval α) (f : α → Eval β) (ctx : Context) :
    (x >>= f) ctx =
      match x ctx with
      | .value a ctx => f a ctx
      | .error e ctx => .error e ctx
      | .outOfSteps => .outOfSteps := rfl

/-- Behind a result the evaluation goes on with it. -/
lemma bind_of_value {x : Eval α} {ctx ctx' : Context} {a : α} (h : x ctx = .value a ctx')
    (f : α → Eval β) : (x >>= f) ctx = f a ctx' := by
  rw [bind_apply, h]

/-- An error ends the evaluation. -/
lemma bind_of_error {x : Eval α} {ctx ctx' : Context} {e : EvalError} (h : x ctx = .error e ctx')
    (f : α → Eval β) : (x >>= f) ctx = .error e ctx' := by
  rw [bind_apply, h]

instance : LawfulMonad Eval :=
  LawfulMonad.mk' Eval
    (by
      intro α x
      funext ctx
      change (x >>= pure) ctx = x ctx
      rw [bind_apply]
      cases x ctx <;> rfl)
    (fun _ _ => rfl)
    (by
      intro α β γ x f g
      funext ctx
      simp only [bind_apply]
      cases x ctx <;> rfl)

/-- A sequence that gives a value gave one in its first part and one in its second. -/
lemma value_of_bind {x : Eval α} {f : α → Eval β} {ctx ctx' : Context} {b : β}
    (h : (x >>= f) ctx = .value b ctx') : ∃ a c, x ctx = .value a c ∧ f a c = .value b ctx' := by
  rw [bind_apply] at h
  cases hx : x ctx with
  | value a c =>
    rw [hx] at h
    exact ⟨a, c, rfl, h⟩
  | error e c => rw [hx] at h; cases h
  | outOfSteps => rw [hx] at h; cases h

/-- A sequence that fails does so in its first part, or after a value of it in its second. -/
lemma error_of_bind {x : Eval α} {f : α → Eval β} {ctx ctx' : Context} {e : EvalError}
    (h : (x >>= f) ctx = .error e ctx') :
    x ctx = .error e ctx' ∨ ∃ a c, x ctx = .value a c ∧ f a c = .error e ctx' := by
  rw [bind_apply] at h
  cases hx : x ctx with
  | value a c =>
    rw [hx] at h
    exact .inr ⟨a, c, rfl, h⟩
  | error x c =>
    rw [hx] at h
    cases h
    exact .inl rfl
  | outOfSteps => rw [hx] at h; cases h

/-- A renamed error is the new name of an error of the computation itself. -/
lemma error_of_mapError {f : EvalError → EvalError} {x : Eval α} {ctx ctx' : Context}
    {e : EvalError} (h : mapError f x ctx = .error e ctx') :
    ∃ e', x ctx = .error e' ctx' ∧ e = f e' := by
  rw [mapError] at h
  cases hx : x ctx with
  | value a c => rw [hx] at h; cases h
  | error e' c =>
    rw [hx] at h
    cases h
    exact ⟨e', rfl, rfl⟩
  | outOfSteps => rw [hx] at h; cases h

/-- What comes after an evaluation matters only where the evaluation has a result. -/
lemma bind_congr_of_value {x : Eval α} {f g : α → Eval β} {ctx : Context}
    (h : ∀ a ctx', x ctx = .value a ctx' → f a ctx' = g a ctx') :
    (x >>= f) ctx = (x >>= g) ctx := by
  rw [bind_apply, bind_apply]
  cases hx : x ctx with
  | value a ctx' => exact h a ctx' hx
  | error e ctx' => rfl
  | outOfSteps => rfl

/-- The evaluation that has a result or an error at once. -/
def ofExcept : Except EvalError α → Eval α
  | .ok a => pure a
  | .error e => fail e

/-- A value that needs no evaluation passes straight to what comes next. -/
lemma ofExcept_ok_bind (a : α) (f : α → Eval β) : (ofExcept (.ok a) >>= f) = f a := rfl

/-- A function applied to the value at the end acts on the result alone. -/
lemma result?_bind_pure (x : Eval α) (f : α → β) (ctx : Context) :
    ((x >>= fun a => pure (f a)) ctx).result? = (x ctx).result?.map (Except.map f) := by
  rw [bind_apply]
  cases x ctx with
  | value a c => rfl
  | error e c => rfl
  | outOfSteps => rfl

/-- Renaming the errors of a computation renames the error in its result. -/
lemma result?_mapError (f : EvalError → EvalError) (x : Eval α) (ctx : Context) :
    (mapError f x ctx).result? = (x ctx).result?.map (Except.mapError f) := by
  rw [mapError]
  cases x ctx with
  | value a c => rfl
  | error e c => rfl
  | outOfSteps => rfl

/-- One token is read in turn as an operator, a reference or an operand. -/
lemma token_apply (resolve : Text → Eval Text) (s : Stacks) (t : Text) (ctx : Context) :
    token resolve s t ctx =
      match ctx.registry.lookup? t with
      | some op => onStacks (Stacks.accept ctx.registry op) s ctx
      | none => (resolve t >>= fun v => pure (s.push (.text v))) ctx := by
  change (match ctx.registry.lookup? t with
    | some op => onStacks (Stacks.accept ctx.registry op) s
    | none => resolve t >>= fun v => pure (s.push (.text v)) : Eval Stacks) ctx = _
  cases ctx.registry.lookup? t <;> rfl

/-- Tokens that are resolved alike are read alike. -/
lemma tokens_congr {r r' : Text → Eval Text} {ts : List Text} (h : ∀ t ∈ ts, r t = r' t)
    (s : Stacks) : tokens r s ts = tokens r' s ts := by
  induction ts generalizing s with
  | nil => rfl
  | cons t ts ih =>
    rw [tokens, tokens, token, token, h t (.head _)]
    exact congrArg _ (funext fun s => ih (fun u hu => h u (.tail _ hu)) s)

/-- A constant is looked up, entered on the chain, evaluated, left and remembered. -/
lemma constant_apply (resolve : Text → Eval Text) (name : Text) (ctx : Context) :
    constant resolve name ctx =
      match ctx.table.get? name with
      | none => .error (.unknownConstant name (Text.suggestions name ctx.table.names)) ctx
      | some value =>
        (enter name >>= fun _ => andThen (resolve value) Context.leave >>= fun resolved =>
          update (·.define name resolved) >>= fun _ => pure resolved) ctx := by
  change (match ctx.table.get? name with
    | none => fail (.unknownConstant name (Text.suggestions name ctx.table.names))
    | some value =>
      enter name >>= fun _ => andThen (resolve value) Context.leave >>= fun resolved =>
        update (·.define name resolved) >>= fun _ => pure resolved : Eval Text) ctx = _
  cases ctx.table.get? name <;> rfl

section Constants

variable {resolve : Text → Eval Text} {name value : Text} {ctx inner : Context}

/-- A name with no definition is an unknown constant, told with the names near to it. -/
lemma constant_of_missing (hvalue : ctx.table.get? name = none) :
    constant resolve name ctx =
      .error (.unknownConstant name (Text.suggestions name ctx.table.names)) ctx := by
  rw [constant_apply, hvalue]

/-- A constant the chain refuses fails with the reason of the chain. -/
lemma constant_of_refused {e : EvalError} (hvalue : ctx.table.get? name = some value)
    (henter : ctx.enter name = .error e) : constant resolve name ctx = .error e ctx := by
  rw [constant_apply, hvalue]
  dsimp only
  rw [bind_apply, enter, henter]

/-- A constant that is entered takes in what its value is resolved to, and is left in any case. -/
lemma constant_of_entered (hvalue : ctx.table.get? name = some value)
    (henter : ctx.enter name = .ok inner) :
    constant resolve name ctx =
      match resolve value inner with
      | .value v c => .value v (c.leave.define name v)
      | .error e c => .error e c.leave
      | .outOfSteps => .outOfSteps := by
  rw [constant_apply, hvalue]
  dsimp only
  rw [bind_apply, enter, henter]
  dsimp only
  rw [bind_apply, andThen]
  cases resolve value inner <;> rfl

/-- A constant that was resolved was found and entered, and its value was resolved. -/
lemma value_of_constant {v : Text} {ctx' : Context}
    (h : constant resolve name ctx = .value v ctx') :
    ∃ value inner c, ctx.table.get? name = some value ∧ ctx.enter name = .ok inner ∧
      resolve value inner = .value v c ∧ ctx' = c.leave.define name v := by
  cases hvalue : ctx.table.get? name with
  | none =>
    rw [constant_of_missing hvalue] at h
    cases h
  | some value =>
    cases henter : ctx.enter name with
    | error e =>
      rw [constant_of_refused hvalue henter] at h
      cases h
    | ok inner =>
      rw [constant_of_entered hvalue henter] at h
      cases hx : resolve value inner with
      | value w c =>
        rw [hx] at h
        cases h
        exact ⟨value, inner, c, rfl, rfl, hx, rfl⟩
      | error e c =>
        rw [hx] at h
        cases h
      | outOfSteps =>
        rw [hx] at h
        cases h

/-- A constant that failed was refused, or entered and left with the error of its value. -/
lemma error_of_constant {e : EvalError} {ctx' : Context}
    (h : constant resolve name ctx = .error e ctx') :
    (ctx.Refuses name e ∧ ctx' = ctx) ∨
      ∃ value inner c, ctx.table.get? name = some value ∧ ctx.enter name = .ok inner ∧
        resolve value inner = .error e c ∧ ctx' = c.leave := by
  cases hvalue : ctx.table.get? name with
  | none =>
    rw [constant_of_missing hvalue] at h
    cases h
    exact .inl ⟨.inl ⟨hvalue, rfl⟩, rfl⟩
  | some value =>
    cases henter : ctx.enter name with
    | error e =>
      rw [constant_of_refused hvalue henter] at h
      cases h
      exact .inl ⟨.inr henter, rfl⟩
    | ok inner =>
      rw [constant_of_entered hvalue henter] at h
      cases hx : resolve value inner with
      | value v c =>
        rw [hx] at h
        cases h
      | error e c =>
        rw [hx] at h
        cases h
        exact .inr ⟨value, inner, c, rfl, rfl, hx, rfl⟩
      | outOfSteps =>
        rw [hx] at h
        cases h

end Constants

/-- The evaluation `y` ends as `x` does wherever `x` ends. -/
def Extends (x y : Eval α) : Prop :=
  ∀ ctx, x ctx ≠ .outOfSteps → y ctx = x ctx

/-- Every computation extends the one with no steps at all. -/
lemma Extends.of_exhausted (y : Eval α) : Extends exhausted y :=
  fun _ h => absurd rfl h

/-- A computation extends itself. -/
lemma Extends.refl (x : Eval α) : Extends x x :=
  fun _ _ => rfl

/-- Extensions follow one another. -/
lemma Extends.trans {x y z : Eval α} (hxy : Extends x y) (hyz : Extends y z) : Extends x z := by
  intro ctx h
  have hy := hxy ctx h
  rw [hyz ctx (by rwa [hy]), hy]

/-- A sequence that ends had steps enough for its first part. -/
lemma ne_outOfSteps_of_bind {x : Eval α} {f : α → Eval β} {ctx : Context}
    (h : (x >>= f) ctx ≠ .outOfSteps) : x ctx ≠ .outOfSteps := by
  intro hx
  rw [bind_apply, hx] at h
  exact h rfl

/-- An evaluation in two parts is not out of steps if neither of its parts is. -/
lemma bind_ne_outOfSteps {x : Eval α} {f : α → Eval β} {ctx : Context} (hx : x ctx ≠ .outOfSteps)
    (hf : ∀ a c, x ctx = .value a c → f a c ≠ .outOfSteps) : (x >>= f) ctx ≠ .outOfSteps := by
  rw [bind_apply]
  cases hc : x ctx with
  | value a c => exact hf a c hc
  | error e c => exact Outcome.error_ne_outOfSteps e c
  | outOfSteps => exact absurd hc hx

/-- Renaming the errors of a computation costs no steps. -/
lemma mapError_ne_outOfSteps {x : Eval α} {ctx : Context} (hx : x ctx ≠ .outOfSteps)
    (f : EvalError → EvalError) : mapError f x ctx ≠ .outOfSteps := by
  rw [mapError]
  cases hc : x ctx with
  | value a c => exact Outcome.value_ne_outOfSteps a c
  | error e c => exact Outcome.error_ne_outOfSteps (f e) c
  | outOfSteps => exact absurd hc hx

/-- Changing the context at the end costs no steps. -/
lemma andThen_ne_outOfSteps {x : Eval α} {ctx : Context} (hx : x ctx ≠ .outOfSteps)
    (f : Context → Context) : andThen x f ctx ≠ .outOfSteps := by
  rw [andThen]
  cases hc : x ctx with
  | value a c => exact Outcome.value_ne_outOfSteps a (f c)
  | error e c => exact Outcome.error_ne_outOfSteps e (f c)
  | outOfSteps => exact absurd hc hx

/-- A computation with renamed errors ends only if it did before. -/
lemma ne_outOfSteps_of_mapError {f : EvalError → EvalError} {x : Eval α} {ctx : Context}
    (h : mapError f x ctx ≠ .outOfSteps) : x ctx ≠ .outOfSteps := by
  intro hx
  exact h (by rw [mapError, hx])

/-- A computation whose context is changed at the end ends only if it did before. -/
lemma ne_outOfSteps_of_andThen {f : Context → Context} {x : Eval α} {ctx : Context}
    (h : andThen x f ctx ≠ .outOfSteps) : x ctx ≠ .outOfSteps := by
  intro hx
  exact h (by rw [andThen, hx])

/-- A sequence is extended by extending both of its parts. -/
lemma Extends.bind {x y : Eval α} {f g : α → Eval β}
    (hx : Extends x y) (hf : ∀ a, Extends (f a) (g a)) : Extends (x >>= f) (y >>= g) := by
  intro ctx h
  have hy := hx ctx (ne_outOfSteps_of_bind h)
  rw [bind_apply, bind_apply, hy] at *
  cases hc : x ctx with
  | value a ctx' =>
    rw [hc] at h
    exact hf a ctx' h
  | error e ctx' => rfl
  | outOfSteps => rfl

/-- Extension survives the renaming of errors. -/
lemma Extends.mapError {x y : Eval α} (hx : Extends x y) (f : EvalError → EvalError) :
    Extends (mapError f x) (mapError f y) := by
  intro ctx h
  rw [Eval.mapError, Eval.mapError, hx ctx (ne_outOfSteps_of_mapError h)]

/-- Extension survives a change of context at the end. -/
lemma Extends.andThen {x y : Eval α} (hx : Extends x y) (f : Context → Context) :
    Extends (andThen x f) (andThen y f) := by
  intro ctx h
  rw [Eval.andThen, Eval.andThen, hx ctx (ne_outOfSteps_of_andThen h)]

section Resolvers

variable {r r' : Text → Eval Text} (hr : ∀ t, Extends (r t) (r' t))

include hr

/-- More steps for the references of a token keep what the token did. -/
lemma Extends.token (s : Stacks) (t : Text) : Extends (token r s t) (token r' s t) := by
  intro ctx h
  rw [token_apply] at h ⊢
  rw [token_apply]
  cases hop : ctx.registry.lookup? t with
  | some op => rfl
  | none =>
    rw [hop] at h
    exact Extends.bind (hr t) (fun _ => .refl _) ctx h

/-- More steps for the references keep what a whole row of tokens did. -/
lemma Extends.tokens (s : Stacks) (ts : List Text) : Extends (tokens r s ts) (tokens r' s ts) := by
  induction ts generalizing s with
  | nil => exact .refl _
  | cons t ts ih => exact .bind (.token hr s t) ih

/-- More steps for the references keep the value of an expression. -/
lemma Extends.expression (ts : List Text) : Extends (expression r ts) (expression r' ts) :=
  .bind (.tokens hr .empty ts) fun _ => .refl _

/-- More steps for the references keep the replacement of a span. -/
lemma Extends.span (body : Text) : Extends (span r body) (span r' body) :=
  .mapError (.expression hr _) _

/-- More steps for the stored text keep the value of a constant. -/
lemma Extends.constant (name : Text) : Extends (constant r name) (constant r' name) := by
  intro ctx h
  rw [constant_apply] at h ⊢
  rw [constant_apply]
  cases hv : ctx.table.get? name with
  | none => rfl
  | some value =>
    rw [hv] at h
    apply Extends.bind (.refl _) _ ctx h
    intro _
    exact .bind (.andThen (hr value) _) fun _ => .refl _

end Resolvers

/-- One step more keeps what ended, for texts and for the replacement of references. -/
lemma extends_succ (n : Nat) :
    (∀ t, Extends (text n t) (text (n + 1) t)) ∧
      ∀ t, Extends (references n t) (references (n + 1) t) := by
  -- both at once: a text without spans goes on to its references, a reference back to a text
  induction n with
  | zero =>
    refine ⟨fun t => ?_, fun t => ?_⟩
    · rw [text]
      exact .of_exhausted _
    · rw [references]
      exact .of_exhausted _
  | succ n ih =>
    obtain ⟨iht, ihr⟩ := ih
    refine ⟨fun t => ?_, fun t => ?_⟩
    · rw [text, text]
      cases Span.find? t with
      | none => exact ihr t
      | some cut => exact .bind (.span iht _) fun _ => iht _
    · rw [references, references]
      cases Reference.find? t with
      | none => exact .refl _
      | some cut => exact .bind (.constant iht _) fun _ => ihr _

/-- More steps keep what ended. -/
lemma text_of_le {m n : Nat} (h : m ≤ n) (t : Text) : Extends (text m t) (text n t) := by
  induction h with
  | refl => exact .refl _
  | step _ ih => exact ih.trans ((extends_succ _).1 t)

/-- The references of a text, resolved with some steps, are resolved alike with more. -/
lemma references_of_le {m n : Nat} (h : m ≤ n) (t : Text) :
    Extends (references m t) (references n t) := by
  induction h with
  | refl => exact .refl _
  | step _ ih => exact ih.trans ((extends_succ _).2 t)

/-- More steps keep what an evaluation that is given a number of them ends with. -/
def Steady (x : Nat → Eval α) : Prop :=
  ∀ {m n}, m ≤ n → Extends (x m) (x n)

/-- More steps never change what a text gives once it ends. -/
lemma text_steady (t : Text) : Steady (text · t) :=
  fun h => text_of_le h t

/-- More steps never change what the references of a text give once they end. -/
lemma references_steady (t : Text) : Steady (references · t) :=
  fun h => references_of_le h t

/-- With enough steps, an evaluation that is given a number of them ends in `o`. -/
def Ends (x : Nat → Eval α) (ctx : Context) (o : Outcome α) : Prop :=
  o ≠ .outOfSteps ∧ ∃ n, x n ctx = o

/-- An evaluation has one outcome. -/
lemma Ends.unique {x : Nat → Eval α} {ctx o o'} (steady : Steady x)
    (h : Ends x ctx o) (h' : Ends x ctx o') : o = o' := by
  obtain ⟨ho, n, rfl⟩ := h
  obtain ⟨ho', n', rfl⟩ := h'
  rw [← steady (Nat.le_max_left n n') ctx ho, steady (Nat.le_max_right n n') ctx ho']

/-- With any number of steps that suffices, the outcome is the one it ends with. -/
lemma Ends.eq_of_ne {x : Nat → Eval α} {ctx o n} (steady : Steady x)
    (h : Ends x ctx o) (hn : x n ctx ≠ .outOfSteps) : x n ctx = o :=
  Ends.unique steady ⟨hn, n, rfl⟩ h

end Eval

/-- The evaluation of a text on a table ends in `o`, whatever the number of steps it takes. -/
def Engine.Ends (engine : Engine) (t : Text) (table : Table) (o : Outcome Text) : Prop :=
  Eval.Ends (Eval.text · t) (engine.start table) o

end InlineExpr
