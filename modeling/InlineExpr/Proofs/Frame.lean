import InlineExpr.Proofs.Evaluation

/-!
# What an evaluation leaves as it was

A relation between the context before and the one after holds for every evaluation of a text
(`text_within`) if it is reflexive and transitive, disregards the separators, and is kept by the
resolution of a constant whenever it is kept by the resolver. Registry, depth limit, chain and depth
are related so: they are the same again after every evaluation that ends (`text_keeps`).
-/

namespace InlineExpr

/-- The context in which an evaluation ended. -/
def Outcome.context? {α : Type} : Outcome α → Option Context
  | .value _ ctx => some ctx
  | .error _ ctx => some ctx
  | .outOfSteps => none

namespace Context

variable {ctx ctx' c d : Context} {name : Text} {e : EvalError}

/-- A constant can be entered if there is depth left and it is not being resolved. -/
lemma eq_of_enter (h : ctx.enter name = .ok ctx') :
    ctx.depth < ctx.maxDepth ∧ name ∉ ctx.chain ∧ ctx' = ctx.entered name := by
  rw [enter] at h
  split at h
  · cases h
  · split at h
    · cases h
    · cases h
      exact ⟨by omega, ‹_›, rfl⟩

/-- A constant is entered when the depth allows and it is not being resolved already. -/
lemma enter_of_lt (hdepth : ctx.depth < ctx.maxDepth) (hchain : name ∉ ctx.chain) :
    ctx.enter name = .ok (ctx.entered name) := by
  rw [enter, if_neg (Nat.not_le_of_lt hdepth), if_neg hchain]

/-- No constant is entered at the greatest depth. -/
lemma enter_of_exceeded (h : ctx.maxDepth ≤ ctx.depth) (name : Text) :
    ctx.enter name = .error .depthExceeded :=
  if_pos h

/-- A constant that is being resolved is not entered again. -/
lemma enter_of_cycle (hdepth : ctx.depth < ctx.maxDepth) (hchain : name ∈ ctx.chain) :
    ctx.enter name = .error (.cyclicReference (ctx.chain ++ [name])) := by
  rw [enter, if_neg (Nat.not_le_of_lt hdepth), if_pos hchain]

/-- A constant that cannot be entered finds no depth left, or itself in the chain. -/
lemma error_of_enter (h : ctx.enter name = .error e) :
    ctx.maxDepth ≤ ctx.depth ∧ e = .depthExceeded ∨
      ctx.depth < ctx.maxDepth ∧ name ∈ ctx.chain ∧ e = .cyclicReference (ctx.chain ++ [name]) := by
  rw [enter] at h
  split at h
  · cases h
    exact .inl ⟨‹_›, rfl⟩
  · split at h
    · cases h
      exact .inr ⟨by omega, ‹_›, rfl⟩
    · cases h

section Limits

variable (hlimit : c.maxDepth ≤ d.maxDepth) (hchain : d.chain = c.chain)
  (hdepth : d.depth = c.depth)

include hlimit hchain hdepth

/-- A higher limit does not keep a constant from being entered. -/
lemma enter_of_le (h : c.enter name = .ok ctx) : d.enter name = .ok (d.entered name) := by
  obtain ⟨hlt, hname, -⟩ := eq_of_enter h
  apply enter_of_lt
  · rw [hdepth]
    exact Nat.lt_of_lt_of_le hlt hlimit
  · rwa [hchain]

/-- A higher limit helps only where the depth was exceeded. -/
lemma enter_error_of_le (h : c.enter name = .error e) :
    c.maxDepth ≤ c.depth ∧ e = .depthExceeded ∨ d.enter name = .error e := by
  obtain hexceeded | ⟨hlt, hname, rfl⟩ := error_of_enter h
  · exact .inl hexceeded
  · rw [← hchain] at hname ⊢
    refine .inr (enter_of_cycle ?_ hname)
    rw [hdepth]
    exact Nat.lt_of_lt_of_le hlt hlimit

end Limits

end Context

namespace Eval

variable {α β : Type}

/-- Wherever an evaluation ends, it ends in a context related to the one it began in. -/
def Within (R : Context → Context → Prop) (x : Eval α) : Prop :=
  ∀ ctx ctx', (x ctx).context? = some ctx' → R ctx ctx'

/-- The context behind a value is related to the one before. -/
lemma Within.of_value {R : Context → Context → Prop} {x : Eval α} {ctx ctx' a} (h : Within R x)
    (hx : x ctx = .value a ctx') : R ctx ctx' :=
  h ctx ctx' (by rw [hx]; rfl)

/-- The context behind an error is related to the one before. -/
lemma Within.of_error {R : Context → Context → Prop} {x : Eval α} {ctx ctx' e} (h : Within R x)
    (hx : x ctx = .error e ctx') : R ctx ctx' :=
  h ctx ctx' (by rw [hx]; rfl)

/-- It is enough to look at the contexts behind values and behind errors. -/
lemma Within.intro {R : Context → Context → Prop} {x : Eval α}
    (hvalue : ∀ ctx a c, x ctx = .value a c → R ctx c)
    (herror : ∀ ctx e c, x ctx = .error e c → R ctx c) : Within R x := by
  intro ctx ctx' h
  cases hx : x ctx with
  | value a c =>
    rw [hx] at h
    cases h
    exact hvalue ctx a _ hx
  | error e c =>
    rw [hx] at h
    cases h
    exact herror ctx e _ hx
  | outOfSteps =>
    rw [hx] at h
    cases h

/-- With no steps left, there is no context behind to be related. -/
lemma Within.exhausted (R : Context → Context → Prop) : Within R (exhausted : Eval α) :=
  fun _ _ h => nomatch h

/-- Renaming the errors of an evaluation moves no context. -/
lemma Within.mapError {R : Context → Context → Prop} {x : Eval α} (h : Within R x)
    (f : EvalError → EvalError) : Within R (mapError f x) := by
  intro ctx ctx' hc
  rw [Eval.mapError] at hc
  cases hx : x ctx with
  | value a c =>
    rw [hx] at hc
    cases hc
    exact h.of_value hx
  | error e c =>
    rw [hx] at hc
    cases hc
    exact h.of_error hx
  | outOfSteps =>
    rw [hx] at hc
    cases hc

/-- The relations between contexts that hold of every part of an evaluation if they hold of the
resolution of constants. -/
structure IsFrame (R : Context → Context → Prop) : Prop where
  refl : ∀ ctx, R ctx ctx
  trans : ∀ {a b c}, R a b → R b c → R a c
  separators : ∀ ctx k, R ctx { ctx with separators := k }

section Relations

variable {R : Context → Context → Prop} (hR : IsFrame R)

include hR

/-- A value at once leaves the context as it is. -/
lemma Within.pure (a : α) : Within R (pure a) := by
  intro ctx ctx' h
  cases h
  exact hR.refl ctx

/-- An error at once leaves the context as it is. -/
lemma Within.fail (e : EvalError) : Within R (fail e : Eval α) := by
  intro ctx ctx' h
  cases h
  exact hR.refl ctx

/-- A sequence moves the context as its parts do, one after the other. -/
lemma Within.bind {x : Eval α} {f : α → Eval β} (hx : Within R x) (hf : ∀ a, Within R (f a)) :
    Within R (x >>= f) := by
  intro ctx ctx' h
  rw [bind_apply] at h
  cases hc : x ctx with
  | value a c =>
    rw [hc] at h
    exact hR.trans (hx.of_value hc) (hf a c ctx' h)
  | error e c =>
    rw [hc] at h
    cases h
    exact hx.of_error hc
  | outOfSteps =>
    rw [hc] at h
    cases h

/-- The stacks touch the context in its counter of separators at most. -/
lemma Within.onStacks (f : Stacks → Except EvalError Unit × Stacks) (s : Stacks) :
    Within R (onStacks f s) := by
  intro ctx ctx' h
  rw [Eval.onStacks] at h
  cases hf : f { s with operands := { s.operands with separators := ctx.separators } } with
  | mk x s' =>
    rw [hf] at h
    cases x with
    | ok _ =>
      cases h
      exact hR.separators ctx _
    | error e =>
      cases h
      exact hR.separators ctx _

section Resolvers

variable {resolve : Text → Eval Text} (hr : ∀ t, Within R (resolve t))

include hr

/-- A token moves the context no further than the resolution of its references. -/
lemma Within.token (s : Stacks) (t : Text) : Within R (token resolve s t) := by
  intro ctx ctx' h
  rw [token_apply] at h
  cases hop : ctx.registry.lookup? t with
  | some op =>
    rw [hop] at h
    exact Within.onStacks hR _ s ctx ctx' h
  | none =>
    rw [hop] at h
    exact Within.bind hR (hr t) (fun _ => .pure hR _) ctx ctx' h

/-- A row of tokens moves the context no further than the resolution of their references. -/
lemma Within.tokens (s : Stacks) (ts : List Text) : Within R (tokens resolve s ts) := by
  induction ts generalizing s with
  | nil => exact .pure hR s
  | cons t ts ih => exact .bind hR (.token hR hr s t) ih

/-- An expression moves the context no further than the resolution of its references. -/
lemma Within.expression (ts : List Text) : Within R (expression resolve ts) := by
  apply Within.bind hR (.tokens hR hr .empty ts)
  intro s
  apply Within.bind hR (.onStacks hR _ s)
  intro s
  cases s.operands.values with
  | nil => exact .fail hR _
  | cons v _ => exact .pure hR _

/-- A span moves the context no further than the resolution of its references. -/
lemma Within.span (body : Text) : Within R (span resolve body) :=
  .mapError (.expression hR hr _) _

end Resolvers

/-- Resolving a constant keeps a relation if it is kept wherever the value of a constant that was
entered is resolved: when the constant takes in the result, and when it is left with an error. -/
lemma Within.constant {resolve : Text → Eval Text} {name : Text}
    (hvalue : ∀ ctx value v c, ctx.table.get? name = some value → name ∉ ctx.chain →
      resolve value (ctx.entered name) = .value v c → R ctx (c.leave.define name v))
    (herror : ∀ ctx value e c, ctx.table.get? name = some value → name ∉ ctx.chain →
      resolve value (ctx.entered name) = .error e c → R ctx c.leave) :
    Within R (constant resolve name) := by
  apply Within.intro
  · intro ctx v c h
    obtain ⟨value, inner, c', hget, henter, hresolve, rfl⟩ := value_of_constant h
    obtain ⟨-, hchain, rfl⟩ := Context.eq_of_enter henter
    exact hvalue ctx value v c' hget hchain hresolve
  · intro ctx e c h
    obtain ⟨-, rfl⟩ | ⟨value, inner, c', hget, henter, hresolve, rfl⟩ := error_of_constant h
    · exact hR.refl c
    · obtain ⟨-, hchain, rfl⟩ := Context.eq_of_enter henter
      exact herror ctx value e c' hget hchain hresolve

/-- A relation that the resolution of constants keeps is kept by evaluations of any length. -/
lemma text_within
    (resolving : ∀ n name, (∀ t, Within R (text n t)) → Within R (constant (text n) name))
    (n : Nat) : (∀ t, Within R (text n t)) ∧ ∀ t, Within R (references n t) := by
  induction n with
  | zero =>
    refine ⟨fun t => ?_, fun t => ?_⟩
    · rw [text]
      exact .exhausted R
    · rw [references]
      exact .exhausted R
  | succ n ih =>
    obtain ⟨iht, ihr⟩ := ih
    refine ⟨fun t => ?_, fun t => ?_⟩
    · rw [text]
      cases Span.find? t with
      | none => exact ihr t
      | some cut => exact .bind hR (.span hR iht _) fun _ => iht _
    · rw [references]
      cases Reference.find? t with
      | none => exact .pure hR t
      | some cut => exact .bind hR (resolving _ _ iht) fun _ => ihr _

end Relations

end Eval

/-- The contexts agree in what is set before an evaluation begins and in the constants that are
being resolved. -/
structure Context.Keeps (ctx ctx' : Context) : Prop where
  registry : ctx'.registry = ctx.registry
  maxDepth : ctx'.maxDepth = ctx.maxDepth
  chain : ctx'.chain = ctx.chain
  depth : ctx'.depth = ctx.depth

namespace Context

/-- A context agrees with itself. -/
lemma Keeps.refl (ctx : Context) : Keeps ctx ctx :=
  ⟨rfl, rfl, rfl, rfl⟩

/-- What is kept twice in a row is kept. -/
lemma Keeps.trans {a b c : Context} (hab : Keeps a b) (hbc : Keeps b c) : Keeps a c where
  registry := hbc.registry.trans hab.registry
  maxDepth := hbc.maxDepth.trans hab.maxDepth
  chain := hbc.chain.trans hab.chain
  depth := hbc.depth.trans hab.depth

/-- What is entered last is left first. -/
lemma leave_entered (ctx : Context) (name : Text) : (ctx.entered name).leave = ctx := by
  rw [leave, entered, List.dropLast_concat, Nat.add_sub_cancel]

/-- A constant that was entered is left in the context in which it was entered, up to what the
evaluation of its value changes. -/
lemma Keeps.leave {ctx c : Context} {name : Text} (h : Keeps (ctx.entered name) c) :
    Keeps ctx c.leave where
  registry := h.registry
  maxDepth := h.maxDepth
  chain := by rw [Context.leave, h.chain, entered, List.dropLast_concat]
  depth := by rw [Context.leave, h.depth, entered, Nat.add_sub_cancel]

/-- Defining a constant changes the table only. -/
lemma Keeps.define {ctx c : Context} (h : Keeps ctx c) (name value : Text) :
    Keeps ctx (c.define name value) :=
  ⟨h.registry, h.maxDepth, h.chain, h.depth⟩

/-- What evaluations keep is carried by all of their parts. -/
lemma keeps_isFrame : Eval.IsFrame Keeps :=
  ⟨.refl, .trans, fun _ _ => ⟨rfl, rfl, rfl, rfl⟩⟩

end Context

namespace Eval

open Context (Keeps keeps_isFrame)

/-- A constant that was entered is left again, whatever its value comes to. -/
lemma constant_keeps {resolve : Text → Eval Text} (hr : ∀ t, Within Keeps (resolve t))
    (name : Text) : Within Keeps (constant resolve name) := by
  apply Within.constant keeps_isFrame
  · intro ctx value v c _ _ h
    exact ((hr value).of_value h).leave.define name v
  · intro ctx value e c _ _ h
    exact ((hr value).of_error h).leave

/-- A constant whose value is resolved without a trace leaves no trace but its own entry. -/
lemma constant_of_resolved {resolve : Text → Eval Text} {name value v : Text} {ctx : Context}
    (hvalue : ctx.table.get? name = some value) (hdepth : ctx.depth < ctx.maxDepth)
    (hchain : name ∉ ctx.chain)
    (hresolve : resolve value (ctx.entered name) = .value v (ctx.entered name)) :
    constant resolve name ctx = .value v (ctx.define name v) := by
  rw [constant_of_entered hvalue (Context.enter_of_lt hdepth hchain), hresolve]
  exact congrArg (fun ctx => Outcome.value v (Context.define ctx name v))
    (Context.leave_entered ctx name)

/-- Registry, depth limit, chain and depth are the same again after the evaluation of a text. -/
lemma text_keeps (n : Nat) (t : Text) : Within Keeps (text n t) :=
  (text_within keeps_isFrame (fun _ name hr => constant_keeps hr name) n).1 t

end Eval

end InlineExpr
