import InlineExpr.Proofs.Simulation

/-!
# Evaluations in step

Two evaluations go in step along a relation between contexts (`Eval.InStep`) if from related
contexts the second one has the result or the error of the first one, in related contexts again.
Only where the first one ends with an error that is excused, the second one may end as it likes.

Where constants are found, entered and taken in alike (`Eval.IsParallel`), the evaluations of any
text go in step (`text_inStep`): a text is evaluated by the same turns in both contexts, whatever
the texts are that come together on the way.
-/

namespace InlineExpr

/-- The second outcome has the result or the error of the first one, in a related context, unless
the first one is an error that is excused. -/
def Outcome.Matched {α : Type} (R : Context → Context → Prop) (X : EvalError → Prop) :
    Outcome α → Outcome α → Prop
  | .value a c, o => ∃ d, o = .value a d ∧ R c d
  | .error e c, o => X e ∨ ∃ d, o = .error e d ∧ R c d
  | .outOfSteps, _ => True

namespace Eval

variable {α β : Type} {R : Context → Context → Prop} {X : EvalError → Prop}

/-- From related contexts `y` ends as `x` does, unless `x` ends with an error that is excused. -/
def InStep (R : Context → Context → Prop) (X : EvalError → Prop) (x y : Eval α) : Prop :=
  ∀ c d, R c d → (x c).Matched R X (y d)

/-- Values at once are in step. -/
lemma InStep.pure (a : α) : InStep R X (pure a) (pure a) :=
  fun _ d h => ⟨d, rfl, h⟩

/-- An error at once is in step with itself. -/
lemma InStep.fail (e : EvalError) : InStep R X (fail e : Eval α) (fail e) :=
  fun _ d h => .inr ⟨d, rfl, h⟩

/-- With no steps left anything is in step. -/
lemma InStep.exhausted (y : Eval α) : InStep R X exhausted y :=
  fun _ _ _ => trivial

/-- Sequences go in step if both of their parts do. -/
lemma InStep.bind {x y : Eval α} {f g : α → Eval β} (hx : InStep R X x y)
    (hf : ∀ a, InStep R X (f a) (g a)) : InStep R X (x >>= f) (y >>= g) := by
  intro c d h
  have hcd := hx c d h
  rw [bind_apply]
  cases hc : x c with
  | value a c' =>
    rw [hc] at hcd
    obtain ⟨d', hd, h'⟩ := hcd
    rw [bind_of_value hd]
    exact hf a c' d' h'
  | error e c' =>
    rw [hc] at hcd
    obtain hexcused | ⟨d', hd, h'⟩ := hcd
    · exact .inl hexcused
    · exact .inr ⟨d', bind_of_error hd g, h'⟩
  | outOfSteps => trivial

/-- Renamed errors stay in step if an excuse is not made up for by the new name. -/
lemma InStep.mapError {x y : Eval α} {f : EvalError → EvalError} (hf : ∀ e, X e → X (f e))
    (hx : InStep R X x y) : InStep R X (mapError f x) (mapError f y) := by
  intro c d h
  have hcd := hx c d h
  rw [Eval.mapError]
  cases hc : x c with
  | value a c' =>
    rw [hc] at hcd
    obtain ⟨d', hd, h'⟩ := hcd
    exact ⟨d', by rw [Eval.mapError, hd], h'⟩
  | error e c' =>
    rw [hc] at hcd
    obtain hexcused | ⟨d', hd, h'⟩ := hcd
    · exact .inl (hf e hexcused)
    · exact .inr ⟨d', by rw [Eval.mapError, hd], h'⟩
  | outOfSteps => trivial

section Expressions

variable {r r' : Text → Eval Text} (hR : IsCoupling R fun _ => True)

include hR

/-- Work on the stacks goes in step with itself. -/
lemma InStep.onStacks (f : Stacks → Except EvalError Unit × Stacks) (s : Stacks) :
    InStep R X (onStacks f s) (onStacks f s) := by
  intro c d h
  obtain ⟨hsep, -⟩ := hR.separators h
  rw [Eval.onStacks, Eval.onStacks, hsep]
  cases f { s with operands := { s.operands with separators := c.separators } } with
  | mk x s' =>
    have hleft := hR.recount (k := s'.operands.separators) h trivial
    cases x with
    | ok _ => exact ⟨_, rfl, hleft⟩
    | error e => exact .inr ⟨_, rfl, hleft⟩

variable (hr : ∀ t, InStep R X (r t) (r' t))

include hr

/-- A token goes in step if the resolution of its references does. -/
lemma InStep.token (s : Stacks) (t : Text) : InStep R X (token r s t) (token r' s t) := by
  intro c d h
  rw [token_apply, token_apply, hR.registry h]
  cases c.registry.lookup? t with
  | some op => exact InStep.onStacks hR _ s c d h
  | none => exact InStep.bind (hr t) (fun v => .pure _) c d h

/-- A row of tokens goes in step if the resolution of their references does. -/
lemma InStep.tokens (s : Stacks) (ts : List Text) :
    InStep R X (tokens r s ts) (tokens r' s ts) := by
  induction ts generalizing s with
  | nil => exact .pure s
  | cons t ts ih => exact .bind (.token hR hr s t) ih

/-- An expression goes in step if the resolution of its references does. -/
lemma InStep.expression (ts : List Text) : InStep R X (expression r ts) (expression r' ts) := by
  apply InStep.bind (.tokens hR hr .empty ts)
  intro s
  apply InStep.bind (.onStacks hR _ s)
  intro s
  cases s.operands.values with
  | nil => exact .fail _
  | cons v _ => exact .pure _

end Expressions

/-- The relations between contexts in which constants are found, entered and taken in alike, apart
from what is excused. -/
structure IsParallel (R : Context → Context → Prop) (X : EvalError → Prop) : Prop where
  coupling : IsCoupling R fun _ => True
  /-- To name an empty expression does not make up for an excuse. -/
  blame : ∀ {b e}, X e → X (blameSpan b e)
  missing : ∀ {c d name}, R c d → c.table.get? name = none →
    X (.unknownConstant name (Text.suggestions name c.table.names)) ∨
      d.table.get? name = none ∧ d.table.names = c.table.names
  found : ∀ {c d name value}, R c d → c.table.get? name = some value →
    d.table.get? name = some value ∧
      ∀ {c' d'} v, R c' d' → R (c'.define name v) (d'.define name v)
  refused : ∀ {c d name e}, R c d → c.enter name = .error e → X e ∨ d.enter name = .error e
  entered : ∀ {c d name inner}, R c d → c.enter name = .ok inner →
    ∃ inner', d.enter name = .ok inner' ∧ R inner inner'
  leave : ∀ {c d}, R c d → R c.leave d.leave

variable {r r' : Text → Eval Text}

/-- A constant is resolved in step if its value is. -/
lemma InStep.constant (hR : IsParallel R X) (hr : ∀ t, InStep R X (r t) (r' t)) (name : Text) :
    InStep R X (constant r name) (constant r' name) := by
  intro c d h
  cases hvalue : c.table.get? name with
  | none =>
    rw [constant_of_missing hvalue]
    obtain hexcused | ⟨hvalue', hnames⟩ := hR.missing h hvalue
    · exact .inl hexcused
    · rw [constant_of_missing hvalue', hnames]
      exact .inr ⟨d, rfl, h⟩
  | some value =>
    obtain ⟨hvalue', hdefine⟩ := hR.found h hvalue
    cases henter : c.enter name with
    | error e =>
      rw [constant_of_refused hvalue henter]
      obtain hexcused | henter' := hR.refused h henter
      · exact .inl hexcused
      · rw [constant_of_refused hvalue' henter']
        exact .inr ⟨d, rfl, h⟩
    | ok inner =>
      obtain ⟨inner', henter', hinner⟩ := hR.entered h henter
      have hresolve := hr value inner inner' hinner
      rw [constant_of_entered hvalue henter, constant_of_entered hvalue' henter']
      cases hc : r value inner with
      | value v c' =>
        rw [hc] at hresolve
        obtain ⟨d', hd, h'⟩ := hresolve
        rw [hd]
        exact ⟨_, rfl, hdefine v (hR.leave h')⟩
      | error e c' =>
        rw [hc] at hresolve
        obtain hexcused | ⟨d', hd, h'⟩ := hresolve
        · exact .inl hexcused
        · rw [hd]
          exact .inr ⟨_, rfl, hR.leave h'⟩
      | outOfSteps => trivial

/-- In parallel contexts every text is evaluated in step. -/
lemma text_inStep (hR : IsParallel R X) (n : Nat) :
    (∀ t, InStep R X (text n t) (text n t)) ∧
      ∀ t, InStep R X (references n t) (references n t) := by
  induction n with
  | zero =>
    refine ⟨fun t => ?_, fun t => ?_⟩
    · rw [text]
      exact .exhausted _
    · rw [references]
      exact .exhausted _
  | succ n ih =>
    obtain ⟨iht, ihr⟩ := ih
    refine ⟨fun t => ?_, fun t => ?_⟩
    · rw [text]
      cases Span.find? t with
      | none => exact ihr t
      | some cut =>
        have hspan : InStep R X (span (text n) cut.inner) (span (text n) cut.inner) :=
          .mapError (fun _ => hR.blame) (.expression hR.coupling iht _)
        exact .bind hspan fun _ => iht _
    · rw [references]
      cases Reference.find? t with
      | none => exact .pure t
      | some cut => exact .bind (.constant hR iht _) fun _ => ihr _

end Eval

namespace Engine

open Eval

variable {engine engine' : Engine} {t : Text} {table table' : Table} {o : Outcome Text}
  {R : Context → Context → Prop} {X : EvalError → Prop}

/-- From parallel contexts a text that ends without an excuse ends with the same result or error in
parallel contexts. -/
lemma Ends.inStep (hR : IsParallel R X) (hstart : R (engine.start table) (engine'.start table'))
    (h : engine.Ends t table o) (hexcused : ∀ e c, o = .error e c → ¬ X e) :
    ∃ o' c c', engine'.Ends t table' o' ∧ o'.result? = o.result? ∧ o.context? = some c ∧
      o'.context? = some c' ∧ R c c' := by
  obtain ⟨hne, n, hn⟩ := h
  have hmatched := (text_inStep hR n).1 t _ _ hstart
  dsimp only at hn
  rw [hn] at hmatched
  cases o with
  | value v c =>
    obtain ⟨c', hc', h'⟩ := hmatched
    exact ⟨.value v c', c, c', ⟨nofun, n, hc'⟩, rfl, rfl, rfl, h'⟩
  | error e c =>
    obtain hX | ⟨c', hc', h'⟩ := hmatched
    · exact absurd hX (hexcused e c rfl)
    · exact ⟨.error e c', c, c', ⟨nofun, n, hc'⟩, rfl, rfl, rfl, h'⟩
  | outOfSteps => exact absurd rfl hne

end Engine

end InlineExpr
