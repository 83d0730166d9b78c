import InlineExpr.Proofs.Invariants

/-!
# Evaluations that follow one another

An evaluation follows another one along a relation between contexts (`Eval.Follows`) if from related
contexts it comes to the same result, in related contexts again, wherever the other one has a
result; whether it comes to the same errors is a parameter. Expressions follow one another if the
resolution of their operands does, as long as the relation disregards what the stacks do to the
count of separators (`Follows.expression`).
-/

namespace InlineExpr

/-- The second outcome has the result of the first one, in a related context; if errors are to be
followed, it has the error of the first one. The result has the property. -/
def Outcome.Followed {α : Type} (R : Context → Context → Prop) (E : Prop) (Q : α → Prop) :
    Outcome α → Outcome α → Prop
  | .value a c, o => ∃ d, o = .value a d ∧ R c d ∧ Q a
  | .error e _, o => E → ∃ d, o = .error e d
  | .outOfSteps, _ => True

namespace Eval

variable {α β : Type} {R : Context → Context → Prop} {E : Prop} {Q : α → Prop}

/-- From related contexts `y` ends as `x` does, where it is to follow. -/
def Follows (R : Context → Context → Prop) (E : Prop) (Q : α → Prop) (x y : Eval α) : Prop :=
  ∀ c d, R c d → (x c).Followed R E Q (y d)

/-- A value at once follows itself. -/
lemma Follows.pure {a : α} (h : Q a) : Follows R E Q (pure a) (pure a) :=
  fun _ d hR => ⟨d, rfl, hR, h⟩

/-- An error at once follows itself. -/
lemma Follows.fail (e : EvalError) : Follows R E Q (fail e) (fail e) :=
  fun _ d _ _ => ⟨d, rfl⟩

/-- Anything follows an evaluation with no steps left. -/
lemma Follows.exhausted (y : Eval α) : Follows R E Q exhausted y :=
  fun _ _ _ => trivial

/-- What the first evaluation ensures of its result holds of the one that follows. -/
lemma Follows.ensuring {I : Table → Prop} {Q' : α → Prop} {x y : Eval α} (h : Follows R E Q x y)
    (hx : Ensures I x Q') (hI : ∀ c d, R c d → I c.table) : Follows R E Q' x y := by
  intro c d hR
  have hfollowed := h c d hR
  have hmeets := hx c (hI c d hR)
  cases hc : x c with
  | value a c' =>
    rw [hc] at hfollowed hmeets
    obtain ⟨d', hd, hR', -⟩ := hfollowed
    exact ⟨d', hd, hR', hmeets.2⟩
  | error e c' =>
    rw [hc] at hfollowed
    exact hfollowed
  | outOfSteps => trivial

/-- A sequence follows another one part by part. -/
lemma Follows.bind {S : β → Prop} {x y : Eval α} {f g : α → Eval β} (hx : Follows R E Q x y)
    (hf : ∀ a, Q a → Follows R E S (f a) (g a)) : Follows R E S (x >>= f) (y >>= g) := by
  intro c d hR
  have h := hx c d hR
  rw [bind_apply]
  cases hc : x c with
  | value a c' =>
    rw [hc] at h
    obtain ⟨d', hd, hR', ha⟩ := h
    rw [bind_of_value hd]
    exact hf a ha c' d' hR'
  | error e c' =>
    rw [hc] at h
    intro hE
    obtain ⟨d', hd⟩ := h hE
    exact ⟨d', bind_of_error hd g⟩
  | outOfSteps => trivial

/-- Evaluations follow one another whatever their errors are renamed to. -/
lemma Follows.mapError {x y : Eval α} (h : Follows R E Q x y) (f : EvalError → EvalError) :
    Follows R E Q (mapError f x) (mapError f y) := by
  intro c d hR
  have hx := h c d hR
  rw [Eval.mapError]
  cases hc : x c with
  | value a c' =>
    rw [hc] at hx
    obtain ⟨d', hd, hR', ha⟩ := hx
    exact ⟨d', by rw [Eval.mapError, hd], hR', ha⟩
  | error e c' =>
    rw [hc] at hx
    intro hE
    obtain ⟨d', hd⟩ := hx hE
    exact ⟨d', by rw [Eval.mapError, hd]⟩
  | outOfSteps => trivial

/-- The relations between contexts that what happens on the stacks goes along with. Related contexts
have the same operators and the same count of separators, which is one of certain counts, and they
stay related whichever of these counts they take on. -/
structure IsCoupling (R : Context → Context → Prop) (K : Nat → Prop) : Prop where
  registry : ∀ {c d}, R c d → d.registry = c.registry
  separators : ∀ {c d}, R c d → d.separators = c.separators ∧ K c.separators
  recount : ∀ {c d k}, R c d → K k → R { c with separators := k } { d with separators := k }

section Expressions

variable {K : Nat → Prop} {A : Operator → Prop} {r r' : Text → Eval Text}
  (hR : IsCoupling R K)
  (hA : ∀ (op : Operator) (o : Operands), A op → K o.separators → K (op.perform o).2.separators)

include hR

/-- Work on the stacks follows itself if it keeps the count among those that are allowed. -/
lemma Follows.onStacks {f : Stacks → Except EvalError Unit × Stacks} {s : Stacks}
    {Q : Stacks → Prop} (hf : ∀ n, K n →
      K (f { s with operands := { s.operands with separators := n } }).2.operands.separators ∧
      Q (f { s with operands := { s.operands with separators := n } }).2) :
    Follows R E Q (onStacks f s) (onStacks f s) := by
  intro c d h
  obtain ⟨hsep, hK⟩ := hR.separators h
  obtain ⟨hcount, hQ⟩ := hf c.separators hK
  rw [Eval.onStacks, Eval.onStacks, hsep]
  cases hx : f { s with operands := { s.operands with separators := c.separators } } with
  | mk x s' =>
    rw [hx] at hcount hQ
    cases x with
    | ok _ => exact ⟨_, rfl, hR.recount h hcount, hQ⟩
    | error e => exact fun _ => ⟨_, rfl⟩

include hA

/-- A token follows if the resolution of its references does. -/
lemma Follows.token {s : Stacks} {t : Text} (hs : Stacks.Only A s.operators)
    (ht : ∀ op, Operator.ofToken? t = some op → A op)
    (hr : Follows R E (fun _ => True) (r t) (r' t)) :
    Follows R E (fun s => Stacks.Only A s.operators) (token r s t) (token r' s t) := by
  intro c d h
  rw [token_apply, token_apply, hR.registry h]
  cases hop : c.registry.lookup? t with
  | some op =>
    have hA' := ht op (Option.filter_eq_some_iff.1 hop).1
    apply Follows.onStacks hR _ c d h
    intro n hn
    exact ⟨Stacks.accept_keeps hA op hs hn, Stacks.forall_mem_accept hs fun _ => hA'⟩
  | none =>
    have hpush (v : Text) : Follows R E (fun s => Stacks.Only A s.operators)
        (Pure.pure (s.push (.text v))) (Pure.pure (s.push (.text v))) := .pure hs
    exact Follows.bind hr (fun v _ => hpush v) c d h

/-- A row of tokens follows if the resolution of their references does. -/
lemma Follows.tokens {s : Stacks} {ts : List Text} (hs : Stacks.Only A s.operators)
    (hts : ∀ t ∈ ts, ∀ op, Operator.ofToken? t = some op → A op)
    (hr : ∀ t ∈ ts, Follows R E (fun _ => True) (r t) (r' t)) :
    Follows R E (fun s => Stacks.Only A s.operators) (tokens r s ts) (tokens r' s ts) := by
  induction ts generalizing s with
  | nil => exact .pure hs
  | cons t ts ih =>
    apply Follows.bind (.token hR hA hs (hts t (.head _)) (hr t (.head _)))
    intro s' hs'
    exact ih hs' (fun t ht => hts t (.tail _ ht)) (fun t ht => hr t (.tail _ ht))

/-- Expressions follow one another if the resolution of their operands does. -/
lemma Follows.expression {ts : List Text}
    (hts : ∀ t ∈ ts, ∀ op, Operator.ofToken? t = some op → A op)
    (hr : ∀ t ∈ ts, Follows R E (fun _ => True) (r t) (r' t)) :
    Follows R E (fun _ => True) (expression r ts) (expression r' ts) := by
  have hempty : Stacks.Only A Stacks.empty.operators := fun _ h => absurd h List.not_mem_nil
  apply Follows.bind (.tokens hR hA hempty hts hr)
  intro s hs
  have hdrain : Follows R E (fun _ => True) (Eval.onStacks Stacks.drain s)
      (Eval.onStacks Stacks.drain s) :=
    .onStacks hR fun n hn => ⟨Stacks.drain_keeps hA hs hn, trivial⟩
  apply Follows.bind hdrain
  intro s _
  cases s.operands.values with
  | nil => exact .fail _
  | cons v _ => exact .pure trivial

/-- A span follows if the resolution of its references does. -/
lemma Follows.span {body : Text}
    (hbody : ∀ t ∈ tokenize body, ∀ op, Operator.ofToken? t = some op → A op)
    (hr : ∀ t ∈ tokenize body, Follows R E (fun _ => True) (r t) (r' t)) :
    Follows R E (fun _ => True) (span r body) (span r' body) :=
  .mapError (.expression hR hA hbody hr) _

end Expressions

end Eval

end InlineExpr
