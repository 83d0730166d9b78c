import InlineExpr.Proofs.Lockstep

/-!
# What an evaluation runs short of

An evaluation may run short of constants or of depth, and says so in its error. Where it does not,
more of them change nothing: on a table with further constants a text has the same result or error,
and the further constants are left alone (`Engine.unread_constants_immaterial`); with a higher limit
it has the same result or error and leaves the same table (`Engine.spare_depth_immaterial`).
-/

namespace InlineExpr

/-- The constants of the other table have the same values in this one. -/
def Table.Includes (table' table : Table) : Prop :=
  ∀ name value, table.get? name = some value → table'.get? name = some value

namespace EvalError

/-- The error for want of a constant. -/
def IsUnknownConstant : EvalError → Prop
  | unknownConstant _ _ => True
  | _ => False

/-- The want of a constant is not renamed by a span. -/
lemma isUnknownConstant_blameSpan {e : EvalError} (h : e.IsUnknownConstant) (b : Text) :
    (Eval.blameSpan b e).IsUnknownConstant := by
  cases e with
  | unknownConstant _ _ => trivial
  | _ => exact h.elim

end EvalError

namespace Context

variable {table table' : Table} {c d : Context} {name value : Text}

/-- Two evaluations, begun on `table` and on `table'`, have come to the same point: the constants of
`table` are the same to both, and the second one has those that `table` lacks as `table'` has
them. -/
structure Shares (table table' : Table) (c d : Context) : Prop where
  keeps : c.Keeps d
  separators : d.separators = c.separators
  known : ∀ name, table.get? name ≠ none → d.table.get? name = c.table.get? name
  lacking : ∀ name, table.get? name = none →
    c.table.get? name = none ∧ d.table.get? name = table'.get? name

namespace Shares

/-- The stacks do the same in both contexts. -/
lemma isCoupling : Eval.IsCoupling (Shares table table') fun _ => True where
  registry h := h.keeps.registry
  separators h := ⟨h.separators, trivial⟩
  recount h _ := ⟨⟨h.keeps.registry, h.keeps.maxDepth, h.keeps.chain, h.keeps.depth⟩, rfl,
    h.known, h.lacking⟩

/-- A constant that the first evaluation finds is one of the first table. -/
lemma get?_ne_none (h : Shares table table' c d) (hvalue : c.table.get? name = some value) :
    table.get? name ≠ none := by
  intro hnone
  rw [(h.lacking name hnone).1] at hvalue
  cases hvalue

/-- A constant of the first table takes in a value on both sides. -/
lemma define (h : Shares table table' c d) (hname : table.get? name ≠ none) (v : Text) :
    Shares table table' (c.define name v) (d.define name v) where
  keeps := ⟨h.keeps.registry, h.keeps.maxDepth, h.keeps.chain, h.keeps.depth⟩
  separators := h.separators
  known other hother := by
    simp only [Context.define, Table.get?_insert, h.known other hother]
  lacking other hother := by
    have hne : name ≠ other := by
      rintro rfl
      exact hname hother
    simpa [Context.define, hne] using h.lacking other hother

/-- A constant is entered on both sides. -/
lemma entered (h : Shares table table' c d) (name : Text) :
    Shares table table' (c.entered name) (d.entered name) where
  keeps := ⟨h.keeps.registry, h.keeps.maxDepth, congrArg (· ++ [name]) h.keeps.chain,
    congrArg (· + 1) h.keeps.depth⟩
  separators := h.separators
  known := h.known
  lacking := h.lacking

/-- A constant is left on both sides. -/
lemma leave (h : Shares table table' c d) : Shares table table' c.leave d.leave where
  keeps := ⟨h.keeps.registry, h.keeps.maxDepth, congrArg List.dropLast h.keeps.chain,
    congrArg (· - 1) h.keeps.depth⟩
  separators := h.separators
  known := h.known
  lacking := h.lacking

/-- What happens on the table with fewer constants happens on the other one as well, unless a
constant is missing. -/
lemma isParallel : Eval.IsParallel (Shares table table') EvalError.IsUnknownConstant where
  coupling := isCoupling
  blame {b e} h := e.isUnknownConstant_blameSpan h b
  missing _ _ := .inl trivial
  found h hvalue := by
    have hname := h.get?_ne_none hvalue
    exact ⟨(h.known _ hname).trans hvalue, fun v h' => h'.define hname v⟩
  refused {c d name e} h henter := by
    obtain ⟨hexceeded, rfl⟩ | henter' :=
      enter_error_of_le (Nat.le_of_eq h.keeps.maxDepth.symm) h.keeps.chain h.keeps.depth henter
    -- the limits are the same, so the depth is exceeded for both
    · rw [← h.keeps.maxDepth, ← h.keeps.depth] at hexceeded
      exact .inr (enter_of_exceeded hexceeded name)
    · exact .inr henter'
  entered h henter := by
    have henter' := enter_of_le (Nat.le_of_eq h.keeps.maxDepth.symm) h.keeps.chain h.keeps.depth
      henter
    obtain ⟨-, -, rfl⟩ := eq_of_enter henter
    exact ⟨_, henter', h.entered _⟩
  leave := leave

end Shares

/-- The second context differs from the first one in nothing but a limit that is no lower. -/
structure Deeper (c d : Context) : Prop where
  table : d.table = c.table
  registry : d.registry = c.registry
  maxDepth : c.maxDepth ≤ d.maxDepth
  chain : d.chain = c.chain
  depth : d.depth = c.depth
  separators : d.separators = c.separators

namespace Deeper

/-- The stacks do the same under either limit. -/
lemma isCoupling : Eval.IsCoupling Deeper fun _ => True where
  registry h := h.registry
  separators h := ⟨h.separators, trivial⟩
  recount h _ := ⟨h.table, h.registry, h.maxDepth, h.chain, h.depth, rfl⟩

/-- What happens below a limit happens below a higher one as well, unless the limit is exceeded. -/
lemma isParallel : Eval.IsParallel Deeper (· = .depthExceeded) where
  coupling := isCoupling
  blame {b e} := by
    rintro rfl
    rfl
  missing h hvalue := .inr (by simp [h.table, hvalue])
  found h hvalue := by
    refine ⟨by rwa [h.table], fun v h' => ?_⟩
    exact ⟨by simp [define, h'.table], h'.registry, h'.maxDepth, h'.chain, h'.depth,
      h'.separators⟩
  refused h henter :=
    (enter_error_of_le h.maxDepth h.chain h.depth henter).imp_left And.right
  entered {c d name inner} h henter := by
    have henter' := enter_of_le h.maxDepth h.chain h.depth henter
    obtain ⟨-, -, rfl⟩ := eq_of_enter henter
    exact ⟨d.entered name, henter', h.table, h.registry, h.maxDepth, congrArg (· ++ [name]) h.chain,
      congrArg (· + 1) h.depth, h.separators⟩
  leave h := ⟨h.table, h.registry, h.maxDepth, congrArg List.dropLast h.chain,
    congrArg (· - 1) h.depth, h.separators⟩

end Deeper

end Context

namespace Engine

open Context

variable {engine : Engine} {t : Text} {table table' : Table} {o : Outcome Text}

/-- A text that does not end for want of a constant has the same result or error on a table with
further constants. Afterwards the tables agree in the constants of the first one, and the others are
as they were. -/
theorem unread_constants_immaterial (htable : table'.Includes table)
    (h : engine.Ends t table o) (hknown : ∀ e c, o = .error e c → ¬ e.IsUnknownConstant) :
    ∃ o' c c', engine.Ends t table' o' ∧ o'.result? = o.result? ∧ o.context? = some c ∧
      o'.context? = some c' ∧
      (∀ name, table.get? name ≠ none → c'.table.get? name = c.table.get? name) ∧
      ∀ name, table.get? name = none → c'.table.get? name = table'.get? name := by
  have hstart : Shares table table' (engine.start table) (engine.start table') := by
    refine ⟨⟨rfl, rfl, rfl, rfl⟩, rfl, fun name hname => ?_, fun name hname => ⟨hname, rfl⟩⟩
    obtain ⟨value, hvalue⟩ := Option.ne_none_iff_exists'.1 hname
    exact (htable name value hvalue).trans hvalue.symm
  obtain ⟨o', c, c', hends, hresult, hc, hc', hshares⟩ := h.inStep Shares.isParallel hstart hknown
  exact ⟨o', c, c', hends, hresult, hc, hc', hshares.known,
    fun name hname => (hshares.lacking name hname).2⟩

/-- The name of `B` comes together only when `A` is resolved. The second table does not tell its
names and has a constant more, which refers to itself. -/
theorem unread_constants_immaterial_joined :
    let t := "$CONSTANTS.A$ANTS.B$".toList
    let table := (((Table.empty true).insert ['A'] "$CONST$CONSTANTS.C$".toList).insert ['B']
      (Span.wrap "1 + 1".toList)).insert ['C'] []
    let table' := ((((Table.empty false).insert ['A'] "$CONST$CONSTANTS.C$".toList).insert ['B']
      (Span.wrap "1 + 1".toList)).insert ['C'] []).insert ['D'] "$CONSTANTS.D$".toList
    let c := Engine.start {} ((table.insert ['A'] "$CONST".toList).insert ['B'] ['2'])
    table'.Includes table ∧ Engine.Ends {} t table (.value ['2'] c) ∧
      ∃ o' c', Engine.Ends {} t table' o' ∧ o'.result? = some (.ok ['2']) ∧
        o'.context? = some c' ∧ c'.table.get? ['A'] = some "$CONST".toList ∧
        c'.table.get? ['D'] = some "$CONSTANTS.D$".toList := by
  intro t table table' c
  have hD : table.get? ['D'] = none := by decide +kernel
  have htable : table'.Includes table := by
    intro name value hvalue
    have hne : ['D'] ≠ name := by
      rintro rfl
      cases hD.symm.trans hvalue
    simp only [table, table', Table.get?_insert, if_neg hne] at hvalue ⊢
    exact hvalue
  have hends : Engine.Ends {} t table (.value ['2'] c) := ⟨nofun, 8, by decide +kernel⟩
  obtain ⟨o', c₁, c', hends', hresult, hc, hc', hknown, hothers⟩ :=
    unread_constants_immaterial htable hends nofun
  cases hc
  have hA : table.get? ['A'] ≠ none := by decide +kernel
  refine ⟨htable, hends, o', c', hends', hresult, hc', (hknown _ hA).trans ?_,
    (hothers _ hD).trans ?_⟩
  · decide +kernel
  · decide +kernel

/-- A text that does not end for want of depth has the same result or error with a higher limit, and
leaves the same table. -/
theorem spare_depth_immaterial {limit : Nat} (hlimit : engine.maxDepth ≤ limit)
    (h : engine.Ends t table o) (hdepth : ∀ c, o ≠ .error .depthExceeded c) :
    ∃ o' c c', Engine.Ends { engine with maxDepth := limit } t table o' ∧
      o'.result? = o.result? ∧ o.context? = some c ∧ o'.context? = some c' ∧
      c'.table = c.table := by
  have hstart : Deeper (engine.start table)
      (Engine.start { engine with maxDepth := limit } table) :=
    ⟨rfl, rfl, hlimit, rfl, rfl, rfl⟩
  have hexcused : ∀ e c, o = .error e c → ¬ e = .depthExceeded := by
    rintro _ c ho rfl
    exact hdepth c ho
  obtain ⟨o', c, c', hends, hresult, hc, hc', hdeeper⟩ :=
    h.inStep Deeper.isParallel hstart hexcused
  exact ⟨o', c, c', hends, hresult, hc, hc', hdeeper.table⟩

/-- A constant that refers to another one and then to itself: the cycle is noticed below either
limit, when the other constant has taken in its value. -/
theorem spare_depth_immaterial_cycle :
    let t := Reference.wrap ['A']
    let table := ((Table.empty true).insert ['A'] "$CONSTANTS.B$$CONSTANTS.A$".toList).insert ['B']
      (Span.wrap "1 + 1".toList)
    let e := EvalError.cyclicReference [['A'], ['A']]
    let c := Engine.start { maxDepth := 2 } (table.insert ['B'] ['2'])
    2 ≤ 64 ∧ Engine.Ends { maxDepth := 2 } t table (.error e c) ∧
      ∃ o' c', Engine.Ends { maxDepth := 64 } t table o' ∧ o'.result? = some (.error e) ∧
        o'.context? = some c' ∧ c'.table = table.insert ['B'] ['2'] := by
  intro t table e c
  have hlimit : 2 ≤ 64 := by decide
  have hends : Engine.Ends { maxDepth := 2 } t table (.error e c) := ⟨nofun, 8, by decide +kernel⟩
  obtain ⟨o', c₁, c', hends', hresult, hc, hc', htable⟩ :=
    spare_depth_immaterial hlimit hends (by simp [e])
  cases hc
  exact ⟨hlimit, hends, o', c', hends', hresult, hc', htable⟩

end Engine

end InlineExpr
