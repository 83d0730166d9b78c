import InlineExpr.Proofs.Errors
import Mathlib.Data.List.Nodup

/-!
# The chain of constants

The chain and the depth are kept apart, but whatever is done to a context, at the top of an
evaluation or nested in it, the depth is the length of the chain, no constant stands in the chain
twice, and the chain is no longer than the limit (`Context.Disciplined`). A cycle is noticed where a
constant of the chain is to be entered again, so the names that the error gives are those of the
chain there and the constant (`Context.IsCycle`).
-/

namespace InlineExpr

open Eval

namespace Context

/-- No constant is in the chain twice, and the depth is the length of the chain and does not exceed
the limit. -/
structure Disciplined (max : Nat) (ctx : Context) : Prop where
  nodup : ctx.chain.Nodup
  depth : ctx.depth = ctx.chain.length
  bound : ctx.depth ≤ max
  limit : ctx.maxDepth = max

/-- The names of a cycle that is noticed in the context or nested in it: all but the last are
different and the last is one of them, they begin with the chain, and they are not more than the
limit. -/
structure IsCycle (ctx : Context) (names : List Text) : Prop where
  closes : ∃ front last, names = front ++ [last] ∧ front.Nodup ∧ last ∈ front
  continues : ctx.chain <+: names
  bound : names.length ≤ ctx.maxDepth

/-- The second context is disciplined if the first one is, and its chain goes on from there. -/
def Nests (max : Nat) (ctx c : Context) : Prop :=
  ctx.Disciplined max → c.Disciplined max ∧ ctx.chain <+: c.chain

variable {max : Nat} {ctx c : Context} {name : Text} {names : List Text}

/-- A fresh context is disciplined. -/
lemma disciplined_fresh (table : Table) (registry : Registry) (max : Nat) :
    (fresh table registry max).Disciplined max :=
  ⟨List.nodup_nil, rfl, Nat.zero_le max, rfl⟩

/-- A context that agrees with a disciplined one is disciplined. -/
lemma Disciplined.of_keeps (hkeeps : ctx.Keeps c) (h : ctx.Disciplined max) :
    c.Disciplined max where
  nodup := by simpa [hkeeps.chain] using h.nodup
  depth := by simpa [hkeeps.depth, hkeeps.chain] using h.depth
  bound := by simpa [hkeeps.depth] using h.bound
  limit := by simpa [hkeeps.maxDepth] using h.limit

/-- A constant is entered only if it is not in the chain and there is depth left. -/
lemma Disciplined.of_enter (henter : ctx.enter name = .ok c) (h : ctx.Disciplined max) :
    c.Disciplined max := by
  obtain ⟨hdepth, hname, rfl⟩ := eq_of_enter henter
  have hlimit := h.limit
  refine ⟨?_, ?_, ?_, hlimit⟩
  · simpa [entered] using List.Nodup.concat hname h.nodup
  · simp [entered, h.depth]
  · simp only [entered]
    omega

/-- Leaving a constant keeps the discipline. -/
lemma Disciplined.leave (h : ctx.Disciplined max) : ctx.leave.Disciplined max where
  nodup := h.nodup.sublist (List.dropLast_sublist ctx.chain)
  depth := by simp [Context.leave, h.depth]
  bound := Nat.le_trans (Nat.sub_le ctx.depth 1) h.bound
  limit := h.limit

/-- A context goes on from itself. -/
lemma Nests.refl (ctx : Context) : Nests max ctx ctx :=
  fun h => ⟨h, List.prefix_refl _⟩

/-- Contexts that go on from one another follow on in a row. -/
lemma Nests.trans {a b c : Context} (hab : Nests max a b) (hbc : Nests max b c) :
    Nests max a c := by
  intro ha
  obtain ⟨hb, hchain⟩ := hab ha
  obtain ⟨hc, hchain'⟩ := hbc hb
  exact ⟨hc, hchain.trans hchain'⟩

/-- A context that agrees with another goes on from it. -/
lemma Nests.of_keeps (hkeeps : ctx.Keeps c) : Nests max ctx c :=
  fun h => ⟨h.of_keeps hkeeps, by simp [hkeeps.chain]⟩

/-- Entering a constant goes on from the context. -/
lemma Nests.of_enter (henter : ctx.enter name = .ok c) : Nests max ctx c := by
  intro h
  have hc := h.of_enter henter
  obtain ⟨-, -, rfl⟩ := eq_of_enter henter
  exact ⟨hc, List.prefix_append _ _⟩

/-- A constant that cannot be entered for a cycle closes it with the chain. -/
lemma Disciplined.isCycle_of_enter (h : ctx.Disciplined max)
    (henter : ctx.enter name = .error (.cyclicReference names)) : ctx.IsCycle names := by
  obtain ⟨-, hne⟩ | ⟨hlt, hname, heq⟩ := error_of_enter henter
  · cases hne
  · cases heq
    refine ⟨⟨ctx.chain, name, rfl, h.nodup, hname⟩, List.prefix_append _ _, ?_⟩
    -- the limit is looked at first, so there was depth left for the constant
    have hdepth := h.depth
    simp only [List.length_append, List.length_singleton]
    omega

/-- The names that an entry is refused with are those of a cycle. -/
lemma Disciplined.isCycle_of_refuses (h : ctx.Disciplined max)
    (hrefuses : ctx.Refuses name (.cyclicReference names)) : ctx.IsCycle names := by
  obtain ⟨-, hne⟩ | henter := hrefuses
  · cases hne
  · exact h.isCycle_of_enter henter

/-- A cycle that is noticed in a nested context is one of the outer context. -/
lemma IsCycle.of_nests (hnests : Nests max ctx c) (h : ctx.Disciplined max)
    (hcycle : c.IsCycle names) : ctx.IsCycle names := by
  obtain ⟨hc, hchain⟩ := hnests h
  refine ⟨hcycle.closes, hchain.trans hcycle.continues, ?_⟩
  rw [h.limit, ← hc.limit]
  exact hcycle.bound

end Context

open Context (Disciplined IsCycle Nests)

namespace Stage

variable {max : Nat} {s t : Stage}

/-- A call goes on from the context of the loop. -/
lemma Calls.nests (h : Calls s t) : Nests max s.context t.context := by
  cases h with
  | operand _ hasks => exact .of_keeps hasks.keeps
  | constant _ _ henter => exact .of_enter henter

/-- Whatever a loop comes to goes on from its context. -/
lemma Reaches.nests (h : Reaches s t) : Nests max s.context t.context := by
  induction h with
  | refl => exact .refl _
  | tail _ hstep ih =>
    obtain hturn | hcall := hstep
    · exact ih.trans (.of_keeps hturn.keeps)
    · exact ih.trans hcall.nests

end Stage

namespace Request

variable {max : Nat} {r : Request} {ctx c : Context} {s : Stage} {names : List Text}

/-- The loops that a request opens go on from its context. -/
lemma Opens.nests (h : r.Opens ctx s) : Nests max ctx s.context := by
  cases h with
  | text => exact .refl _
  | operand hasks => exact .of_keeps hasks.keeps
  | value _ henter => exact .of_enter henter

/-- A request leaves registry, depth limit, chain and depth as they were. -/
lemma run_keeps (n : Nat) (r : Request) : Within Context.Keeps (r.run n) :=
  run_within Context.keeps_isFrame (fun _ name hr => constant_keeps hr name) n r

/-- A request that fails for a cycle comes to a constant that closes one. -/
lemma isCycle_of_error (h : ctx.Disciplined max) {n : Nat}
    (hrun : r.run n ctx = .error (.cyclicReference names) c) : ctx.IsCycle names := by
  have hcyclic : (EvalError.cyclicReference names).OfReference := trivial
  cases refused_of_error hcyclic hrun with
  | constant hrefuses => exact h.isCycle_of_refuses hrefuses
  | nested hopens hrefused =>
    obtain @⟨t, cut, inner, hreach, -, hrefuses⟩ := hrefused
    have hnests : Nests max ctx inner := hopens.nests.trans hreach.nests
    obtain ⟨hinner, -⟩ := hnests h
    exact .of_nests hnests h (hinner.isCycle_of_refuses hrefuses)

end Request

/-- What can be done to a context. -/
inductive Operation where
  | enter (name : Text)
  | leave
  | request (r : Request)

namespace Operation

variable {max : Nat} {op : Operation} {ctx c : Context} {o : Outcome Unit} {names : List Text}

/-- What the operation does to a context within a number of steps. -/
def run (steps : Nat) : Operation → Eval Unit
  | enter name => Eval.enter name
  | leave => Eval.update Context.leave
  | request r => r.run steps >>= fun _ => pure ()

/-- On the context, the operation ends in `o`, whatever the number of steps it takes. -/
def Ends (op : Operation) (ctx : Context) (o : Outcome Unit) : Prop :=
  Eval.Ends (run · op) ctx o

/-- An operation leaves a disciplined context disciplined. -/
lemma Ends.disciplined (h : op.Ends ctx o) (hc : o.context? = some c)
    (hctx : ctx.Disciplined max) : c.Disciplined max := by
  obtain ⟨-, n, rfl⟩ := h
  cases op with
  | enter name =>
    simp only [run, Eval.enter] at hc
    cases henter : ctx.enter name with
    | ok inner =>
      rw [henter] at hc
      cases hc
      exact hctx.of_enter henter
    | error e =>
      rw [henter] at hc
      cases hc
      exact hctx
  | leave =>
    cases hc
    exact hctx.leave
  | request r =>
    have hkeeps : Within Context.Keeps (r.run n >>= fun _ => pure ()) :=
      .bind Context.keeps_isFrame (r.run_keeps n) fun _ => .pure Context.keeps_isFrame ()
    exact hctx.of_keeps (hkeeps ctx c hc)

/-- The names of a cyclic reference that an operation ends with are those of a cycle. -/
lemma Ends.isCycle (h : op.Ends ctx (.error (.cyclicReference names) c))
    (hctx : ctx.Disciplined max) : ctx.IsCycle names := by
  obtain ⟨-, n, hn⟩ := h
  cases op with
  | enter name =>
    simp only [run, Eval.enter] at hn
    cases henter : ctx.enter name with
    | ok inner =>
      rw [henter] at hn
      cases hn
    | error e =>
      rw [henter] at hn
      cases hn
      exact hctx.isCycle_of_enter henter
  | leave => cases hn
  | request r =>
    obtain hrun | ⟨a, c', -, hpure⟩ := error_of_bind hn
    · exact r.isCycle_of_error hctx hrun
    · cases hpure

end Operation

namespace Context

/-- The contexts that are met while one operation after another is done to a context, whether they
fail or not: those that operations leave, those in which the loops of an evaluation stand, and those
that operations leave which are done there. In between, operators count separators. -/
inductive Met (start : Context) : Context → Prop where
  | start : Met start start
  | operation {ctx c op o} : Met start ctx → Operation.Ends op ctx o → o.context? = some c →
    Met start c
  | nested {ctx r s t} : Met start ctx → Request.Opens r ctx s → Stage.Reaches s t →
    Met start t.context
  | counted {ctx} (k : Nat) : Met start ctx → Met start { ctx with separators := k }

variable {max : Nat} {start ctx : Context}

/-- Every context that is met is disciplined. -/
lemma Met.disciplined (h : Met start ctx) (hstart : start.Disciplined max) :
    ctx.Disciplined max := by
  induction h with
  | start => exact hstart
  | operation _ hends hc ih => exact hends.disciplined hc ih
  | nested _ hopens hreach ih => exact ((hopens.nests.trans hreach.nests) ih).1
  | counted k _ ih => exact ⟨ih.nodup, ih.depth, ih.bound, ih.limit⟩

/-- Whatever is done to a fresh context, every context that is met is disciplined. A request that
ends there leaves the chain and the depth as they were, and an operation that fails there for a
cycle gives its names. -/
theorem met_disciplined {table : Table} {registry : Registry}
    (h : Met (fresh table registry max) ctx) :
    ctx.Disciplined max ∧
      (∀ r o c, Request.Ends r ctx o → o.context? = some c →
        c.chain = ctx.chain ∧ c.depth = ctx.depth) ∧
      ∀ op names c, Operation.Ends op ctx (.error (.cyclicReference names) c) →
        ctx.IsCycle names := by
  have hctx := h.disciplined (disciplined_fresh table registry max)
  refine ⟨hctx, ?_, fun op names c hends => hends.isCycle hctx⟩
  rintro r o c ⟨-, n, rfl⟩ hc
  have hkeeps := r.run_keeps n ctx c hc
  exact ⟨hkeeps.chain, hkeeps.depth⟩

/-- Two constants that refer to each other, the first one being resolved below another constant. As
many constants are in the cycle as the context admits. -/
theorem met_disciplined_cycle :
    let table := ((Table.empty true).insert ['B'] "$CONSTANTS.C$".toList).insert ['C']
      "$CONSTANTS.B$".toList
    let start := fresh table .standard 4
    let ctx := (start.entered ['A']).entered ['B']
    let names := [['A'], ['B'], ['C'], ['B']]
    Met start ctx ∧
      Operation.Ends (.request (.constant ['C'])) ctx (.error (.cyclicReference names) ctx) ∧
      ctx.Disciplined 4 ∧ ctx.IsCycle names := by
  intro table start ctx names
  -- the constant `A` is entered, and the constant `B` is asked for
  have henter : Operation.Ends (.enter ['A']) start (.value () (start.entered ['A'])) :=
    ⟨nofun, 0, rfl⟩
  have hopens : Request.Opens (.constant ['B']) (start.entered ['A'])
      (.spans "$CONSTANTS.C$".toList ctx) := .value (by decide +kernel) (by decide +kernel)
  have hmet : Met start ctx := .nested (.operation .start henter rfl) hopens .refl
  have hends : Operation.Ends (.request (.constant ['C'])) ctx
      (.error (.cyclicReference names) ctx) := ⟨nofun, 7, by decide +kernel⟩
  obtain ⟨hdisciplined, -, hcycle⟩ := met_disciplined hmet
  exact ⟨hmet, hends, hdisciplined, hcycle _ _ _ hends⟩

end Context

end InlineExpr
