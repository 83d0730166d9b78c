import InlineExpr.Proofs.Memory

/-!
# Nothing tells what a table remembers

On a table that remembers more, the evaluation of a tidy text needs no more than on one that
remembers less: where the one has a result, the other has it, too (`text_ahead`). So a text that has
a result on the first table has the same one after any other evaluation
(`remembering_invisible`).
-/

namespace InlineExpr

namespace Eval

open Text

/-- The second context remembers all that the first one does. -/
structure Ahead (reg : Registry) (table : Table) (c d : Context) : Prop where
  keeps : c.Keeps d
  ready : Ready reg table c
  ready' : Ready reg table d
  recalls : ∀ name, table.Recalls reg c.table name → table.Recalls reg d.table name

variable {reg : Registry} {table : Table} {c c' d d' : Context} {names names' : List Text}

/-- The stacks do the same in both contexts as long as nothing is counted. -/
lemma Ahead.isCoupling : IsCoupling (Ahead reg table) (· = 0) where
  registry h := h.keeps.registry
  separators h := ⟨h.ready'.separators.trans h.ready.separators.symm, h.ready.separators⟩
  recount := by
    rintro c d k h rfl
    exact ⟨⟨h.keeps.registry, h.keeps.maxDepth, h.keeps.chain, h.keeps.depth⟩,
      ⟨h.ready.registry, rfl, h.ready.whole, h.ready.recorded⟩,
      ⟨h.ready'.registry, rfl, h.ready'.whole, h.ready'.recorded⟩, h.recalls⟩

/-- Contexts stay one ahead of the other when the same constants take in their meanings. -/
lemma Ahead.records (h : Ahead reg table c d) (hc : c.Keeps c') (hd : d.Keeps d')
    (hrecords : Records reg table c.table names c')
    (hrecords' : Records reg table d.table names d') : Ahead reg table c' d' where
  keeps := ⟨hd.registry.trans (h.keeps.registry.trans hc.registry.symm),
    hd.maxDepth.trans (h.keeps.maxDepth.trans hc.maxDepth.symm),
    hd.chain.trans (h.keeps.chain.trans hc.chain.symm),
    hd.depth.trans (h.keeps.depth.trans hc.depth.symm)⟩
  ready := hrecords.ready
  ready' := hrecords'.ready
  recalls name hname := by
    by_cases hasked : name ∈ names
    · exact hrecords'.asked name hasked
    · have hbefore := hname.congr (hrecords.others name hasked).symm
      exact (h.recalls name hbefore).congr (hrecords'.others name hasked)

/-- A constant is entered on both sides. -/
lemma Ahead.entered (h : Ahead reg table c d) (name : Text) :
    Ahead reg table (c.entered name) (d.entered name) where
  keeps := ⟨h.keeps.registry, h.keeps.maxDepth, congrArg (· ++ [name]) h.keeps.chain,
    congrArg (· + 1) h.keeps.depth⟩
  ready := ⟨h.ready.registry, h.ready.separators, h.ready.whole, h.ready.recorded⟩
  ready' := ⟨h.ready'.registry, h.ready'.separators, h.ready'.whole, h.ready'.recorded⟩
  recalls := h.recalls

/-- A constant that the first evaluation may enter may be entered by the second. -/
lemma Ahead.enter (h : Ahead reg table c d) {name : Text} {inner : Context}
    (henter : c.enter name = .ok inner) :
    d.enter name = .ok (d.entered name) :=
  Context.enter_of_le (Nat.le_of_eq h.keeps.maxDepth.symm) h.keeps.chain h.keeps.depth henter

/-- It takes two steps to see that nothing is to be replaced. -/
lemma two_le_of_value {n : Nat} {t v : Text} (h : text n t c = .value v c') : 2 ≤ n := by
  match n with
  | 0 =>
    rw [text] at h
    cases h
  | 1 =>
    cases hcut : Span.find? t with
    | none =>
      rw [text_of_no_span hcut, references] at h
      cases h
    | some cut =>
      rw [text_of_span hcut] at h
      obtain ⟨w, d, -, h⟩ := value_of_bind h
      rw [text] at h
      cases h
  | n + 2 => exact Nat.le_add_left 2 n

variable (htable : table.Tidy)

include htable

/-- A constant that is resolved is resolved on a table that remembers more. -/
lemma constant_ahead {n : Nat} {Q : Text → Prop}
    (iht : ∀ t, t.Tidy → Follows (Ahead reg table) False Q (text n t) (text n t)) (name : Text) :
    Follows (Ahead reg table) False (fun _ => True) (constant (text n) name)
      (constant (text n) name) := by
  intro c d h
  have hc := constant_tells htable (text_tells htable n).1 name h.ready
  have hd := constant_tells htable (text_tells htable n).1 name h.ready'
  cases hx : constant (text n) name c with
  | error e c' => exact fun hfalse => hfalse.elim
  | outOfSteps => trivial
  | value v c' =>
    rw [hx] at hc
    obtain ⟨_, ⟨value, names, hvalue, hv, rfl⟩, hrecords⟩ := hc
    -- it is enough that the constant is resolved at all, because its meaning is unique
    have hends : ∃ w d', constant (text n) name d = .value w d' := by
      obtain ⟨u, inner, c₁, hu, henter, hrun, -⟩ := value_of_constant hx
      have henter' := h.enter henter
      by_cases hknown : table.Recalls reg d.table name
      · obtain ⟨_, w, -, ⟨_, hw⟩, hnow⟩ := hknown
        obtain ⟨m, rfl⟩ := Nat.exists_eq_add_of_le' (two_le_of_value hrun)
        obtain ⟨hspan, hreference⟩ := hw.inert_of_text
        rw [constant_of_entered hnow henter', text_of_resolved hspan hreference m]
        exact ⟨w, _, rfl⟩
      · -- what is not remembered on either table is resolved from its value on both of them
        have hsame := h.ready.recorded.get?_eq (mt (h.recalls name) hknown)
        have hsame' := h.ready'.recorded.get?_eq hknown
        rw [hsame] at hu
        obtain ⟨-, -, rfl⟩ := Context.eq_of_enter henter
        have hinner := iht u (htable name u hu) _ _ (h.entered name)
        rw [hrun] at hinner
        obtain ⟨d₁, hd₁, -, -⟩ := hinner
        rw [constant_of_entered (hsame'.trans hu) henter', hd₁]
        exact ⟨v, _, rfl⟩
    obtain ⟨w, d', hy⟩ := hends
    rw [hy] at hd
    obtain ⟨_, ⟨value', names', hvalue', hw, rfl⟩, hrecords'⟩ := hd
    cases hvalue.symm.trans hvalue'
    obtain ⟨rfl, rfl⟩ := hv.unique hw
    have hkeeps := constant_keeps (text_keeps n) name
    exact ⟨d', hy, h.records (hkeeps.of_value hx) (hkeeps.of_value hy) hrecords hrecords', trivial⟩

/-- A tidy text that has a result has it on a table that remembers more. -/
lemma text_ahead (n : Nat) :
    (∀ t, t.Tidy → Follows (Ahead reg table) False (fun _ => True) (text n t) (text n t)) ∧
      ∀ t, '#' ∉ t → Follows (Ahead reg table) False (fun _ => True) (references n t)
        (references n t) := by
  induction n with
  | zero =>
    refine ⟨fun t _ => ?_, fun t _ => ?_⟩
    · rw [text]
      exact .exhausted _
    · rw [references]
      exact .exhausted _
  | succ n ih =>
    obtain ⟨iht, ihr⟩ := ih
    refine ⟨fun t ht => ?_, fun t ht => ?_⟩
    · cases hcut : Span.find? t with
      | none =>
        rw [text_of_no_span hcut]
        exact ihr t (ht.whole.sharp_not_mem areMarks_sharp hcut)
      | some cut =>
        obtain ⟨hbefore, hsharp, hcomma, hafter⟩ := ht.of_span hcut
        have hfollows : Follows (Ahead reg table) False (fun _ => True) (span (text n) cut.inner)
            (span (text n) cut.inner) :=
          .span Ahead.isCoupling Operator.separators_perform
            (fun u hu op => ofToken?_ne_comma hcomma hu)
            fun u hu => iht u (.of_not_mem fun hm => hsharp (mem_of_mem_tokenize hu hm))
        have hspan := span_free areMarks_sharp (text_whole areMarks_sharp n).1
          (.of_free (free_sharp_iff.2 hsharp)) hsharp
        rw [text_of_span hcut]
        apply Follows.bind (hfollows.ensuring hspan fun c d h => h.ready.whole)
        intro v hv
        exact iht _ ((hbefore.append (.of_not_mem (free_sharp_iff.1 hv))).append hafter)
    · cases hcut : Reference.find? t with
      | none =>
        rw [references_of_no_reference hcut]
        exact .pure trivial
      | some cut =>
        have hfollows := constant_ahead htable iht cut.inner
        have hconstant := constant_free (text_whole areMarks_sharp n).1 cut.inner
        rw [references_of_reference hcut]
        apply Follows.bind (hfollows.ensuring hconstant fun c d h => h.ready.whole)
        intro v hv
        apply ihr
        rw [Reference.eq_of_find? hcut] at ht
        simp only [List.mem_append, not_or] at ht ⊢
        exact ⟨⟨ht.1.1, free_sharp_iff.1 hv⟩, ht.2⟩

end Eval

namespace Engine

open Eval

variable {engine : Engine} {table : Table} {x y v : Text} {ctx : Context} {o : Outcome Text}

/-- On a table of tidy values, a tidy text that has a result has the same one on the table that the
evaluation of any other tidy text leaves, whether with a result or an error. -/
theorem remembering_invisible (htable : table.Tidy) (hx : x.Tidy) (hy : y.Tidy)
    (hends : engine.Ends y table (.value v ctx)) (ho : engine.Ends x table o) :
    ∃ c d, o.context? = some c ∧ engine.Ends y c.table (.value v d) := by
  have hstart : Ready engine.registry table (engine.start table) :=
    ⟨rfl, rfl, htable.whole, .refl _ _ table⟩
  obtain ⟨hne, m, hm⟩ := ho
  have htells := (text_tells htable m).1 x (engine.start table) hx hstart
  dsimp only at hm
  rw [hm] at htells
  -- a result or an error, the evaluation of `x` leaves meanings in the table
  have hleft : ∃ c, o.context? = some c ∧ c.table.Whole ['#'] ∧
      table.Recorded engine.registry c.table := by
    cases o with
    | value u c =>
      obtain ⟨_, -, hrecords⟩ := htells
      exact ⟨c, rfl, hrecords.ready.whole, hrecords.ready.recorded⟩
    | error e c => exact ⟨c, rfl, htells⟩
    | outOfSteps => exact absurd rfl hne
  obtain ⟨c, hc, hwhole, hrecorded⟩ := hleft
  have hahead : Ahead engine.registry table (engine.start table) (engine.start c.table) :=
    ⟨⟨rfl, rfl, rfl, rfl⟩, hstart, ⟨rfl, rfl, hwhole, hrecorded⟩,
      fun _ hname => hrecorded.holds hname⟩
  obtain ⟨-, n, hn⟩ := hends
  have hfollows := (text_ahead htable n).1 y hy _ _ hahead
  dsimp only at hn
  rw [hn] at hfollows
  obtain ⟨d, hd, -, -⟩ := hfollows
  exact ⟨c, d, hc, nofun, n, hd⟩

/-- A constant that asks for another one. -/
def linked : Table :=
  ((Table.empty true).insert ['A'] (Span.wrap "$CONSTANTS.B$ + 1".toList)).insert ['B']
    (Span.wrap "2 * 3".toList)

/-- The first text fails when both constants are resolved already. -/
theorem remembering_invisible_failure :
    let x := Span.wrap "$CONSTANTS.A$ + x".toList
    let y := Span.wrap "$CONSTANTS.A$ * 2".toList
    let left := ((Table.empty true).insert ['A'] ['7']).insert ['B'] ['6']
    linked.Tidy ∧ x.Tidy ∧ y.Tidy ∧
      Engine.Ends {} y linked (.value "14".toList (Engine.start {} left)) ∧
      Engine.Ends {} x linked
        (.error (.arithmetic .plus (.notANumber ['x'])) (Engine.start {} left)) ∧
      ∃ d, Engine.Ends {} y left (.value "14".toList d) := by
  intro x y left
  have htable : linked.Tidy :=
    ((Table.Tidy.empty true).insert (.wrap (by decide) (by decide) (by decide) (by decide))).insert
      (.wrap (by decide) (by decide) (by decide) (by decide))
  have hx : x.Tidy := .wrap (by decide) (by decide) (by decide) (by decide)
  have hy : y.Tidy := .wrap (by decide) (by decide) (by decide) (by decide)
  have hvalue : Engine.Ends {} y linked (.value "14".toList (Engine.start {} left)) :=
    ⟨nofun, 10, by decide +kernel⟩
  have herror : Engine.Ends {} x linked
      (.error (.arithmetic .plus (.notANumber ['x'])) (Engine.start {} left)) :=
    ⟨nofun, 10, by decide +kernel⟩
  obtain ⟨c, d, hc, hd⟩ := remembering_invisible htable hx hy hvalue herror
  cases hc
  exact ⟨htable, hx, hy, hvalue, herror, d, hd⟩

end Engine

end InlineExpr
