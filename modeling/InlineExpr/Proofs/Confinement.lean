import InlineExpr.Proofs.Requests

/-!
# Where an evaluation writes

The table takes in nothing but the values of constants that were resolved, and a constant is in the
chain while it is resolved, where it cannot be entered again. So the names of the table stay the
same, and so do the entries of all constants in the chain (`Context.Confined`). A constant whose
resolution fails was in the chain when it failed, so its own entry is the one it had before,
whatever other constants took in (`writes_confined`).
-/

namespace InlineExpr

namespace Table

open Text (precedes precedes_trans)

/-- A new value for a name that is there leaves the names as they are. -/
lemma map_fst_insertEntry {name value w : Text} {es : List (Text × Text)}
    (hes : es.Pairwise fun a b => precedes a.1 b.1 = true) (h : lookup? name es = some w) :
    (insertEntry name value es).map Prod.fst = es.map Prod.fst := by
  induction es with
  | nil => cases h
  | cons d es ih =>
    obtain ⟨n, v⟩ := d
    obtain ⟨below, rest⟩ := List.pairwise_cons.1 hes
    by_cases heq : name = n
    · subst heq
      simp [insertEntry_self]
    · simp only [lookup?, if_neg (Ne.symm heq)] at h
      -- the entry of the name stands further down, so the name does not come first
      have hbefore := below _ (mem_of_lookup? h)
      have hname : precedes name n = false := by
        cases hp : precedes name n with
        | false => rfl
        | true =>
          have hself := precedes_trans hp hbefore
          simp [Text.not_precedes_self] at hself
      simp [insertEntry_of_not_precedes heq hname, ih rest h]

/-- A table keeps its names when one of them takes in another value. -/
lemma map_fst_insert {table : Table} {name w : Text} (h : table.get? name = some w)
    (value : Text) :
    (table.insert name value).entries.map Prod.fst = table.entries.map Prod.fst :=
  map_fst_insertEntry table.sorted h

end Table

/-- The chain is the same, the table has the same names, and the constants in the chain have the
entries that they had. -/
structure Context.Confined (ctx ctx' : Context) : Prop where
  chain : ctx'.chain = ctx.chain
  names : ctx'.table.entries.map Prod.fst = ctx.table.entries.map Prod.fst
  held : ∀ name ∈ ctx.chain, ctx'.table.get? name = ctx.table.get? name

namespace Context

variable {ctx c : Context} {name : Text}

/-- Nothing is written into a context by leaving it as it is. -/
lemma Confined.refl (ctx : Context) : Confined ctx ctx :=
  ⟨rfl, rfl, fun _ _ => rfl⟩

/-- What is confined twice in a row is confined. -/
lemma Confined.trans {a b c : Context} (hab : Confined a b) (hbc : Confined b c) :
    Confined a c where
  chain := hbc.chain.trans hab.chain
  names := hbc.names.trans hab.names
  held name hname := by
    rw [hbc.held name (by rwa [hab.chain]), hab.held name hname]

/-- Confinement is carried by all parts of an evaluation. -/
lemma confined_isFrame : Eval.IsFrame Confined :=
  ⟨.refl, .trans, fun _ _ => ⟨rfl, rfl, fun _ _ => rfl⟩⟩

/-- When the constant that was entered last is left, it has the entry that it had. -/
lemma Confined.get?_entered (h : Confined (ctx.entered name) c) :
    c.table.get? name = ctx.table.get? name :=
  h.held name (by simp [entered])

/-- What was confined within a constant is confined when it is left. -/
lemma Confined.leave (h : Confined (ctx.entered name) c) : Confined ctx c.leave where
  chain := by simp [Context.leave, h.chain, entered]
  names := h.names
  held other hother := h.held other (by simp [entered, hother])

/-- A constant outside of the chain may take in a value. -/
lemma Confined.define {w : Text} (h : Confined ctx c) (hget : c.table.get? name = some w)
    (hname : name ∉ ctx.chain) (value : Text) : Confined ctx (c.define name value) where
  chain := h.chain
  names := (Table.map_fst_insert hget value).trans h.names
  held other hother := by
    have hne : name ≠ other := by
      rintro rfl
      exact hname hother
    simpa [Context.define, hne] using h.held other hother

end Context

namespace Eval

open Context (Confined confined_isFrame)

variable {resolve : Text → Eval Text} (hr : ∀ t, Within Confined (resolve t)) (name : Text)

include hr

/-- The resolution of a constant is confined if that of texts is. -/
lemma constant_confined : Within Confined (constant resolve name) := by
  apply Within.constant confined_isFrame
  · intro ctx value v c hget hname h
    have hc := (hr value).of_value h
    exact hc.leave.define (hc.get?_entered.trans hget) hname v
  · intro ctx value e c _ _ h
    exact ((hr value).of_error h).leave

/-- A constant that fails keeps its entry. -/
lemma get?_of_constant_error {ctx c : Context} {e : EvalError}
    (h : constant resolve name ctx = .error e c) : c.table.get? name = ctx.table.get? name := by
  obtain ⟨-, rfl⟩ | ⟨value, inner, c', _, henter, hresolve, rfl⟩ := error_of_constant h
  · rfl
  · obtain ⟨-, -, rfl⟩ := Context.eq_of_enter henter
    exact ((hr value).of_error hresolve).get?_entered

omit hr in
/-- The evaluation of a text is confined. -/
lemma text_confined (n : Nat) (t : Text) : Within Confined (text n t) :=
  (text_within confined_isFrame (fun _ name hr => constant_confined hr name) n).1 t

end Eval

namespace Request

open Eval

variable {r : Request} {ctx c : Context} {o : Outcome Text}

/-- Wherever a request ends, the table has the names that it had, the constants that were in the
chain have their entries, and a constant that failed has its own. -/
theorem writes_confined (h : r.Ends ctx o) (hc : o.context? = some c) :
    c.table.entries.map Prod.fst = ctx.table.entries.map Prod.fst ∧
      (∀ name ∈ ctx.chain, c.table.get? name = ctx.table.get? name) ∧
      ∀ name e, r = .constant name → o = .error e c →
        c.table.get? name = ctx.table.get? name := by
  have hconfined :=
    h.within Context.confined_isFrame (fun _ name hr => constant_confined hr name) hc
  refine ⟨hconfined.names, hconfined.held, ?_⟩
  rintro name e rfl rfl
  obtain ⟨-, n, hn⟩ := h
  exact get?_of_constant_error (text_confined n) name hn

/-- A constant that refers to another one and then to itself. -/
def selfish : Table :=
  (((Table.empty true).insert ['A'] "$CONSTANTS.B$$CONSTANTS.A$".toList).insert ['B']
    (Span.wrap "1 + 1".toList)).insert ['C'] "$CONSTANTS.A$".toList

/-- While `C` is being resolved, the resolution of `A` fails when `B` has taken in its value. -/
theorem writes_confined_cycle :
    let ctx := (Engine.start {} selfish).entered ['C']
    let c := ctx.define ['B'] ['2']
    Ends (.constant ['A']) ctx (.error (.cyclicReference [['C'], ['A'], ['A']]) c) ∧
      c.table.entries.map Prod.fst = [['A'], ['B'], ['C']] ∧
      c.table.get? ['B'] ≠ ctx.table.get? ['B'] ∧
      c.table.get? ['C'] = ctx.table.get? ['C'] ∧ c.table.get? ['A'] = ctx.table.get? ['A'] := by
  intro ctx c
  have hends : Ends (.constant ['A']) ctx
      (.error (.cyclicReference [['C'], ['A'], ['A']]) c) := ⟨nofun, 7, by decide +kernel⟩
  obtain ⟨hnames, hheld, hown⟩ := writes_confined hends rfl
  have hinner : c.table.get? ['B'] ≠ ctx.table.get? ['B'] := by decide +kernel
  exact ⟨hends, hnames, hinner, hheld ['C'] (.head _), hown ['A'] _ rfl rfl⟩

end Request

end InlineExpr
