import InlineExpr.Proofs.Meaning
import InlineExpr.Proofs.Remembering
import InlineExpr.Proofs.Simulation
import InlineExpr.Proofs.Whole

/-!
# What a table remembers

An evaluation writes into the table what constants are resolved to. If every `#` begins a span
without commas, these are the meanings that the values of the constants had on the first table, and
a constant that was resolved finds all constants resolved that it asked for. So the evaluation of a
text has its meaning on the first table as its result, whatever the table remembers, and an
evaluation that fails leaves a table that remembers nothing but meanings (`text_tells`).
-/

namespace InlineExpr

namespace Text

/-- Every `#` begins a span with a body in which there is neither a mark of spans nor a comma. -/
inductive Tidy : Text → Prop
  | nil : Tidy []
  | char {c t} : c ≠ '#' → Tidy t → Tidy (c :: t)
  | span {body t} : body ≠ [] → '#' ∉ body → '}' ∉ body → ',' ∉ body → Tidy t →
    Tidy (Span.wrap body ++ t)

/-- The mark of spans may be the only mark. -/
lemma areMarks_sharp : AreMarks ['#'] :=
  ⟨.head _, fun _ hc => .inl (List.mem_singleton.1 hc)⟩

/-- A text is free of the mark of spans if no `#` stands in it. -/
lemma free_sharp_iff {t : Text} : t.Free ['#'] ↔ '#' ∉ t := by
  simp [Free]

variable {s t : Text}

/-- A text with no `#` is tidy. -/
lemma Tidy.of_not_mem (h : '#' ∉ t) : t.Tidy := by
  induction t with
  | nil => exact .nil
  | cons c t ih =>
    obtain ⟨hc, ht⟩ := not_or.1 (mt List.mem_cons.2 h)
    exact .char (Ne.symm hc) (ih ht)

/-- A span with a plain body is tidy. -/
lemma Tidy.wrap {body : Text} (hne : body ≠ []) (hsharp : '#' ∉ body) (hclose : '}' ∉ body)
    (hcomma : ',' ∉ body) : (Span.wrap body).Tidy := by
  rw [← List.append_nil (Span.wrap body)]
  exact .span hne hsharp hclose hcomma .nil

/-- One tidy text after another is tidy. -/
lemma Tidy.append (hs : s.Tidy) (ht : t.Tidy) : (s ++ t).Tidy := by
  induction hs with
  | nil => exact ht
  | char hc _ ih => exact .char hc ih
  | span hne hsharp hclose hcomma _ ih =>
    rw [List.append_assoc]
    exact .span hne hsharp hclose hcomma ih

/-- In a tidy text every mark of spans begins a span. -/
lemma Tidy.whole (h : t.Tidy) : t.Whole ['#'] := by
  induction h with
  | nil => exact .nil
  | char hc _ ih => exact .char (by simpa using hc) ih
  | span hne hsharp hclose _ _ ih =>
    exact .span hne hsharp hclose (.of_free (free_sharp_iff.2 hsharp)) ih

/-- The first span of a tidy text is one of its spans. -/
lemma Tidy.of_span (h : t.Tidy) {cut : Cut} (hcut : Span.find? t = some cut) :
    cut.before.Tidy ∧ '#' ∉ cut.inner ∧ ',' ∉ cut.inner ∧ cut.after.Tidy := by
  induction h generalizing cut with
  | nil => cases hcut
  | @char c t hc _ ih =>
    rw [Span.find?_cons_of_ne hc] at hcut
    obtain ⟨rest, hrest, rfl⟩ := Option.map_eq_some_iff.1 hcut
    obtain ⟨hbefore, hinner⟩ := ih hrest
    exact ⟨.char hc hbefore, hinner⟩
  | @span body t hne hsharp hclose hcomma ht _ =>
    rw [Span.find?_wrap_append hne hclose] at hcut
    cases hcut
    exact ⟨.nil, hsharp, hcomma, ht⟩

/-- In a body without commas no token is the separator. -/
lemma ofToken?_ne_comma {body : Text} (h : ',' ∉ body) {u : Text} (hu : u ∈ tokenize body)
    {op : Operator} (hop : Operator.ofToken? u = some op) : op ≠ .comma := by
  rintro rfl
  have hcomma : ',' ∈ u := by
    rw [Operator.ofToken?_eq_some_iff.1 hop]
    exact .head _
  exact h (mem_of_mem_tokenize hu hcomma)

end Text

namespace Table

/-- The values of the table are tidy. -/
def Tidy (table : Table) : Prop :=
  ∀ name value, table.get? name = some value → value.Tidy

/-- In a tidy table every mark of spans begins a span. -/
lemma Tidy.whole {table : Table} (h : table.Tidy) : table.Whole ['#'] :=
  fun name value hvalue => (h name value hvalue).whole

/-- An empty table is tidy. -/
lemma Tidy.empty (listsNames : Bool) : (empty listsNames).Tidy :=
  fun _ _ h => nomatch h

/-- A tidy table stays so when a tidy value is put into it. -/
lemma Tidy.insert {table : Table} {name v : Text} (h : table.Tidy) (hv : v.Tidy) :
    (table.insert name v).Tidy :=
  fun _ _ hw => of_get?_insert h hv hw

variable (reg : Registry) (table : Table)

/-- A value means a text on the table. -/
def Resolves (value v : Text) : Prop :=
  ∃ names, Means reg table (.text value) v names

/-- A value that means something asks for a constant on the way. -/
def AsksFor (value name : Text) : Prop :=
  ∃ v names, Means reg table (.text value) v names ∧ name ∈ names

/-- The table `now` holds the meaning of what the constant held on `table`. -/
abbrev Recalls (now : Table) : Text → Prop :=
  Holds (table.Resolves reg) table now

/-- Every constant of `now` holds its value on `table` or the meaning of that, and then all
constants that this asks for hold theirs. -/
abbrev Recorded (now : Table) : Prop :=
  Remembers (table.Resolves reg) (table.AsksFor reg) table now

end Table

namespace Eval

open Text

/-- The contexts in which the evaluation of tidy texts goes on after any other one on `table`. -/
structure Ready (reg : Registry) (table : Table) (ctx : Context) : Prop where
  registry : ctx.registry = reg
  separators : ctx.separators = 0
  whole : ctx.table.Whole ['#']
  recorded : table.Recorded reg ctx.table

/-- Since the table was as `before`, the constants of certain names took in their meanings, and no
others took anything in. -/
structure Records (reg : Registry) (table before : Table) (names : List Text) (ctx : Context) :
    Prop where
  ready : Ready reg table ctx
  asked : ∀ name ∈ names, table.Recalls reg ctx.table name
  others : ∀ name, name ∉ names → ctx.table.get? name = before.get? name

/-- An evaluation ended with a result, of which `M` is the case with the constants that took in
their meanings; or it failed, and the table remembers nothing but meanings. -/
def Tells {α : Type} (reg : Registry) (table : Table) (M : α → List Text → Prop) (ctx : Context) :
    Outcome α → Prop
  | .value a c => ∃ names, M a names ∧ Records reg table ctx.table names c
  | .error _ c => c.table.Whole ['#'] ∧ table.Recorded reg c.table
  | .outOfSteps => True

variable {reg : Registry} {table before : Table} {ctx c c' : Context} {names names' : List Text}

/-- Nothing is recorded before anything was asked for. -/
lemma Records.refl (h : Ready reg table ctx) : Records reg table ctx.table [] ctx :=
  ⟨h, nofun, fun _ _ => rfl⟩

/-- What is recorded at first and what is recorded later is recorded together. -/
lemma Records.trans (h : Records reg table before names c)
    (h' : Records reg table c.table names' c') :
    Records reg table before (names ++ names') c' := by
  refine ⟨h'.ready, fun name hname => ?_, fun name hname => ?_⟩
  · by_cases hname' : name ∈ names'
    · exact h'.asked name hname'
    · have hbefore := (List.mem_append.1 hname).resolve_right hname'
      exact (h.asked name hbefore).congr (h'.others name hname')
  · rw [List.mem_append, not_or] at hname
    rw [h'.others name hname.2, h.others name hname.1]

section Rules

variable {α β : Type} {M M' : α → List Text → Prop} {N : β → List Text → Prop}

/-- An error at once leaves the table as it was. -/
lemma Tells.fail (hctx : Ready reg table ctx) (e : EvalError) :
    Tells reg table M ctx (fail e ctx) :=
  ⟨hctx.whole, hctx.recorded⟩

/-- A value at once asks for nothing. -/
lemma Tells.pure {a : α} (hctx : Ready reg table ctx) (h : M a []) :
    Tells reg table M ctx ((Pure.pure a : Eval α) ctx) :=
  ⟨[], h, .refl hctx⟩

/-- What is told of a result can be told with less. -/
lemma Tells.weaken {o : Outcome α} (h : Tells reg table M ctx o)
    (hM : ∀ a names, M a names → M' a names) : Tells reg table M' ctx o := by
  cases o with
  | value a c =>
    obtain ⟨names, ha, hrecords⟩ := h
    exact ⟨names, hM a names ha, hrecords⟩
  | error e c => exact h
  | outOfSteps => trivial

/-- A property that the evaluation upholds is told along with the result. -/
lemma Tells.ensuring {I : Table → Prop} {Q : α → Prop} {o : Outcome α}
    (h : Tells reg table M ctx o) (hupholds : o.Upholds (I ·.table) Q) :
    Tells reg table (fun a names => M a names ∧ Q a) ctx o := by
  cases o with
  | value a c =>
    obtain ⟨names, ha, hrecords⟩ := h
    exact ⟨names, ⟨ha, hupholds.2⟩, hrecords⟩
  | error e c => exact h
  | outOfSteps => trivial

/-- Of an evaluation in two parts, first the constants of the one and then those of the other take
in their meanings. -/
lemma Tells.bind {x : Eval α} {f : α → Eval β} (hx : Tells reg table M ctx (x ctx))
    (hf : ∀ a names c, M a names → Ready reg table c →
      Tells reg table (fun b names' => N b (names ++ names')) c (f a c)) :
    Tells reg table N ctx ((x >>= f) ctx) := by
  rw [bind_apply]
  cases hc : x ctx with
  | value a c =>
    rw [hc] at hx
    obtain ⟨names, ha, hrecords⟩ := hx
    have hrest := hf a names c ha hrecords.ready
    dsimp only
    cases hd : f a c with
    | value b d =>
      rw [hd] at hrest
      obtain ⟨names', hb, hrecords'⟩ := hrest
      exact ⟨names ++ names', hb, hrecords.trans hrecords'⟩
    | error e d =>
      rw [hd] at hrest
      exact hrest
    | outOfSteps => trivial
  | error e c =>
    rw [hc] at hx
    exact hx
  | outOfSteps => trivial

/-- Renaming the errors of an evaluation tells the same. -/
lemma Tells.mapError {x : Eval α} (h : Tells reg table M ctx (x ctx)) (f : EvalError → EvalError) :
    Tells reg table M ctx (mapError f x ctx) := by
  rw [Eval.mapError]
  cases hx : x ctx with
  | value a c => rwa [hx] at h
  | error e c => rwa [hx] at h
  | outOfSteps => trivial

end Rules

/-- What an expression does from given stacks on; the whole expression begins on empty ones. -/
def remaining (resolve : Text → Eval Text) (all : List Text) (s : Stacks) (ts : List Text) :
    Eval Text := do
  let s ← tokens resolve s ts
  let s ← onStacks Stacks.drain s
  match s.operands.values with
  | v :: _ => return v.asText
  | [] => fail (.emptyExpression (Text.join [' '] all))

/-- What remains after a token goes on from the stacks that the token left. -/
lemma remaining_cons (resolve : Text → Eval Text) (all : List Text) (s : Stacks) (t : Text)
    (ts : List Text) : remaining resolve all s (t :: ts) =
      token resolve s t >>= fun s => remaining resolve all s ts := by
  rw [remaining, tokens, bind_assoc]
  rfl

/-- On stacks without separators and in a context without count, nothing is counted. -/
lemma onStacks_of_uncounted {f : Stacks → Except EvalError Unit × Stacks} {s : Stacks}
    (hs : s.operands.separators = 0) (hctx : ctx.separators = 0)
    (hf : (f s).2.operands.separators = 0) :
    onStacks f s ctx =
      match f s with
      | (.ok _, s) => .value s ctx
      | (.error e, _) => .error e ctx := by
  obtain ⟨operators, values, separators⟩ := s
  obtain ⟨table, registry, maxDepth, chain, depth, count⟩ := ctx
  subst hs hctx
  rw [onStacks]
  dsimp only
  cases hx : f ⟨operators, ⟨values, 0⟩⟩ with
  | mk x s =>
    rw [hx] at hf
    dsimp only at hf
    cases x with
    | ok _ => dsimp only; rw [hf]
    | error e => dsimp only; rw [hf]

/-- No separator is on the stacks or was counted. -/
def Uncounted (s : Stacks) : Prop :=
  Stacks.Only (· ≠ .comma) s.operators ∧ s.operands.separators = 0

/-- On empty stacks no separator is counted. -/
lemma Uncounted.empty : Uncounted .empty :=
  ⟨fun _ h => absurd h List.not_mem_nil, rfl⟩

/-- An operator other than the separator leaves no separator counted. -/
lemma Uncounted.accept {op : Operator} (hop : op ≠ .comma) {s : Stacks} (h : Uncounted s) :
    Uncounted (Stacks.accept reg op s).2 :=
  ⟨Stacks.forall_mem_accept h.1 fun _ => hop,
    Stacks.accept_keeps Operator.separators_perform op h.1 h.2⟩

/-- Performing what is left counts no separators where none are stacked. -/
lemma Uncounted.drain {s : Stacks} (h : Uncounted s) : s.drain.2.operands.separators = 0 :=
  Stacks.drain_keeps Operator.separators_perform h.1 h.2

/-- What an expression does from given stacks on has its meaning on the first table as its
result. -/
lemma remaining_tells {resolve : Text → Eval Text} (all : List Text) {ts : List Text}
    (hts : ∀ t ∈ ts, ∀ op, Operator.ofToken? t = some op → op ≠ .comma)
    (hr : ∀ t ∈ ts, ∀ ctx, Ready reg table ctx →
      Tells reg table (Means reg table (.text t)) ctx (resolve t ctx))
    {s : Stacks} (hs : Uncounted s) (hctx : Ready reg table ctx) :
    Tells reg table (Means reg table (.tokens s ts)) ctx (remaining resolve all s ts ctx) := by
  induction ts generalizing s ctx with
  | nil =>
    rw [remaining, tokens, pure_bind, bind_apply,
      onStacks_of_uncounted hs.2 hctx.separators hs.drain]
    cases hx : s.drain with
    | mk x s' =>
      cases x with
      | error e => exact .fail hctx e
      | ok _ =>
        dsimp only
        cases hv : s'.operands.values with
        | nil => exact .fail hctx _
        | cons v vs => exact .pure hctx (.finished hx hv)
  | cons t ts ih =>
    have hts' : ∀ u ∈ ts, ∀ op, Operator.ofToken? u = some op → op ≠ .comma :=
      fun u hu => hts u (.tail _ hu)
    have hr' : ∀ u ∈ ts, ∀ ctx, Ready reg table ctx →
        Tells reg table (Means reg table (.text u)) ctx (resolve u ctx) :=
      fun u hu => hr u (.tail _ hu)
    rw [remaining_cons, bind_apply, token_apply, hctx.registry]
    cases hop : reg.lookup? t with
    | some op =>
      have hop' := hts t (.head _) op (Option.filter_eq_some_iff.1 hop).1
      have haccept : Uncounted (Stacks.accept reg op s).2 := hs.accept hop'
      dsimp only
      rw [onStacks_of_uncounted hs.2 hctx.separators haccept.2]
      cases hx : Stacks.accept reg op s with
      | mk x s' =>
        rw [hx] at haccept
        cases x with
        | error e => exact .fail hctx e
        | ok _ => exact (ih hts' hr' haccept hctx).weaken fun _ _ => .operator hop hx
    | none =>
      dsimp only
      rw [← bind_apply, bind_assoc]
      apply (hr t (.head _) ctx hctx).bind
      intro v names c hv hc
      rw [pure_bind]
      have hpush : Uncounted (s.push (.text v)) := hs
      exact (ih hts' hr' hpush hc).weaken fun _ _ => .operand hop hv

/-- A text in which nothing is to be replaced stands for itself, if there are steps to see that. -/
lemma text_of_inert {t : Text} (h : t.Inert) (n : Nat) :
    text n t = pure t ∨ text n t = exhausted := by
  match n with
  | 0 =>
    rw [text]
    exact .inr rfl
  | 1 =>
    rw [text_of_no_span h.1, references]
    exact .inr rfl
  | n + 2 => exact .inl (text_of_resolved h.1 h.2 n)

/-- The value of the constant means `v`; asked for are the constant and what its value asks for. -/
def MeansConstant (reg : Registry) (table : Table) (name v : Text) (asked : List Text) : Prop :=
  ∃ value names, table.get? name = some value ∧ Means reg table (.text value) v names ∧
    asked = name :: names

/-- The constant takes in what its value was resolved to. -/
lemma Records.define {name value v : Text} (h : Records reg table before names c)
    (hvalue : table.get? name = some value) (hv : Means reg table (.text value) v names)
    (hsharp : v.Free ['#']) :
    Records reg table before (name :: names) (c.leave.define name v) := by
  have hasked : ∀ other, table.AsksFor reg value other → table.Recalls reg c.table other := by
    rintro other ⟨u, names', hu, hother⟩
    obtain ⟨-, rfl⟩ := hv.unique hu
    exact h.asked other hother
  refine ⟨⟨h.ready.registry, h.ready.separators, h.ready.whole.insert (.of_free hsharp),
    h.ready.recorded.insert hvalue ⟨names, hv⟩ hasked⟩, fun other hother => ?_,
    fun other hother => ?_⟩
  · rcases List.mem_cons.1 hother with rfl | hother
    · exact .of_insert hvalue ⟨names, hv⟩
    · exact (h.asked other hother).insert hvalue ⟨names, hv⟩
  · rw [List.mem_cons, not_or] at hother
    rw [← h.others other hother.2]
    exact (Table.get?_insert _ _ _ _).trans (if_neg (Ne.symm hother.1))

section Runs

variable (htable : table.Tidy)

include htable

/-- A constant is resolved to the meaning of its value, and takes it in. -/
lemma constant_tells {n : Nat}
    (iht : ∀ t ctx, t.Tidy → Ready reg table ctx →
      Tells reg table (Means reg table (.text t)) ctx (text n t ctx))
    (name : Text) (hctx : Ready reg table ctx) :
    Tells reg table (MeansConstant reg table name) ctx (constant (text n) name ctx) := by
  cases hw : ctx.table.get? name with
  | none =>
    rw [constant_of_missing hw]
    exact .fail hctx _
  | some w =>
    cases henter : ctx.enter name with
    | error e =>
      rw [constant_of_refused hw henter]
      exact .fail hctx e
    | ok inner =>
      rw [constant_of_entered hw henter]
      obtain ⟨-, -, rfl⟩ := Context.eq_of_enter henter
      obtain ⟨value, hvalue, hheld⟩ := hctx.recorded.of_get? hw
      have hinner : Ready reg table (ctx.entered name) :=
        ⟨hctx.registry, hctx.separators, hctx.whole, hctx.recorded⟩
      -- what the constant holds is its value or the meaning of it, and either tells the meaning
      have htells : Tells reg table (Means reg table (.text value)) (ctx.entered name)
          (text n w (ctx.entered name)) := by
        rcases hheld with rfl | ⟨⟨names, hmeans⟩, hasked⟩
        · exact iht w _ (htable name w hvalue) hinner
        · rcases text_of_inert hmeans.inert_of_text n with htext | htext
          · rw [htext]
            exact ⟨names, hmeans, hinner, fun other hother => hasked other
              ⟨w, names, hmeans, hother⟩, fun _ _ => rfl⟩
          · rw [htext]
            trivial
      have hmeets := (text_whole areMarks_sharp n).1 w (hctx.whole name w hw) (ctx.entered name)
        hctx.whole
      cases hx : text n w (ctx.entered name) with
      | value v c =>
        rw [hx] at htells hmeets
        obtain ⟨names, hmeans, hrecords⟩ := htells
        exact ⟨name :: names, ⟨value, names, hvalue, hmeans, rfl⟩,
          hrecords.define hvalue hmeans hmeets.2⟩
      | error e c =>
        rw [hx] at htells
        exact htells
      | outOfSteps => trivial

/-- Whatever the table remembers, the evaluation of a tidy text tells its meaning. -/
lemma text_tells (n : Nat) :
    (∀ t ctx, t.Tidy → Ready reg table ctx →
      Tells reg table (Means reg table (.text t)) ctx (text n t ctx)) ∧
    ∀ t ctx, '#' ∉ t → Ready reg table ctx →
      Tells reg table (Means reg table (.text t)) ctx (references n t ctx) := by
  induction n with
  | zero =>
    refine ⟨fun t ctx _ _ => ?_, fun t ctx _ _ => ?_⟩
    · rw [text]
      trivial
    · rw [references]
      trivial
  | succ n ih =>
    obtain ⟨iht, ihr⟩ := ih
    refine ⟨fun t ctx ht hctx => ?_, fun t ctx ht hctx => ?_⟩
    · cases hcut : Span.find? t with
      | none =>
        rw [text_of_no_span hcut]
        exact ihr t ctx (ht.whole.sharp_not_mem areMarks_sharp hcut) hctx
      | some cut =>
        obtain ⟨hbefore, hsharp, hcomma, hafter⟩ := ht.of_span hcut
        have hspan : Tells reg table (Means reg table (.tokens .empty (tokenize cut.inner))) ctx
            (span (text n) cut.inner ctx) :=
          .mapError (remaining_tells _ (fun u hu op => ofToken?_ne_comma hcomma hu)
            (fun u hu ctx => iht u ctx (.of_not_mem fun hm => hsharp (mem_of_mem_tokenize hu hm)))
            .empty hctx) _
        have hmeets := span_free areMarks_sharp (text_whole areMarks_sharp n).1
          (.of_free (free_sharp_iff.2 hsharp)) hsharp ctx hctx.whole
        rw [text_of_span hcut]
        apply (hspan.ensuring hmeets).bind
        rintro v names c ⟨hmeans, hv⟩ hc
        have htidy := (hbefore.append (.of_not_mem (free_sharp_iff.1 hv))).append hafter
        exact (iht _ c htidy hc).weaken fun _ _ => .span hcut hmeans
    · have hnone := Span.find?_eq_none_of_not_mem ht
      cases hcut : Reference.find? t with
      | none =>
        rw [references_of_no_reference hcut]
        exact .pure hctx (.inert ⟨hnone, hcut⟩)
      | some cut =>
        have hconstant := constant_tells htable iht cut.inner hctx
        have hmeets := constant_free (text_whole areMarks_sharp n).1 cut.inner ctx hctx.whole
        rw [references_of_reference hcut]
        apply (hconstant.ensuring hmeets).bind
        rintro v _ c ⟨⟨value, names, hvalue, hmeans, rfl⟩, hv⟩ hc
        have hsharp : '#' ∉ cut.before ++ v ++ cut.after := by
          rw [Reference.eq_of_find? hcut] at ht
          simp only [List.mem_append, not_or] at ht ⊢
          exact ⟨⟨ht.1.1, free_sharp_iff.1 hv⟩, ht.2⟩
        exact (ihr _ c hsharp hc).weaken fun _ _ => .reference hnone hcut hvalue hmeans

end Runs

end Eval

end InlineExpr
