import InlineExpr.Proofs.Marks
import InlineExpr.Stacks

/-!
# What texts mean on a fixed table

The meaning of a text is what it is replaced by when no constant ever takes anything in
(`Means`). The spans are replaced first and the references after them, the operands of a span by
their own meanings; there is no depth limit and no chain of constants, and what fails has no
meaning. A subject has one meaning and asks for certain constants (`Means.unique`), and nothing is
left to replace in its meaning (`Means.inert_of_text`).
-/

namespace InlineExpr

/-- What may have a meaning: a text, or what is left of an expression on the stacks. -/
inductive Subject where
  | text (t : Text)
  | tokens (s : Stacks) (ts : List Text)

/-- A text in which nothing is to be replaced. -/
def Text.Inert (t : Text) : Prop :=
  Span.find? t = none ∧ Reference.find? t = none

/-- On the table, the subject means a text, and asks for the constants of certain names. -/
inductive Means (reg : Registry) (table : Table) : Subject → Text → List Text → Prop
  | inert {t} : t.Inert → Means reg table (.text t) t []
  | span {t cut v out names names'} : Span.find? t = some cut →
    Means reg table (.tokens .empty (tokenize cut.inner)) v names →
    Means reg table (.text (cut.before ++ v ++ cut.after)) out names' →
    Means reg table (.text t) out (names ++ names')
  | reference {t cut value v out names names'} : Span.find? t = none →
    Reference.find? t = some cut → table.get? cut.inner = some value →
    Means reg table (.text value) v names →
    Means reg table (.text (cut.before ++ v ++ cut.after)) out names' →
    Means reg table (.text t) out (cut.inner :: names ++ names')
  | finished {s s' v vs} : s.drain = (.ok (), s') → s'.operands.values = v :: vs →
    Means reg table (.tokens s []) v.asText []
  | operator {s s' t ts op out names} : reg.lookup? t = some op →
    s.accept reg op = (.ok (), s') → Means reg table (.tokens s' ts) out names →
    Means reg table (.tokens s (t :: ts)) out names
  | operand {s t ts v out names names'} : reg.lookup? t = none →
    Means reg table (.text t) v names →
    Means reg table (.tokens (s.push (.text v)) ts) out names' →
    Means reg table (.tokens s (t :: ts)) out (names ++ names')

namespace Means

variable {reg : Registry} {table : Table} {q : Subject} {t out out' : Text}
  {names names' : List Text}

/-- A subject has one meaning, and asks for the same constants whenever it has it. -/
lemma unique (h : Means reg table q out names) (h' : Means reg table q out' names') :
    out = out' ∧ names = names' := by
  induction h generalizing out' names' with
  | inert hinert =>
    cases h' with
    | inert _ => exact ⟨rfl, rfl⟩
    | span hcut _ _ => cases hinert.1.symm.trans hcut
    | reference _ hcut _ _ _ => cases hinert.2.symm.trans hcut
  | span hcut _ _ ihv ih =>
    cases h' with
    | inert hinert => cases hinert.1.symm.trans hcut
    | span hcut' hv h =>
      cases hcut.symm.trans hcut'
      obtain ⟨rfl, rfl⟩ := ihv hv
      obtain ⟨rfl, rfl⟩ := ih h
      exact ⟨rfl, rfl⟩
    | reference hspan _ _ _ _ => cases hspan.symm.trans hcut
  | reference hspan hcut hvalue _ _ ihv ih =>
    cases h' with
    | inert hinert => cases hinert.2.symm.trans hcut
    | span hcut _ _ => cases hspan.symm.trans hcut
    | reference _ hcut' hvalue' hv h =>
      cases hcut.symm.trans hcut'
      cases hvalue.symm.trans hvalue'
      obtain ⟨rfl, rfl⟩ := ihv hv
      obtain ⟨rfl, rfl⟩ := ih h
      exact ⟨rfl, rfl⟩
  | finished hdrain hvalues =>
    cases h' with
    | finished hdrain' hvalues' =>
      cases hdrain.symm.trans hdrain'
      cases hvalues.symm.trans hvalues'
      exact ⟨rfl, rfl⟩
  | operator hop haccept _ ih =>
    cases h' with
    | operator hop' haccept' h =>
      cases hop.symm.trans hop'
      cases haccept.symm.trans haccept'
      exact ih h
    | operand hnone _ _ => cases hop.symm.trans hnone
  | operand hnone _ _ ihv ih =>
    cases h' with
    | operator hop _ _ => cases hop.symm.trans hnone
    | operand _ hv h =>
      obtain ⟨rfl, rfl⟩ := ihv hv
      obtain ⟨rfl, rfl⟩ := ih h
      exact ⟨rfl, rfl⟩

/-- Nothing is left to replace in the meaning of a text. -/
lemma inert_of_text (h : Means reg table (.text t) out names) : out.Inert := by
  generalize hq : Subject.text t = q at h
  induction h generalizing t with
  | inert hinert => exact hinert
  | span _ _ _ _ ih => exact ih rfl
  | reference _ _ _ _ _ _ ih => exact ih rfl
  | finished _ _ => cases hq
  | operator _ _ _ _ => cases hq
  | operand _ _ _ _ _ => cases hq

end Means

end InlineExpr
