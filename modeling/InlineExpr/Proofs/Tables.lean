import InlineExpr.Table
import Mathlib.Tactic.Common

/-!
# Looking up what was put in

A table gives each name the value that it took in last (`Table.get?_insert`), and a name that takes
in the value that it has leaves the table as it was (`Table.insert_of_get?`).
-/

namespace InlineExpr

/-- No text comes before itself. -/
lemma Text.not_precedes_self (s : Text) : precedes s s = false := by
  induction s with
  | nil => rfl
  | cons a s ih => simp [precedes, ih]

namespace Table

open Text (precedes precedes_trans)

/-- Among entries in which a name takes in a value, only this name is looked up otherwise. -/
lemma lookup?_insertEntry (name value other : Text) (es : List (Text × Text)) :
    lookup? other (insertEntry name value es) =
      if name = other then some value else lookup? other es := by
  induction es with
  | nil => rfl
  | cons d es ih =>
    obtain ⟨n, v⟩ := d
    by_cases heq : name = n
    · subst heq
      rw [insertEntry_self]
      by_cases ho : name = other <;> simp [lookup?, ho]
    · cases hp : precedes name n with
      | true => rw [insertEntry_of_precedes heq hp, lookup?]
      | false =>
        rw [insertEntry_of_not_precedes heq hp, lookup?, ih, lookup?]
        by_cases ho : name = other
        · subst ho
          rw [if_neg (Ne.symm heq), if_pos rfl, if_pos rfl]
        · rw [if_neg ho, if_neg ho]

/-- A table holds what was put in last. -/
@[simp] lemma get?_insert (t : Table) (name value other : Text) :
    (t.insert name value).get? other = if name = other then some value else t.get? other :=
  lookup?_insertEntry name value other t.entries

/-- What holds of each name with its value holds so after an insertion if it holds of what is put
in. -/
lemma of_get?_insert {P : Text → Text → Prop} {t : Table} {name value : Text}
    (h : ∀ other v, t.get? other = some v → P other v) (hvalue : P name value) {other v : Text}
    (hv : (t.insert name value).get? other = some v) : P other v := by
  rw [get?_insert] at hv
  split at hv
  · rename_i hname
    cases hv
    exact hname ▸ hvalue
  · exact h other v hv

/-- What is looked up is an entry. -/
lemma mem_of_lookup? {name value : Text} {es : List (Text × Text)}
    (h : lookup? name es = some value) : (name, value) ∈ es := by
  induction es with
  | nil => cases h
  | cons d es ih =>
    obtain ⟨n, v⟩ := d
    rw [lookup?] at h
    by_cases heq : n = name
    · rw [if_pos heq] at h
      cases h
      rw [heq]
      exact .head _
    · rw [if_neg heq] at h
      exact .tail _ (ih h)

/-- Entries in order stay as they are when a name takes in the value that it holds. -/
lemma insertEntry_of_lookup? {name value : Text} {es : List (Text × Text)}
    (hes : es.Pairwise fun a b => precedes a.1 b.1 = true) (h : lookup? name es = some value) :
    insertEntry name value es = es := by
  induction es with
  | nil => cases h
  | cons d es ih =>
    obtain ⟨n, v⟩ := d
    obtain ⟨below, rest⟩ := List.pairwise_cons.1 hes
    rw [lookup?] at h
    by_cases heq : n = name
    · rw [if_pos heq] at h
      cases h
      rw [heq, insertEntry_self]
    · rw [if_neg heq] at h
      have hn : precedes n name = true := below _ (mem_of_lookup? h)
      have hname : precedes name n = false := by
        cases hp : precedes name n with
        | false => rfl
        | true =>
          rw [← Text.not_precedes_self name]
          exact (precedes_trans hp hn).symm
      rw [insertEntry_of_not_precedes (Ne.symm heq) hname, ih rest h]

/-- A table stays as it is when a name takes in the value that it holds. -/
lemma insert_of_get? {t : Table} {name value : Text} (h : t.get? name = some value) :
    t.insert name value = t := by
  obtain ⟨entries, listsNames, sorted⟩ := t
  rw [insert, mk.injEq]
  exact ⟨insertEntry_of_lookup? sorted h, rfl⟩

/-- An empty table has no values. -/
@[simp] lemma get?_empty (listsNames : Bool) (name : Text) :
    (empty listsNames).get? name = none := rfl

end Table

end InlineExpr
