import InlineExpr.Proofs.Tables

/-!
# Tables that remember

While constants are resolved, the table holds what some of them are resolved to, and of the others
what it held at first. What a value is resolved to, and which constants it asks for on the way, are
parameters here. A constant that was resolved does not ask again, so all that it asked for is to be
remembered with it (`Table.Remembers`).
-/

namespace InlineExpr

namespace Table

/-- The table `now` holds what the constant was resolved to, which had its value on `table`. -/
def Holds (resolves : Text → Text → Prop) (table now : Table) (name : Text) : Prop :=
  ∃ value v, table.get? name = some value ∧ resolves value v ∧ now.get? name = some v

/-- Every constant of `now` holds what it held on `table`, or what that was resolved to, and then
all constants that it asked for hold what they were resolved to. -/
def Remembers (resolves asks : Text → Text → Prop) (table now : Table) : Prop :=
  ∀ name, now.get? name = table.get? name ∨
    ∃ value v, table.get? name = some value ∧ resolves value v ∧ now.get? name = some v ∧
      ∀ other, asks value other → Holds resolves table now other

variable {resolves asks : Text → Text → Prop} {table now next : Table} {name value v w : Text}

/-- A table remembers itself. -/
lemma Remembers.refl (resolves asks : Text → Text → Prop) (table : Table) :
    Remembers resolves asks table table :=
  fun _ => .inl rfl

/-- What a constant holds is told by its entry alone. -/
lemma Holds.congr (h : Holds resolves table now name)
    (hget : next.get? name = now.get? name) : Holds resolves table next name := by
  obtain ⟨value, v, hvalue, hv, hnow⟩ := h
  exact ⟨value, v, hvalue, hv, hget.trans hnow⟩

/-- A constant holds what it was resolved to once it took that in. -/
lemma Holds.of_insert (hvalue : table.get? name = some value) (hv : resolves value v) :
    Holds resolves table (now.insert name v) name :=
  ⟨value, v, hvalue, hv, by rw [get?_insert, if_pos rfl]⟩

/-- What a constant holds is not lost when another takes in what it was resolved to. -/
lemma Holds.insert {other : Text} (h : Holds resolves table now other)
    (hvalue : table.get? name = some value) (hv : resolves value v) :
    Holds resolves table (now.insert name v) other := by
  by_cases hother : name = other
  · subst hother
    exact .of_insert hvalue hv
  · exact h.congr (by rw [get?_insert, if_neg hother])

/-- A constant takes in what it is resolved to when all constants that it asks for have done so. -/
lemma Remembers.insert (h : Remembers resolves asks table now)
    (hvalue : table.get? name = some value) (hv : resolves value v)
    (hasked : ∀ other, asks value other → Holds resolves table now other) :
    Remembers resolves asks table (now.insert name v) := by
  intro other
  by_cases hother : name = other
  · subst hother
    exact .inr ⟨value, v, hvalue, hv, by rw [get?_insert, if_pos rfl],
      fun n hn => (hasked n hn).insert hvalue hv⟩
  · rcases h other with hsame | ⟨u, w, hu, hw, hnow, hclosed⟩
    · exact .inl (by rw [get?_insert, if_neg hother, hsame])
    · exact .inr ⟨u, w, hu, hw, by rw [get?_insert, if_neg hother, hnow],
        fun n hn => (hclosed n hn).insert hvalue hv⟩

/-- A constant that is found holds its value, or what that is resolved to. -/
lemma Remembers.of_get? (h : Remembers resolves asks table now) (hw : now.get? name = some w) :
    ∃ value, table.get? name = some value ∧ (w = value ∨ resolves value w ∧
      ∀ other, asks value other → Holds resolves table now other) := by
  rcases h name with hsame | ⟨value, v, hvalue, hv, hnow, hclosed⟩
  · exact ⟨w, hsame.symm.trans hw, .inl rfl⟩
  · cases hw.symm.trans hnow
    exact ⟨value, hvalue, .inr ⟨hv, hclosed⟩⟩

/-- A constant that was not resolved has the value it had. -/
lemma Remembers.get?_eq (h : Remembers resolves asks table now)
    (hname : ¬Holds resolves table now name) : now.get? name = table.get? name := by
  rcases h name with hsame | ⟨value, v, hvalue, hv, hnow, _⟩
  · exact hsame
  · exact absurd ⟨value, v, hvalue, hv, hnow⟩ hname

/-- What held on the first table what it was resolved to is remembered. -/
lemma Remembers.holds (h : Remembers resolves asks table now)
    (hname : Holds resolves table table name) : Holds resolves table now name := by
  by_cases hnow : Holds resolves table now name
  · exact hnow
  · exact hname.congr (h.get?_eq hnow)

/-- A constant that is missing now was missing. -/
lemma Remembers.get?_eq_none (h : Remembers resolves asks table now)
    (hname : now.get? name = none) : table.get? name = none := by
  rcases h name with hsame | ⟨_, _, _, _, hnow, _⟩
  · exact hsame.symm.trans hname
  · cases hname.symm.trans hnow

end Table

end InlineExpr
