import InlineExpr.Text.Order

/-!
# Tables of constants

A table gives constants their values, one each, and keeps them in the order of their names. Some
tables do not tell which names they hold; then there is nothing to suggest for a name that is
missing.
-/

namespace InlineExpr

/-- The constants with their values. -/
structure Table where
  /-- Names and values, in ascending order of the names. -/
  entries : List (Text × Text)
  /-- Whether the table tells its names. -/
  listsNames : Bool
  sorted : entries.Pairwise fun a b => a.1.precedes b.1 = true
deriving DecidableEq

namespace Table

open Text (precedes precedes_trans precedes_of_not_precedes)

/-- The value of the first entry with the name. -/
def lookup? (name : Text) : List (Text × Text) → Option Text
  | [] => none
  | (n, v) :: es => if n = name then some v else lookup? name es

/-- Entries with `name` holding `value`, in order if they were. -/
def insertEntry (name value : Text) : List (Text × Text) → List (Text × Text)
  | [] => [(name, value)]
  | (n, v) :: es =>
    if name = n then (name, value) :: es
    else if precedes name n then (name, value) :: (n, v) :: es
    else (n, v) :: insertEntry name value es

/-- An entry with the same name is replaced. -/
theorem insertEntry_self (name value v : Text) (es : List (Text × Text)) :
    insertEntry name value ((name, v) :: es) = (name, value) :: es := by
  rw [insertEntry, if_pos rfl]

/-- An entry is put in front of those that it precedes. -/
theorem insertEntry_of_precedes {name n : Text} (hne : name ≠ n) (h : precedes name n = true)
    (value v : Text) (es : List (Text × Text)) :
    insertEntry name value ((n, v) :: es) = (name, value) :: (n, v) :: es := by
  rw [insertEntry, if_neg hne, if_pos h]

/-- An entry is put behind those that precede it. -/
theorem insertEntry_of_not_precedes {name n : Text} (hne : name ≠ n)
    (h : precedes name n = false) (value v : Text) (es : List (Text × Text)) :
    insertEntry name value ((n, v) :: es) = (n, v) :: insertEntry name value es := by
  rw [insertEntry, if_neg hne, h, if_neg Bool.false_ne_true]

/-- Inserting brings in no other name. -/
theorem mem_insertEntry {name value : Text} {es : List (Text × Text)} {e : Text × Text}
    (h : e ∈ insertEntry name value es) : e.1 = name ∨ e ∈ es := by
  induction es with
  | nil =>
    obtain rfl := List.mem_singleton.1 h
    exact .inl rfl
  | cons d es ih =>
    obtain ⟨n, v⟩ := d
    by_cases heq : name = n
    · subst heq
      rw [insertEntry_self] at h
      cases h with
      | head => exact .inl rfl
      | tail _ h => exact .inr (.tail _ h)
    · cases hp : precedes name n with
      | true =>
        rw [insertEntry_of_precedes heq hp] at h
        cases h with
        | head => exact .inl rfl
        | tail _ h => exact .inr h
      | false =>
        rw [insertEntry_of_not_precedes heq hp] at h
        cases h with
        | head => exact .inr (.head _)
        | tail _ h =>
          cases ih h with
          | inl h => exact .inl h
          | inr h => exact .inr (.tail _ h)

/-- Inserting keeps the entries in order. -/
theorem sorted_insertEntry {name value : Text} {es : List (Text × Text)}
    (h : es.Pairwise fun a b => precedes a.1 b.1 = true) :
    (insertEntry name value es).Pairwise fun a b => precedes a.1 b.1 = true := by
  induction es with
  | nil => exact List.pairwise_singleton _ _
  | cons d es ih =>
    obtain ⟨n, v⟩ := d
    obtain ⟨below, rest⟩ := List.pairwise_cons.1 h
    by_cases heq : name = n
    · subst heq
      rw [insertEntry_self]
      exact List.pairwise_cons.2 ⟨below, rest⟩
    · cases hp : precedes name n with
      | true =>
        rw [insertEntry_of_precedes heq hp]
        refine List.pairwise_cons.2 ⟨?_, h⟩
        intro e he
        cases he with
        | head => exact hp
        | tail _ he => exact precedes_trans hp (below e he)
      | false =>
        rw [insertEntry_of_not_precedes heq hp]
        refine List.pairwise_cons.2 ⟨?_, ih rest⟩
        intro e he
        cases mem_insertEntry he with
        | inl hn =>
          rw [hn]
          exact precedes_of_not_precedes heq hp
        | inr he => exact below e he

/-- The table with no constants. -/
def empty (listsNames : Bool) : Table :=
  ⟨[], listsNames, .nil⟩

/-- The value of a constant. -/
def get? (t : Table) (name : Text) : Option Text :=
  lookup? name t.entries

/-- Gives a constant a value, whether it had one or not. -/
def insert (t : Table) (name value : Text) : Table where
  entries := insertEntry name value t.entries
  listsNames := t.listsNames
  sorted := sorted_insertEntry t.sorted

/-- The names that the table tells, in ascending order. -/
def names (t : Table) : List Text :=
  if t.listsNames then t.entries.map (·.1) else []

def size (t : Table) : Nat :=
  t.entries.length

/-- The table with each definition of a list put in after those before it. -/
def ofList (listsNames : Bool) (defs : List (Text × Text)) : Table :=
  defs.foldl (fun t d => t.insert d.1 d.2) (empty listsNames)

end Table

end InlineExpr
