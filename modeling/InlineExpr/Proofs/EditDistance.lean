import InlineExpr.Text.EditDistance
import Mathlib.Order.Bounds.Defs

/-!
# The least number of edits

The rows of distances are computed by the recursion of the edit distance on both texts
(`editDistance_cons_cons`). No edit changes the distance to a text by more than one
(`Edit.le_succ`), and as many edits as the distance says do turn one text into the other
(`edits_editDistance`). So the distance is the least number of edits (`isLeast_editDistance`).
-/

namespace InlineExpr.Text

/-- A text with one character inserted, deleted or replaced. -/
inductive Edit : Text → Text → Prop
  | insert (c : Char) (t : Text) : Edit t (c :: t)
  | delete (c : Char) (t : Text) : Edit (c :: t) t
  | replace (c d : Char) (t : Text) : Edit (c :: t) (d :: t)
  | behind (c : Char) {t u : Text} : Edit t u → Edit (c :: t) (c :: u)

/-- As many edits in a row as told. -/
inductive Edits : Nat → Text → Text → Prop
  | nil (t : Text) : Edits 0 t t
  | cons {n : Nat} {s t u : Text} : Edit s t → Edits n t u → Edits (n + 1) s u

/-- Edits can be made behind one and the same character. -/
lemma Edits.behind (c : Char) {n : Nat} {s t : Text} (h : Edits n s t) :
    Edits n (c :: s) (c :: t) := by
  induction h with
  | nil t => exact .nil (c :: t)
  | cons hstep _ ih => exact .cons (.behind c hstep) ih

variable {s t : Text}

/-- Of two ways to edit, the shorter one can be taken. -/
lemma Edits.min {m n : Nat} (hm : Edits m s t) (hn : Edits n s t) :
    Edits (min m n) s t := by
  cases Nat.le_total m n with
  | inl hle => rwa [Nat.min_eq_left hle]
  | inr hle => rwa [Nat.min_eq_right hle]

/-- The first row counts insertions only. -/
lemma distanceRow_nil (t : Text) : distanceRow [] t = baseRow t := rfl

/-- Every character adds a row to the last one. -/
lemma distanceRow_cons (x : Char) (s t : Text) :
    distanceRow (x :: s) t = nextRow x t (distanceRow s t) := rfl

/-- The row for a shorter text is a part of the row. -/
lemma tail_distanceRow (s : Text) (y : Char) (t : Text) :
    (distanceRow s (y :: t)).tail = distanceRow s t := by
  induction s with
  | nil => rfl
  | cons x s ih =>
    rw [distanceRow_cons, distanceRow_cons, nextRow, List.tail_cons, ih]

/-- An empty text is as far from another as that is long. -/
lemma editDistance_nil (t : Text) : editDistance [] t = t.length := by
  rw [editDistance, distanceRow_nil]
  cases t with
  | nil => rfl
  | cons y t => rfl

/-- Every character counts in the distance to an empty text. -/
lemma editDistance_cons_nil (x : Char) (s : Text) :
    editDistance (x :: s) [] = editDistance s [] + 1 := rfl

/-- The distance is the least of those by a deletion, an insertion or a replacement. -/
lemma editDistance_cons_cons (x y : Char) (s t : Text) :
    editDistance (x :: s) (y :: t) =
      min (editDistance s (y :: t) + 1)
        (min (editDistance (x :: s) t + 1) (editDistance s t + if x = y then 0 else 1)) := by
  rw [editDistance, distanceRow_cons, nextRow, tail_distanceRow, ← distanceRow_cons]
  rfl

/-- A text is no edit away from itself. -/
lemma editDistance_self (t : Text) : editDistance t t = 0 := by
  induction t with
  | nil => rfl
  | cons c t ih =>
    rw [editDistance_cons_cons, ih, if_pos rfl, Nat.min_zero, Nat.min_zero]

/-- Deleting a character saves one edit at most. -/
lemma editDistance_delete (c : Char) (s t : Text) :
    editDistance (c :: s) t ≤ editDistance s t + 1 := by
  cases t with
  | nil => exact Nat.le_refl _
  | cons y t =>
    rw [editDistance_cons_cons]
    exact Nat.min_le_left _ _

/-- One more character of the other text costs one edit at most. -/
lemma editDistance_cons_right (s : Text) (y : Char) (t : Text) :
    editDistance s (y :: t) ≤ editDistance s t + 1 := by
  cases s with
  | nil =>
    rw [editDistance_nil, editDistance_nil]
    exact Nat.le_refl _
  | cons x s =>
    rw [editDistance_cons_cons]
    exact Nat.le_trans (Nat.min_le_right _ _) (Nat.min_le_left _ _)

/-- Inserting a character saves one edit at most. -/
lemma editDistance_insert (c : Char) (s t : Text) :
    editDistance s t ≤ editDistance (c :: s) t + 1 := by
  induction t with
  | nil =>
    rw [editDistance_cons_nil]
    omega
  | cons y t ih =>
    have hright := editDistance_cons_right s y t
    rw [editDistance_cons_cons]
    omega

/-- Replacing a character saves one edit at most. -/
lemma editDistance_replace (c d : Char) (s t : Text) :
    editDistance (c :: s) t ≤ editDistance (d :: s) t + 1 := by
  induction t with
  | nil => exact Nat.le_succ _
  | cons y t ih =>
    rw [editDistance_cons_cons, editDistance_cons_cons]
    split <;> split <;> omega

/-- An edit changes the distance to a text by one at most. -/
lemma Edit.le_succ (h : Edit s t) (u : Text) : editDistance s u ≤ editDistance t u + 1 := by
  induction h generalizing u with
  | insert c t => exact editDistance_insert c t u
  | delete c t => exact editDistance_delete c t u
  | replace c d t => exact editDistance_replace c d t u
  | @behind c s t _ ih =>
    induction u with
    | nil => exact Nat.succ_le_succ (ih [])
    | cons y u ihu =>
      have hlong := ih (y :: u)
      have hshort := ih u
      rw [editDistance_cons_cons, editDistance_cons_cons]
      omega

/-- Edits in a row are no fewer than the distance. -/
lemma Edits.editDistance_le {n : Nat} (h : Edits n s t) : editDistance s t ≤ n := by
  induction h with
  | nil t => exact Nat.le_of_eq (editDistance_self t)
  | cons hstep _ ih => exact Nat.le_trans (hstep.le_succ _) (Nat.succ_le_succ ih)

/-- A text is made from nothing in as many edits as it is long. -/
lemma edits_of_nil (t : Text) : Edits t.length [] t := by
  induction t with
  | nil => exact .nil []
  | cons c t ih => exact .cons (.insert c []) (ih.behind c)

/-- What is gained at the first characters tells the edit with which to begin. -/
lemma edits_editDistance (s t : Text) : Edits (editDistance s t) s t := by
  induction s generalizing t with
  | nil =>
    rw [editDistance_nil]
    exact edits_of_nil t
  | cons x s ih =>
    induction t with
    | nil => exact .cons (.delete x s) (ih [])
    | cons y t iht =>
      have hdelete := Edits.cons (.delete x s) (ih (y :: t))
      have hinsert := Edits.cons (.insert y (x :: s)) (iht.behind y)
      have hkeep : Edits (editDistance s t + if x = y then 0 else 1) (x :: s) (y :: t) := by
        by_cases hxy : x = y
        · subst hxy
          rw [if_pos rfl]
          exact (ih t).behind x
        · rw [if_neg hxy]
          exact .cons (.replace x y s) ((ih t).behind y)
      rw [editDistance_cons_cons]
      exact hdelete.min (hinsert.min hkeep)

/-- The distance is the least number of edits that turn one text into the other. -/
lemma isLeast_editDistance (s t : Text) : IsLeast {n | Edits n s t} (editDistance s t) :=
  ⟨edits_editDistance s t, fun _ h => h.editDistance_le⟩

end InlineExpr.Text
