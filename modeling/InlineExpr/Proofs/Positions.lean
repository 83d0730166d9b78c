import InlineExpr.Text.Position
import Mathlib.Data.List.Basic
import Mathlib.Tactic.Common

/-!
# Positions and the places they mark

A position marks the place behind a piece of text if its line tells the newlines in that piece, and
its column the bytes behind the last of them (`Position.marks_iff`). In one text, no two places are
marked by the same position (`Position.Marks.unique`).
-/

namespace InlineExpr

namespace Text

/-- An empty text takes no bytes. -/
@[simp] lemma byteSize_nil : byteSize [] = 0 := rfl

/-- A text takes the bytes of its first character and those of the rest. -/
@[simp] lemma byteSize_cons (c : Char) (t : Text) :
    byteSize (c :: t) = c.utf8Size + byteSize t := rfl

/-- Texts in a row take the bytes of both. -/
@[simp] lemma byteSize_append (s t : Text) : byteSize (s ++ t) = byteSize s + byteSize t := by
  induction s with
  | nil => simp
  | cons c s ih => simp [ih, Nat.add_assoc]

/-- The bytes of a text do not depend on the order of its characters. -/
lemma byteSize_reverse (t : Text) : byteSize t.reverse = byteSize t := by
  induction t with
  | nil => rfl
  | cons c t ih => simp [ih, Nat.add_comm]

/-- Every character takes some bytes. -/
lemma eq_nil_of_byteSize {t : Text} (h : t.byteSize = 0) : t = [] := by
  cases t with
  | nil => rfl
  | cons c t =>
    have hpos := c.utf8Size_pos
    rw [byteSize_cons] at h
    omega

end Text

namespace Position

/-- The place behind `front` is in the line and the column of `p`, both counted from one: lines are
counted by newlines, columns by the bytes since the last newline or since the beginning. -/
structure Marks (p : Position) (front : Text) : Prop where
  line : p.line = front.count '\n' + 1
  column : ∃ lines last : Text, front = lines ++ last ∧
    (lines = [] ∨ lines.getLast? = some '\n') ∧ '\n' ∉ last ∧ p.column = last.byteSize + 1

/-- The position before the end piece of a text is the one after the piece in front of it. -/
@[simp] lemma before_append (consumed rest : Text) :
    before (consumed ++ rest) rest = after consumed := by
  simp [before]

/-- The position behind a text marks its end. -/
lemma marks_after (front : Text) : (after front).Marks front := by
  refine ⟨Nat.add_comm _ _, (front.reverse.dropWhile (· != '\n')).reverse,
    (front.reverse.takeWhile (· != '\n')).reverse, ?_, ?_, fun h => ?_, ?_⟩
  · rw [← List.reverse_append, List.takeWhile_append_dropWhile, List.reverse_reverse]
  · rw [List.reverse_eq_nil_iff, List.getLast?_reverse]
    have stop := List.head?_dropWhile_not (· != '\n') front.reverse
    cases hlines : front.reverse.dropWhile (· != '\n') with
    | nil => exact .inl rfl
    | cons c lines =>
      rw [hlines] at stop
      exact .inr (by simpa using stop)
  · have hne := List.all_eq_true.1 List.all_takeWhile _ (List.mem_reverse.1 h)
    simp at hne
  · rw [Text.byteSize_reverse]
    exact Nat.add_comm _ _

/-- A piece of text is marked by one position. -/
lemma marks_iff {p : Position} {front : Text} : p.Marks front ↔ p = after front := by
  constructor
  · rintro ⟨hline, lines, last, rfl, hlines, hlast, hcolumn⟩
    obtain ⟨line, column⟩ := p
    have hall : ∀ c ∈ last.reverse, (c != '\n') = true := fun c hc =>
      bne_iff_ne.2 fun heq => hlast (heq ▸ List.mem_reverse.1 hc)
    have hstop : lines.reverse.takeWhile (· != '\n') = [] := by
      rcases hlines with rfl | hlines
      · rfl
      · rw [← List.head?_reverse] at hlines
        cases hr : lines.reverse with
        | nil => rfl
        | cons c r =>
          rw [hr] at hlines
          cases hlines
          rfl
    rw [after, List.reverse_append, List.takeWhile_append_of_pos hall, hstop, List.append_nil,
      Text.byteSize_reverse]
    dsimp only at hline hcolumn
    rw [hline, hcolumn, Nat.add_comm 1, Nat.add_comm 1]
  · rintro rfl
    exact marks_after front

/-- What stands between two places with the same position has neither newlines nor bytes. -/
lemma eq_nil_of_after_append {front t : Text} (h : after (front ++ t) = after front) : t = [] := by
  rw [after, after, Position.mk.injEq, List.count_append, List.reverse_append] at h
  obtain ⟨hline, hcolumn⟩ := h
  have hall : ∀ c ∈ t.reverse, (c != '\n') = true := by
    intro c hc
    refine bne_iff_ne.2 fun heq => ?_
    have hmem := List.count_pos_iff.2 (heq ▸ List.mem_reverse.1 hc)
    omega
  rw [List.takeWhile_append_of_pos hall, Text.byteSize_append, Text.byteSize_reverse] at hcolumn
  exact Text.eq_nil_of_byteSize (by omega)

/-- A position marks at most one place of a text. -/
lemma Marks.unique {p : Position} {front rest front' rest' : Text} (h : p.Marks front)
    (h' : p.Marks front') (heq : front' ++ rest' = front ++ rest) : front' = front := by
  have hafter := (marks_iff.1 h).symm.trans (marks_iff.1 h')
  rcases List.append_eq_append_iff.1 heq with ⟨t, rfl, -⟩ | ⟨t, rfl, -⟩
  · rw [eq_nil_of_after_append hafter, List.append_nil]
  · rw [eq_nil_of_after_append hafter.symm, List.append_nil]

end Position

end InlineExpr
