import InlineExpr.Text.Basic

/-!
# The order of texts

Texts are ordered like the words of a dictionary, character by character and each character by its
code point. This is a strict linear order.
-/

namespace InlineExpr.Text

/-- Whether a text comes before another one, character by character. -/
def precedes : Text → Text → Bool
  | _, [] => false
  | [], _ :: _ => true
  | a :: s, b :: t => decide (a.toNat < b.toNat) || (a == b && precedes s t)

/-- How two texts are ordered. -/
def order (s t : Text) : Ordering :=
  if s = t then .eq else if precedes s t then .lt else .gt

/-- Texts are ordered by their first characters, and by the rest where these are the same. -/
theorem precedes_cons {a b : Char} {s t : Text} :
    precedes (a :: s) (b :: t) = true ↔ a.toNat < b.toNat ∨ a = b ∧ precedes s t = true := by
  simp [precedes]

/-- The order of texts is transitive. -/
theorem precedes_trans {s t u : Text} (hst : precedes s t = true) (htu : precedes t u = true) :
    precedes s u = true := by
  induction s generalizing t u with
  | nil =>
    cases u with
    | nil => cases t <;> cases htu
    | cons c u => rfl
  | cons a s ih =>
    cases t with
    | nil => cases hst
    | cons b t =>
      cases u with
      | nil => cases htu
      | cons c u =>
        rw [precedes_cons] at hst htu ⊢
        rcases hst with hab | ⟨rfl, hst⟩
        · rcases htu with hbc | ⟨rfl, _⟩
          · exact .inl (Nat.lt_trans hab hbc)
          · exact .inl hab
        · rcases htu with hbc | ⟨rfl, htu⟩
          · exact .inl hbc
          · exact .inr ⟨rfl, ih hst htu⟩

/-- Of two different texts one comes before the other. -/
theorem precedes_of_not_precedes {s t : Text} (hne : s ≠ t) (h : precedes s t = false) :
    precedes t s = true := by
  induction s generalizing t with
  | nil =>
    cases t with
    | nil => exact absurd rfl hne
    | cons b t => cases h
  | cons a s ih =>
    cases t with
    | nil => rfl
    | cons b t =>
      have hno : ¬ (a.toNat < b.toNat ∨ a = b ∧ precedes s t = true) := by
        rw [← precedes_cons, h]
        exact Bool.false_ne_true
      rw [precedes_cons]
      by_cases hab : a = b
      · subst hab
        have hst : precedes s t = false := by
          cases hp : precedes s t with
          | false => rfl
          | true => exact absurd (.inr ⟨rfl, hp⟩) hno
        exact .inr ⟨rfl, ih (fun he => hne (by rw [he])) hst⟩
      · have hnat : a.toNat ≠ b.toNat := fun he => hab (Char.toNat_inj.1 he)
        have hge : ¬ a.toNat < b.toNat := fun hlt => hno (.inl hlt)
        exact .inl (by omega)

end InlineExpr.Text
