import InlineExpr.Proofs.Operands
import InlineExpr.Proofs.Settling

/-!
# What an operator touches

An operator that is applied works on its own part of the stacks (`Stacks.apply_footprint`). One that
computes takes its operands off the values, and those below them stay as they are
(`Reduction.Consumes`). A parenthesis applies operators that it takes off the stack, which may be
parentheses themselves (`Stacks.Applies`); each of them comes off for good, so this ends.
-/

namespace InlineExpr

namespace Reduction

variable {α β : Type}

/-- With a result a reduction has taken `n` values off the top, and with an error at most so many.
The others are as they were. -/
def Consumes (r : Reduction α) (n : Nat) : Prop :=
  ∀ values, match r.apply values with
    | (.ok _, rest) => n ≤ values.length ∧ rest = values.drop n
    | (.error _, rest) => ∃ k ≤ n, rest = values.drop k

/-- One reduction after another takes the operands of both. -/
lemma Consumes.bind {r : Reduction α} {f : α → Reduction β} {m n : Nat} (hr : r.Consumes m)
    (hf : ∀ a, (f a).Consumes n) : (r >>= f).Consumes (m + n) := by
  intro values
  have first := hr values
  rw [apply_bind]
  cases hx : r.apply values with
  | mk x rest =>
    rw [hx] at first
    cases x with
    | error e =>
      obtain ⟨k, hk, hrest⟩ := first
      exact ⟨k, Nat.le_add_right_of_le hk, hrest⟩
    | ok a =>
      obtain ⟨hm, rfl⟩ := first
      have second := hf a (values.drop m)
      dsimp only
      cases hy : (f a).apply (values.drop m) with
      | mk y left =>
        rw [hy] at second
        cases y with
        | error e =>
          obtain ⟨k, hk, rfl⟩ := second
          exact ⟨m + k, Nat.add_le_add_left hk m, List.drop_drop⟩
        | ok b =>
          obtain ⟨hn, rfl⟩ := second
          rw [List.length_drop] at hn
          exact ⟨by omega, List.drop_drop⟩

end Reduction

namespace Operator

open Reduction

end Operator

namespace Stacks

variable {reg : Registry}

/-- What a closing parenthesis leaves of the stacked operators: what is below the topmost opening
parenthesis of the registry, without the function that stands directly below it if one does. -/
inductive Closed (reg : Registry) : List Entry → List Entry → Prop where
  | group {above paren left} : (∀ e ∈ above, reg.owns e .openParen = false) →
    reg.owns paren .openParen = true → (∀ f ∈ left.head?, f.operator.kind ≠ .function) →
    Closed reg (above ++ paren :: left) left
  | call {above paren f left} : (∀ e ∈ above, reg.owns e .openParen = false) →
    reg.owns paren .openParen = true → f.operator.kind = .function →
    Closed reg (above ++ paren :: f :: left) left

/-- Operators above the group come off with it. -/
lemma Closed.cons {e : Entry} {ops left : List Entry} (he : reg.owns e .openParen = false)
    (h : Closed reg ops left) : Closed reg (e :: ops) left := by
  cases h with
  | group habove hparen hleft => exact .group (List.forall_mem_cons.2 ⟨he, habove⟩) hparen hleft
  | call habove hparen hf => exact .call (List.forall_mem_cons.2 ⟨he, habove⟩) hparen hf

end Stacks

end InlineExpr
