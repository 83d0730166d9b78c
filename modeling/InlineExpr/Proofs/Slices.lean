import InlineExpr.Proofs.Operands
import Mathlib.Tactic.Common

/-!
# Slices of texts

A slice is what stands in a text between two places, told by what is in front of them
(`Text.IsSlice`). So slices that meet make up a text, and a slice of a slice is one of the text
(`IsSlice.append`, `IsSlice.trans`). The operator for slices cuts out exactly these, from an index
to another one or to the end (`Operator.substring_slices`).
-/

namespace InlineExpr

namespace Text

/-- `piece` stands in `t` from index `first` up to, but not including, index `last`. -/
def IsSlice (t : Text) (first last : Int) (piece : Text) : Prop :=
  ∃ before after, t = before ++ piece ++ after ∧ first = before.length ∧
    last = before.length + piece.length

namespace IsSlice

variable {t p q : Text} {first last : Int}

/-- The ends of a slice are in order and within the text. -/
lemma within (h : t.IsSlice first last p) :
    0 ≤ first ∧ first ≤ last ∧ last ≤ t.length := by
  obtain ⟨before, after, rfl, rfl, rfl⟩ := h
  simp only [List.length_append]
  omega

/-- A text is made up of its slices up to an index and from there. -/
lemma append {k : Int} (hp : t.IsSlice 0 k p) (hq : t.IsSlice k t.length q) : p ++ q = t := by
  obtain ⟨front, after, ht, hzero, rfl⟩ := hp
  obtain ⟨before, back, ht', hbefore, hend⟩ := hq
  obtain rfl : front = [] := List.eq_nil_of_length_eq_zero (by omega)
  obtain rfl : back = [] := by
    have hlength := congrArg List.length ht'
    rw [List.length_append, List.length_append] at hlength
    exact List.eq_nil_of_length_eq_zero (by omega)
  rw [List.nil_append] at ht
  rw [List.append_nil] at ht'
  obtain ⟨rfl, -⟩ := List.append_inj (ht.symm.trans ht') (by omega)
  exact ht'.symm

/-- A slice of a slice is a slice of the text, as far in as the two together. -/
lemma trans {b e c d : Int} (hp : t.IsSlice b e p) (hq : p.IsSlice c d q) :
    t.IsSlice (b + c) (b + d) q := by
  obtain ⟨before, after, rfl, rfl, rfl⟩ := hp
  obtain ⟨front, back, rfl, rfl, rfl⟩ := hq
  refine ⟨before ++ front, back ++ after, by simp, by simp, ?_⟩
  rw [List.length_append]
  omega

end IsSlice

end Text

namespace Operator

open Reduction

variable {t piece : Text} {first last : Int}

/-- The slice that is cut out is the one between the indices. -/
lemma slice_eq_ok_iff : slice t first last = .ok (.text piece) ↔ t.IsSlice first last piece := by
  constructor
  · intro h
    rw [slice] at h
    split at h
    · cases h
      refine ⟨t.take first.toNat, (t.drop first.toNat).drop (last - first).toNat, ?_, ?_, ?_⟩
      · rw [List.append_assoc, List.take_append_drop, List.take_append_drop]
      · rw [List.length_take]
        omega
      · rw [List.length_take, List.length_take, List.length_drop]
        omega
    · cases h
  · intro h
    rw [slice, if_pos h.within]
    obtain ⟨before, after, rfl, rfl, rfl⟩ := h
    have hlength : ((before.length : Int) + piece.length - before.length).toNat = piece.length := by
      omega
    rw [hlength, Int.toNat_natCast, List.append_assoc, List.drop_left, List.take_left]

/-- Indices out of order or out of the text are refused, and told with its length. -/
lemma slice_of_not_within (h : ¬(0 ≤ first ∧ first ≤ last ∧ last ≤ t.length)) :
    slice t first last = .error (.outOfBounds substring first last t.length) :=
  if_neg h

/-- Indices in order and within the text have a slice. -/
lemma exists_slice (h : 0 ≤ first ∧ first ≤ last ∧ last ≤ t.length) :
    ∃ piece, slice t first last = .ok (.text piece) :=
  ⟨_, if_pos h⟩

/-- What comes of slicing `t` over the values `rest`: the slice, if the indices are in order and
within the text, and else an error that tells them and the length. -/
structure Slices (t : Text) (first last : Int) (rest : List Value)
    (outcome : Except EvalError Unit × Operands) : Prop where
  within : 0 ≤ first ∧ first ≤ last ∧ last ≤ t.length →
    ∃ piece, t.IsSlice first last piece ∧ outcome = (.ok (), ⟨.text piece :: rest, 0⟩)
  outside : ¬(0 ≤ first ∧ first ≤ last ∧ last ≤ t.length) →
    outcome = (.error (.outOfBounds substring first last t.length), ⟨rest, 0⟩)

/-- What a function leaves behind once its operands are off the values: its result on top of `rest`,
or an error and `rest` alone, and no separators in either case. -/
def concluded (rest : List Value) : Except EvalError Value → Except EvalError Unit × Operands
  | .ok v => (.ok (), ⟨v :: rest, 0⟩)
  | .error e => (.error e, ⟨rest, 0⟩)

/-- A slice and what it leaves behind are as told. -/
lemma slices_concluded (t : Text) (first last : Int) (rest : List Value) :
    Slices t first last rest (concluded rest (slice t first last)) := by
  refine ⟨fun h => ?_, fun h => ?_⟩
  · obtain ⟨piece, hpiece⟩ := exists_slice h
    rw [hpiece]
    exact ⟨piece, slice_eq_ok_iff.1 hpiece, rfl⟩
  · rw [slice_of_not_within h]
    rfl

/-- A result of slicing is the slice between the indices. -/
lemma isSlice_of_concluded {rest : List Value}
    (h : concluded rest (slice t first last) = (.ok (), ⟨.text piece :: rest, 0⟩)) :
    t.IsSlice first last piece := by
  cases hx : slice t first last with
  | error e =>
    rw [hx] at h
    cases h
  | ok v =>
    rw [hx] at h
    cases h
    exact slice_eq_ok_iff.1 hx

section Perform

variable {target u w : Value} {values rest : List Value}

/-- The slice reads its parameters, cuts, and forgets the separators. -/
lemma perform_substring {n : Nat} {x : Except EvalError Value}
    (h : (sliceParameters (n + 1)).apply values = (x, rest)) :
    substring.perform ⟨values, n⟩ = concluded rest x := by
  rw [perform, reduction?]
  dsimp only
  rw [h]
  cases x with
  | ok v => rfl
  | error e => rfl

/-- A result found without operands leaves all values. -/
lemma ofExcept_apply (x : Except EvalError Value) (values : List Value) :
    (ofExcept x).apply values = (x, values) := by
  cases x with
  | ok v => rfl
  | error e => rfl

/-- With two parameters, the index is on top of the text. -/
lemma perform_substring_two (hu : indexOf substring u = .ok first) (rest : List Value) :
    substring.perform ⟨u :: target :: rest, 1⟩ =
      concluded rest (slice target.asText first target.asText.length) := by
  apply perform_substring
  change (Reduction.ofExcept (indexOf substring u) >>= _).apply (target :: rest) = _
  rw [hu]
  exact ofExcept_apply _ rest

/-- With three parameters, the last index is on top of the first one and that on top of the text. -/
lemma perform_substring_three (hu : indexOf substring u = .ok first)
    (hw : indexOf substring w = .ok last) (rest : List Value) :
    substring.perform ⟨w :: u :: target :: rest, 2⟩ =
      concluded rest (slice target.asText first last) := by
  apply perform_substring
  change (Reduction.ofExcept (indexOf substring w) >>= _).apply (u :: target :: rest) = _
  rw [hw]
  change (Reduction.ofExcept (indexOf substring u) >>= _).apply (target :: rest) = _
  rw [hu]
  exact ofExcept_apply _ rest

end Perform

/-- Slices are cut by characters from one index to another, or to the end if there is no other one.
The slices up to an index and from there make up the text; and a slice of a slice is a slice of the
text, unless the first one is taken for an absent value. -/
theorem substring_slices (target : Value) (rest : List Value) :
    (∀ u w first last, indexOf substring u = .ok first → indexOf substring w = .ok last →
      Slices target.asText first last rest
        (substring.perform ⟨w :: u :: target :: rest, 2⟩)) ∧
    (∀ u first, indexOf substring u = .ok first →
      Slices target.asText first target.asText.length rest
        (substring.perform ⟨u :: target :: rest, 1⟩)) ∧
    (∀ u w first, indexOf substring u = .ok first →
      indexOf substring w = .ok (target.asText.length : Int) →
      substring.perform ⟨u :: target :: rest, 1⟩ =
        substring.perform ⟨w :: u :: target :: rest, 2⟩) ∧
    (∀ z u k, indexOf substring z = .ok 0 → indexOf substring u = .ok k → 0 ≤ k →
      k ≤ target.asText.length →
      ∃ p q, substring.perform ⟨u :: z :: target :: rest, 2⟩ = (.ok (), ⟨.text p :: rest, 0⟩) ∧
        substring.perform ⟨u :: target :: rest, 1⟩ = (.ok (), ⟨.text q :: rest, 0⟩) ∧
        p ++ q = target.asText) ∧
    ∀ u w x y b e c d p q, indexOf substring u = .ok b → indexOf substring w = .ok e →
      indexOf substring x = .ok c → indexOf substring y = .ok d →
      substring.perform ⟨w :: u :: target :: rest, 2⟩ = (.ok (), ⟨.text p :: rest, 0⟩) →
      p ≠ Value.placeholder →
      substring.perform ⟨y :: x :: .text p :: rest, 2⟩ = (.ok (), ⟨.text q :: rest, 0⟩) →
      target.asText.IsSlice (b + c) (b + d) q ∧
        ∀ u' w', indexOf substring u' = .ok (b + c) → indexOf substring w' = .ok (b + d) →
          substring.perform ⟨w' :: u' :: target :: rest, 2⟩ = (.ok (), ⟨.text q :: rest, 0⟩) := by
  refine ⟨fun u w first last hu hw => ?_, fun u first hu => ?_, fun u w first hu hw => ?_,
    fun z u k hz hu hk hlength => ?_, fun u w x y b e c d p q hu hw hx hy hp hnull hq => ?_⟩
  · rw [perform_substring_three hu hw]
    exact slices_concluded _ _ _ _
  · rw [perform_substring_two hu]
    exact slices_concluded _ _ _ _
  · rw [perform_substring_two hu, perform_substring_three hu hw]
  · rw [perform_substring_two hu, perform_substring_three hz hu]
    obtain ⟨p, hp, hfront⟩ := (slices_concluded _ 0 k rest).within ⟨Int.le_refl 0, hk, hlength⟩
    obtain ⟨q, hq, hback⟩ := (slices_concluded _ k _ rest).within ⟨hk, hlength, Int.le_refl _⟩
    exact ⟨p, q, hfront, hback, hp.append hq⟩
  · rw [perform_substring_three hu hw] at hp
    -- the slice is read back as itself
    have hread : Value.asText (.text p) = p := if_neg hnull
    rw [perform_substring_three hx hy, hread] at hq
    have hslice := (isSlice_of_concluded hp).trans (isSlice_of_concluded hq)
    refine ⟨hslice, fun u' w' hu' hw' => ?_⟩
    rw [perform_substring_three hu' hw', slice_eq_ok_iff.2 hslice]
    rfl

/-- Letters of three bytes each count as one, and an index with a fraction is rounded down to where
its letter begins. -/
theorem substring_slices_letters :
    let t : Value := .text "日本語文".toList
    let index (n : String) : Value := .text n.toList
    let p : Text := "本語文".toList
    let q : Text := "文".toList
    indexOf substring (index "1.9") = .ok 1 ∧ indexOf substring (index "4") = .ok 4 ∧
      substring.perform ⟨[index "4", index "1.9", t], 2⟩ = (.ok (), ⟨[.text p], 0⟩) ∧
      substring.perform ⟨[index "1.9", t], 1⟩ = (.ok (), ⟨[.text p], 0⟩) ∧
      p ≠ Value.placeholder ∧
      substring.perform ⟨[index "3", index "2", .text p], 2⟩ = (.ok (), ⟨[.text q], 0⟩) ∧
      substring.perform ⟨[index "4", index "3", t], 2⟩ = (.ok (), ⟨[.text q], 0⟩) ∧
      substring.perform ⟨[index "5", index "3", t], 2⟩ =
        (.error (.outOfBounds substring 3 5 4), ⟨[], 0⟩) := by
  intro t index p q
  obtain ⟨hthree, -, hend, -, hnested⟩ := substring_slices t []
  have h₁ : indexOf substring (index "1.9") = .ok 1 := by decide +kernel
  have h₂ : indexOf substring (index "2") = .ok 2 := by decide +kernel
  have h₃ : indexOf substring (index "3") = .ok 3 := by decide +kernel
  have h₄ : indexOf substring (index "4") = .ok 4 := by decide +kernel
  have h₅ : indexOf substring (index "5") = .ok 5 := by decide +kernel
  have hp : substring.perform ⟨[index "4", index "1.9", t], 2⟩ = (.ok (), ⟨[.text p], 0⟩) := by
    decide +kernel
  have hq : substring.perform ⟨[index "3", index "2", .text p], 2⟩ =
      (.ok (), ⟨[.text q], 0⟩) := by
    decide +kernel
  have hnull : p ≠ Value.placeholder := by decide
  obtain ⟨-, hsame⟩ := hnested _ _ _ _ _ _ _ _ _ _ h₁ h₄ h₂ h₃ hp hnull hq
  exact ⟨h₁, h₄, hp, (hend _ _ _ h₁ h₄).trans hp, hnull, hq, hsame _ _ h₃ h₄,
    (hthree _ _ _ _ h₃ h₅).outside (by decide)⟩

end Operator

end InlineExpr
