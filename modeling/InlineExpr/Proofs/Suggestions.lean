import InlineExpr.Proofs.EditDistance
import InlineExpr.Proofs.Tables
import InlineExpr.Text.Suggestion
import Mathlib.Tactic.Common

/-!
# The nearest names

A name is closer to the target than another one if fewer edits lead to it, and among equally near
names if it comes first in the order of code points (`Text.Closer`). That no name is closer is a
linear order on the names, by which the qualifying ones are sorted. So what is suggested are the
first three of them (`Text.Nearest`), and the order in which they are listed does not matter
(`Text.suggestions_nearest`).
-/

namespace InlineExpr.Text

/-- Near enough to be suggested, and not the target itself. -/
def Qualifies (target name : Text) : Prop :=
  name ≠ target ∧ ∃ n, Edits n target name ∧ n ≤ if target.length ≤ 3 then 1 else 2

/-- Nearer to the target, or as near and first in the order of code points. -/
def Closer (target s t : Text) : Prop :=
  editDistance target s < editDistance target t ∨
    editDistance target s = editDistance target t ∧
      List.Lex (fun a b : Char => a.toNat < b.toNat) s t

/-- At most three qualifying entries, in order, and every qualifying entry left out is behind all
of the three. -/
structure Nearest (target : Text) (available names : List Text) : Prop where
  size : names.length ≤ 3
  qualified : ∀ name ∈ names, name ∈ available ∧ Qualifies target name
  sorted : names.Pairwise fun s t => ¬Closer target t s
  rest : ∃ others, available.Perm (names ++ others) ∧ ∀ other ∈ others, Qualifies target other →
    names.length = 3 ∧ ∀ name ∈ names, ¬Closer target other name

variable {target s t u name : Text} {available available' : List Text}

/-- Texts are ordered like words in a dictionary, by the numbers of their characters. -/
lemma precedes_iff_lex :
    precedes s t = true ↔ List.Lex (fun a b : Char => a.toNat < b.toNat) s t := by
  induction s generalizing t with
  | nil =>
    cases t with
    | nil => exact ⟨fun h => (nomatch h), fun h => (nomatch h)⟩
    | cons b t => exact ⟨fun _ => .nil, fun _ => rfl⟩
  | cons a s ih =>
    cases t with
    | nil => exact ⟨fun h => (nomatch h), fun h => (nomatch h)⟩
    | cons b t =>
      rw [precedes_cons, ih]
      constructor
      · rintro (hlt | ⟨rfl, hlex⟩)
        · exact .rel hlt
        · exact .cons hlex
      · intro h
        cases h with
        | rel hlt => exact .inl hlt
        | cons hlex => exact .inr ⟨rfl, hlex⟩

/-- The names that are suggested are those that qualify. -/
lemma isSuggestion_iff : isSuggestion target name = true ↔ Qualifies target name := by
  rw [isSuggestion, Bool.and_eq_true, decide_eq_true_iff, bne_iff_ne, and_comm, suggestionRadius]
  constructor
  · rintro ⟨hne, hle⟩
    exact ⟨hne, _, edits_editDistance target name, hle⟩
  · rintro ⟨hne, n, hedits, hle⟩
    exact ⟨hne, Nat.le_trans hedits.editDistance_le hle⟩

/-- The sorting puts a name in front of another one unless the other one is closer. -/
lemma nearer_iff : nearer target s t = true ↔ ¬Closer target t s := by
  rw [nearer, Closer, ← precedes_iff_lex, Bool.or_eq_true, Bool.and_eq_true, decide_eq_true_iff,
    beq_iff_eq, Bool.not_eq_true']
  cases precedes t s with
  | false =>
    simp only [and_true, Bool.false_eq_true, and_false, or_false]
    omega
  | true =>
    simp only [Bool.true_eq_false, and_false, or_false, and_true]
    omega

/-- What is closer than something closer is closer. -/
lemma Closer.trans (hst : Closer target s t) (htu : Closer target t u) : Closer target s u := by
  rw [Closer, ← precedes_iff_lex] at hst htu ⊢
  rcases hst with hst | ⟨hst, pst⟩
  · exact .inl (by omega)
  · rcases htu with htu | ⟨htu, ptu⟩
    · exact .inl (by omega)
    · exact .inr ⟨hst.trans htu, precedes_trans pst ptu⟩

/-- No name is closer than itself. -/
lemma not_closer_self (target t : Text) : ¬Closer target t t := by
  rw [Closer, ← precedes_iff_lex, not_precedes_self]
  simp

/-- Of two names one is closer. -/
lemma closer_or_closer (hne : s ≠ t) : Closer target s t ∨ Closer target t s := by
  rw [Closer, Closer, ← precedes_iff_lex, ← precedes_iff_lex]
  rcases Nat.lt_trichotomy (editDistance target s) (editDistance target t) with h | h | h
  · exact .inl (.inl h)
  · cases hp : precedes s t with
    | true => exact .inl (.inr ⟨h, rfl⟩)
    | false => exact .inr (.inr ⟨h.symm, precedes_of_not_precedes hne hp⟩)
  · exact .inr (.inl h)

/-- The order of the ranking is transitive. -/
lemma nearer_trans (s t u : Text) (hst : nearer target s t = true)
    (htu : nearer target t u = true) : nearer target s u = true := by
  rw [nearer_iff] at hst htu ⊢
  intro hus
  by_cases hne : s = t
  · exact htu (hne ▸ hus)
  · exact htu (hus.trans ((closer_or_closer hne).resolve_right hst))

/-- Of two names one comes first in the ranking. -/
lemma nearer_total (s t : Text) : (nearer target s t || nearer target t s) = true := by
  rw [Bool.or_eq_true, nearer_iff, nearer_iff]
  by_contra h
  rw [not_or, not_not, not_not] at h
  exact not_closer_self target s (h.2.trans h.1)

/-- Two names that each come first are the same. -/
lemma nearer_antisymm (s t : Text) (hst : nearer target s t = true)
    (hts : nearer target t s = true) : s = t := by
  rw [nearer_iff] at hst hts
  by_contra hne
  exact (closer_or_closer hne).elim hts hst

/-- The qualifying entries, sorted. -/
def ranking (target : Text) (available : List Text) : List Text :=
  (available.filter (isSuggestion target)).mergeSort (nearer target)

/-- The suggestions are the first three of the ranking. -/
lemma suggestions_eq (target : Text) (available : List Text) :
    suggestions target available = (ranking target available).take 3 := rfl

/-- The ranking is in order. -/
lemma pairwise_ranking (target : Text) (available : List Text) :
    (ranking target available).Pairwise fun s t => nearer target s t = true :=
  List.pairwise_mergeSort nearer_trans nearer_total _

/-- The ranking holds the available names that qualify. -/
lemma mem_ranking : name ∈ ranking target available ↔ name ∈ available ∧ Qualifies target name := by
  rw [ranking, List.mem_mergeSort, List.mem_filter, isSuggestion_iff]

/-- The entries that qualify and those that do not are all there are. -/
lemma ranking_perm (target : Text) (available : List Text) :
    available.Perm (ranking target available ++ available.filter fun name =>
      !isSuggestion target name) :=
  ((List.filter_append_perm _ available).symm).trans
    ((List.mergeSort_perm _ _).symm.append_right _)

/-- A linear order leaves one way to sort. -/
lemma ranking_congr (h : available.Perm available') :
    ranking target available = ranking target available' := by
  refine List.Perm.eq_of_pairwise (fun s t _ _ => nearer_antisymm s t)
    (pairwise_ranking target available) (pairwise_ranking target available') ?_
  have hfilter := h.filter (isSuggestion target)
  exact (List.mergeSort_perm _ _).trans (hfilter.trans (List.mergeSort_perm _ _).symm)

/-- The suggestions are the nearest names that qualify. -/
lemma nearest_suggestions (target : Text) (available : List Text) :
    Nearest target available (suggestions target available) := by
  have hsorted : (ranking target available).Pairwise fun s t => ¬Closer target t s :=
    (pairwise_ranking target available).imp nearer_iff.1
  rw [suggestions_eq]
  refine ⟨List.length_take_le _ _, fun name h => mem_ranking.1 (List.mem_of_mem_take h),
    hsorted.sublist (List.take_sublist _ _), ?_⟩
  refine ⟨(ranking target available).drop 3 ++ available.filter fun name =>
    !isSuggestion target name, ?_, fun other hother hqualifies => ?_⟩
  · rw [← List.append_assoc, List.take_append_drop]
    exact ranking_perm target available
  · cases List.mem_append.1 hother with
    | inl hdrop =>
      rw [← List.take_append_drop 3 (ranking target available), List.pairwise_append] at hsorted
      refine ⟨?_, fun name hname => hsorted.2.2 name hname other hdrop⟩
      have hlength := List.length_pos_of_mem hdrop
      rw [List.length_drop] at hlength
      rw [List.length_take]
      omega
    | inr hfilter =>
      have hno := (List.mem_filter.1 hfilter).2
      rw [isSuggestion_iff.2 hqualifies] at hno
      cases hno

/-- What is suggested are the nearest of the listed names, in whatever order they are listed. -/
theorem suggestions_nearest (target : Text) :
    (∀ name, IsLeast {n | Edits n target name} (editDistance target name)) ∧
    ∀ available, Nearest target available (suggestions target available) ∧
      ∀ available', available.Perm available' →
        suggestions target available' = suggestions target available := by
  refine ⟨isLeast_editDistance target, fun available => ⟨nearest_suggestions target available, ?_⟩⟩
  intro available' h
  rw [suggestions_eq, suggestions_eq, ranking_congr h]

/-- The target has three characters of two bytes each, so a name two edits away is not suggested;
of four names that are one edit away the last one is left out, and the one listed twice stays. -/
theorem suggestions_nearest_ties :
    let target : Text := "éàü".toList
    let listed : List Text := ["éà", "éaü", "é", "éàü", "éaü", "àü"].map String.toList
    let names : List Text := ["àü", "éaü", "éaü"].map String.toList
    suggestions target listed = names ∧ Nearest target listed names ∧
      IsLeast {n | Edits n target "é".toList} 2 := by
  intro target listed names
  let ordered : List Text := ["éàü", "é", "àü", "éaü", "éaü", "éà"].map String.toList
  obtain ⟨hleast, hnearest⟩ := suggestions_nearest target
  have hordered : suggestions target ordered = names := by
    have hfilter : ordered.filter (isSuggestion target) =
        ["àü", "éaü", "éaü", "éà"].map String.toList := by decide +kernel
    have hsorted : (["àü", "éaü", "éaü", "éà"].map String.toList).Pairwise
        fun s t => nearer target s t = true := by decide +kernel
    rw [suggestions, hfilter, List.mergeSort_of_pairwise hsorted]
    rfl
  have hlisted : suggestions target listed = names :=
    ((hnearest ordered).2 listed (by decide +kernel)).trans hordered
  have hnear := (hnearest listed).1
  rw [hlisted] at hnear
  exact ⟨hlisted, hnear, hleast "é".toList⟩

end InlineExpr.Text
