import InlineExpr.Number.DecimalText
import InlineExpr.Proofs.DecimalValue
import Mathlib.Data.List.TakeWhile

/-!
# Decimals in plain notation

A literal is a decimal in plain notation (`Decimal.Literal`): an optional minus, digits, and behind
a point, which may be missing, digits again. It is read as the number that its digits denote
(`ofText?_text`, `value_decimal`), unless its places are too many for a scale. What is written for a
decimal is a literal of the same value (`exists_literal`), so writing a decimal and reading it back
loses nothing.
-/

namespace InlineExpr

namespace Numeral

variable {ds : Text}

/-- Digits behind other digits move these by as many places. -/
lemma ofDigits_append (ds es : Text) :
    ofDigits (ds ++ es) = ofDigits ds * 10 ^ es.length + ofDigits es := by
  rw [ofDigits, Nat.ofDigitChars_append, Nat.ofDigitChars_eq_ofDigitChars_zero, mul_comm]
  rfl

/-- Zeros in a row are zero. -/
lemma ofDigits_replicate_zero (n : ℕ) : ofDigits (List.replicate n '0') = 0 :=
  Nat.ofDigitChars_replicate_zero.trans (mul_zero _)

/-- Leading zeros do not matter. -/
lemma ofDigits_dropWhile_zero (ds : Text) :
    ofDigits (ds.dropWhile (· == '0')) = ofDigits ds := by
  induction ds with
  | nil => rfl
  | cons c ds ih =>
    rw [List.dropWhile_cons]
    split
    · rename_i hc
      obtain rfl : c = '0' := beq_iff_eq.1 hc
      exact ih
    · rfl

/-- A leading digit counts with the power of ten of its place. -/
lemma ofDigits_cons (c : Char) (ds : Text) :
    ofDigits (c :: ds) = (c.toNat - '0'.toNat) * 10 ^ ds.length + ofDigits ds := by
  rw [← List.singleton_append, ofDigits_append]
  congr 2
  rw [ofDigits, Nat.ofDigitChars_cons, Nat.ofDigitChars_nil, mul_zero, zero_add]

/-- A digit is at most nine, and at least one unless it is zero. -/
lemma digit_le {c : Char} (h : c.isDigit = true) :
    c.toNat - '0'.toNat ≤ 9 ∧ (c ≠ '0' → 1 ≤ c.toNat - '0'.toNat) := by
  obtain ⟨hlow, hhigh⟩ := Char.isDigit_iff_toNat.1 h
  have hnine : '9'.toNat = 9 + '0'.toNat := rfl
  refine ⟨by omega, fun hne => ?_⟩
  have := mt Char.toNat_inj.1 hne
  omega

/-- Digits denote less than the power of ten of their number. -/
lemma ofDigits_lt (h : ∀ c ∈ ds, c.isDigit = true) : ofDigits ds < 10 ^ ds.length := by
  induction ds with
  | nil => exact Nat.one_pos
  | cons c ds ih =>
    have hc := (digit_le (h c (.head _))).1
    have hds := ih fun d hd => h d (.tail _ hd)
    rw [ofDigits_cons, List.length_cons, Nat.pow_succ]
    calc (c.toNat - '0'.toNat) * 10 ^ ds.length + ofDigits ds
        < 9 * 10 ^ ds.length + 10 ^ ds.length :=
          Nat.add_lt_add_of_le_of_lt (Nat.mul_le_mul_right _ hc) hds
      _ = 10 ^ ds.length * 10 := by ring

/-- Without leading zeros the number of digits is the order of magnitude. -/
lemma ofDigits_bounds (h : ∀ c ∈ ds, c.isDigit = true) (hne : ofDigits ds ≠ 0) :
    (10 : ℚ) ^ (((ds.dropWhile (· == '0')).length : ℤ) - 1) ≤ ofDigits ds ∧
      (ofDigits ds : ℚ) < 10 ^ ((ds.dropWhile (· == '0')).length : ℤ) := by
  rw [← ofDigits_dropWhile_zero] at hne ⊢
  have hdigits : ∀ c ∈ ds.dropWhile (· == '0'), c.isDigit = true :=
    fun c hc => h c ((List.dropWhile_suffix _).subset hc)
  have hhead := List.head?_dropWhile_not (· == '0') ds
  have hlt := ofDigits_lt hdigits
  cases hs : ds.dropWhile (· == '0') with
  | nil =>
    rw [hs] at hne
    exact absurd rfl hne
  | cons c es =>
    rw [hs] at hdigits hhead hlt
    have hc := (digit_le (hdigits c (.head _))).2 (by simpa using hhead)
    constructor
    · rw [List.length_cons, Nat.cast_succ, add_sub_cancel_right, zpow_natCast, ofDigits_cons]
      exact_mod_cast (Nat.le_mul_of_pos_left _ hc).trans (Nat.le_add_right _ _)
    · rw [zpow_natCast]
      exact_mod_cast hlt

/-- Digits are told from any other character. -/
lemma ne_of_isDigit {c d : Char} (h : c.isDigit = true) (hd : d.isDigit = false) : c ≠ d := by
  rintro rfl
  rw [h] at hd
  cases hd

/-- A digit is no exponent mark. -/
lemma isExponentMark_of_isDigit {c : Char} (h : c.isDigit = true) : isExponentMark c = false := by
  rw [isExponentMark, Bool.or_eq_false_iff, beq_eq_false_iff_ne, beq_eq_false_iff_ne]
  exact ⟨ne_of_isDigit h rfl, ne_of_isDigit h rfl⟩

/-- A row of digits is one that is not empty and has nothing else. -/
lemma isDigits_iff : isDigits ds = true ↔ ds ≠ [] ∧ ∀ c ∈ ds, c.isDigit = true := by
  simp [isDigits]

/-- A single zero is a row of digits. -/
lemma isDigits_zero : isDigits ['0'] = true := rfl

/-- More digits behind a row of digits are one row. -/
lemma isDigits_append {es : Text} (h : isDigits ds = true) (he : ∀ c ∈ es, c.isDigit = true) :
    isDigits (ds ++ es) = true := by
  obtain ⟨hne, hds⟩ := isDigits_iff.1 h
  exact isDigits_iff.2 ⟨List.append_ne_nil_of_left_ne_nil hne _,
    List.forall_mem_append.2 ⟨hds, he⟩⟩

/-- The sign in front of digits. -/
def minus (negative : Bool) : Text :=
  if negative then ['-'] else []

/-- The sign in front of a row of digits is split off again. -/
lemma sign_minus (negative : Bool) (h : isDigits ds = true) :
    sign (minus negative ++ ds) = (negative, ds) := by
  cases negative with
  | true => rfl
  | false =>
    obtain ⟨hne, hds⟩ := isDigits_iff.1 h
    obtain ⟨c, ds, rfl⟩ := List.exists_cons_of_ne_nil hne
    rw [minus, if_neg Bool.false_ne_true, List.nil_append, sign]
    · rintro _ ⟨⟩
      exact absurd rfl (ne_of_isDigit (hds _ (.head _)) rfl)
    · rintro _ ⟨⟩
      exact absurd rfl (ne_of_isDigit (hds _ (.head _)) rfl)

end Numeral

namespace Decimal

/-- A decimal in plain notation. -/
structure Literal where
  negative : Bool
  /-- The digits in front of the point. -/
  whole : Text
  /-- The digits behind the point. If there are none, then neither is there a point. -/
  places : Text
  isDigits_whole : Numeral.isDigits whole = true
  all_places : places.all Char.isDigit = true

/-- What is written for some digits behind a point. -/
def fraction (places : Text) : Text :=
  if places = [] then [] else '.' :: places

namespace Literal

variable (l : Literal)

/-- The text of the literal. -/
def text : Text :=
  Numeral.minus l.negative ++ l.whole ++ fraction l.places

/-- The decimal places are digits. -/
lemma isDigit_places : ∀ c ∈ l.places, c.isDigit = true :=
  List.all_eq_true.1 l.all_places

/-- The number that a literal denotes by the places of its digits. -/
def value : ℚ :=
  (if l.negative then -1 else 1) *
    (Numeral.ofDigits l.whole + Numeral.ofDigits l.places / 10 ^ l.places.length)

/-- The decimal that a literal is read as. -/
def decimal : Decimal :=
  ⟨Numeral.signed l.negative (Numeral.ofDigits (l.whole ++ l.places)), .ofNat l.places.length⟩

/-- The scale of a literal is the number of its places, if it fits. -/
lemma toInt_scale_decimal (h : l.places.length ≤ Numeral.maxInt64) :
    l.decimal.scale.toInt = l.places.length := by
  rw [Numeral.maxInt64] at h
  apply Int64.toInt_ofNat_of_lt
  omega

/-- A literal is read as what it denotes. -/
lemma value_decimal (h : l.places.length ≤ Numeral.maxInt64) : l.decimal.value = l.value := by
  have hpow : (10 : ℚ) ^ l.places.length ≠ 0 := by positivity
  rw [Decimal.value, l.toInt_scale_decimal h, decimal, value, zpow_natCast,
    Numeral.ofDigits_append]
  cases l.negative with
  | true =>
    simp only [Numeral.signed, if_true]
    push_cast
    field_simp
  | false =>
    simp only [Numeral.signed, Bool.false_eq_true, if_false]
    push_cast
    field_simp

/-- Digits, a minus and a point are all there is in a literal. -/
lemma of_mem_text {c : Char} (h : c ∈ l.text) : c.isDigit = true ∨ c = '-' ∨ c = '.' := by
  rw [text, List.mem_append, List.mem_append] at h
  rcases h with (h | h) | h
  · rw [Numeral.minus] at h
    split at h
    · exact .inr (.inl (List.mem_singleton.1 h))
    · cases h
  · exact .inl ((Numeral.isDigits_iff.1 l.isDigits_whole).2 c h)
  · rw [fraction] at h
    split at h
    · cases h
    · cases h with
      | head => exact .inr (.inr rfl)
      | tail _ h => exact .inl (l.isDigit_places c h)

/-- A literal has no more decimal places than characters. -/
lemma length_places_le : l.places.length ≤ l.text.length := by
  have hfraction : l.places.length ≤ (fraction l.places).length := by
    rw [fraction]
    split
    · rename_i hnil
      rw [hnil]
    · exact Nat.le_succ _
  rw [text, List.length_append]
  omega

/-- There is a digit in a literal. -/
lemma exists_digit_mem_text : ∃ c ∈ l.text, c.isDigit = true := by
  obtain ⟨hne, hds⟩ := Numeral.isDigits_iff.1 l.isDigits_whole
  obtain ⟨c, hc⟩ := List.exists_mem_of_ne_nil _ hne
  exact ⟨c, List.mem_append_left _ (List.mem_append_right _ hc), hds c hc⟩

end Literal

section Reading

variable {ds : Text}

/-- A row of digits is read as the number it writes. -/
lemma digits?_of_isDigits (h : Numeral.isDigits ds = true) :
    digits? ds = some (Numeral.ofDigits ds) := by
  obtain ⟨hne, hds⟩ := Numeral.isDigits_iff.1 h
  obtain ⟨c, ds, rfl⟩ := List.exists_cons_of_ne_nil hne
  have hall : (c :: ds).all (fun c => c.isDigit || c == '_') = true :=
    List.all_eq_true.2 fun d hd => by rw [hds d hd, Bool.true_or]
  rw [digits?, if_pos hall, List.filter_eq_self.2 hds]
  · exact hne
  · rintro _ ⟨⟩
    exact absurd rfl (Numeral.ne_of_isDigit (hds _ (.head _)) rfl)

/-- A text with no exponent mark has the exponent zero. -/
lemma withoutExponent?_of_forall {t : Text} (h : ∀ c ∈ t, Numeral.isExponentMark c = false) :
    withoutExponent? t = some (t, 0) := by
  have hnot : ∀ c ∈ t, (!Numeral.isExponentMark c) = true := fun c hc => by rw [h c hc]; rfl
  simp only [withoutExponent?, List.takeWhile_eq_self_iff.2 hnot, List.dropWhile_eq_nil_iff.2 hnot]

/-- What stands behind a mark is the exponent. -/
lemma withoutExponent?_append {t r : Text} {c : Char}
    (h : ∀ c ∈ t, Numeral.isExponentMark c = false) (hc : Numeral.isExponentMark c = true) :
    withoutExponent? (t ++ c :: r) = (Numeral.exponent? r).map fun e => (t, e) := by
  have hnot : ∀ c ∈ t, (!Numeral.isExponentMark c) = true := fun c hc => by rw [h c hc]; rfl
  simp only [withoutExponent?, List.takeWhile_append_of_pos hnot, List.dropWhile_append_of_pos hnot,
    List.takeWhile_cons, List.dropWhile_cons, hc, Bool.not_true, Bool.false_eq_true, if_false,
    List.append_nil]

/-- The point is taken out, and the digits behind it are counted. -/
lemma withoutPoint_fraction {t places : Text} (ht : '.' ∉ t)
    (hplaces : ∀ c ∈ places, c.isDigit = true) :
    withoutPoint (t ++ fraction places) = (t ++ places, places.length) := by
  have hnot : ∀ c ∈ t, (c != '.') = true := fun c hc =>
    bne_iff_ne.2 fun h => ht (h ▸ hc)
  rw [fraction]
  split
  · rename_i hnil
    rw [hnil, List.append_nil]
    simp only [withoutPoint, List.takeWhile_eq_self_iff.2 hnot, List.dropWhile_eq_nil_iff.2 hnot]
    rfl
  · have hdigits : places.filter (· != '_') = places := by
      apply List.filter_eq_self.2
      intro c hc
      exact bne_iff_ne.2 (Numeral.ne_of_isDigit (hplaces c hc) rfl)
    simp only [withoutPoint, List.takeWhile_append_of_pos hnot, List.dropWhile_append_of_pos hnot]
    simp [hdigits]

/-- A whole number is the scale of its 64 bits, if it fits. -/
lemma scale?_eq_some_iff {s : ℤ} {x : Int64} : scale? s = some x ↔ x.toInt = s := by
  have hofInt (h : Numeral.minInt64 ≤ s ∧ s ≤ Numeral.maxInt64) : (Int64.ofInt s).toInt = s :=
    Int64.toInt_ofInt_of_le h.1 (Int.lt_add_one_of_le h.2)
  rw [scale?]
  split
  · rename_i hfits
    rw [Option.some_inj, ← Int64.toInt_inj, hofInt hfits, eq_comm]
  · rename_i hfits
    refine ⟨nofun, ?_⟩
    rintro rfl
    exact absurd (toInt_bounds x) hfits

/-- A literal in front of an exponent, or of none, is read as its digits with the point moved. -/
lemma ofText?_of_withoutExponent? {t : Text} {e : ℤ} {x : Int64} (l : Literal)
    (h : withoutExponent? t = some (l.text, e)) (hscale : x.toInt = l.places.length - e) :
    ofText? t = some ⟨l.decimal.coefficient, x⟩ := by
  have hdigits := Numeral.isDigits_append l.isDigits_whole l.isDigit_places
  have hpoint : '.' ∉ Numeral.minus l.negative ++ l.whole := by
    intro hm
    rcases List.mem_append.1 hm with hm | hm
    · rw [Numeral.minus] at hm
      split at hm
      · cases List.mem_singleton.1 hm
      · cases hm
    · exact Numeral.ne_of_isDigit ((Numeral.isDigits_iff.1 l.isDigits_whole).2 _ hm) rfl rfl
  rw [ofText?, h]
  simp only [Option.bind_eq_bind, Option.bind_some]
  rw [Literal.text, withoutPoint_fraction hpoint l.isDigit_places]
  simp only [coefficient?, List.append_assoc, Numeral.sign_minus _ hdigits,
    digits?_of_isDigits hdigits, Option.map_some, Option.bind_some,
    scale?_eq_some_iff.2 hscale]
  rfl

/-- No exponent mark stands in a literal. -/
lemma isExponentMark_of_mem_text (l : Literal) :
    ∀ c ∈ l.text, Numeral.isExponentMark c = false := by
  intro c hc
  rcases l.of_mem_text hc with hdigit | rfl | rfl
  · exact Numeral.isExponentMark_of_isDigit hdigit
  · rfl
  · rfl

/-- A literal is read as the decimal of its digits. -/
lemma ofText?_text (l : Literal) (h : l.places.length ≤ Numeral.maxInt64) :
    ofText? l.text = some l.decimal :=
  ofText?_of_withoutExponent? l (withoutExponent?_of_forall (isExponentMark_of_mem_text l))
    ((l.toInt_scale_decimal h).trans (sub_zero _).symm)

end Reading

section Writing

variable {n width : ℕ} {d : Decimal}

/-- The digits of a number are a row of digits. -/
lemma isDigits_toDigits (n : ℕ) : Numeral.isDigits (Nat.toDigits 10 n) = true :=
  Numeral.isDigits_iff.2 ⟨Nat.toDigits_ne_nil,
    fun _ hc => Nat.isDigit_of_mem_toDigits (by decide) (by decide) hc⟩

/-- Zeros in a row are digits. -/
lemma isDigit_of_mem_replicate {c : Char} (h : c ∈ List.replicate n '0') : c.isDigit = true := by
  rw [List.eq_of_mem_replicate h]
  rfl

/-- Padding adds digits only. -/
lemma isDigit_of_mem_paddedDigits {c : Char} (h : c ∈ paddedDigits n width) :
    c.isDigit = true := by
  rw [paddedDigits, List.mem_append] at h
  rcases h with h | h
  · exact isDigit_of_mem_replicate h
  · exact (Numeral.isDigits_iff.1 (isDigits_toDigits n)).2 c h

/-- Padding does not change the number. -/
lemma ofDigits_paddedDigits (n width : ℕ) : Numeral.ofDigits (paddedDigits n width) = n := by
  rw [paddedDigits, Numeral.ofDigits_append, Numeral.ofDigits_replicate_zero, zero_mul, zero_add]
  exact Nat.ofDigitChars_ten_toDigits

/-- Padded digits fill the width. -/
lemma le_length_paddedDigits (n width : ℕ) : width ≤ (paddedDigits n width).length := by
  rw [paddedDigits, List.length_append, List.length_replicate]
  omega

/-- Sign and magnitude of a number make up the number. -/
lemma signed_natAbs_mul (c : ℤ) (k : ℕ) :
    Numeral.signed (decide (c < 0)) (c.natAbs * k) = c * k := by
  rw [Numeral.signed]
  split
  · have hneg : c < 0 := of_decide_eq_true ‹_›
    rw [Nat.cast_mul, Int.ofNat_natAbs_of_nonpos hneg.le, neg_mul, neg_neg]
  · have hnonneg : 0 ≤ c := not_lt.1 (of_decide_eq_false (Bool.eq_false_iff.2 ‹_›))
    rw [Nat.cast_mul, Int.natAbs_of_nonneg hnonneg]

/-- The magnitude of a decimal is written with digits that denote it. -/
lemma exists_magnitudeText (d : Decimal) : ∃ whole places : Text,
    Numeral.isDigits whole = true ∧ (∀ c ∈ places, c.isDigit = true) ∧
    d.magnitudeText = whole ++ fraction places ∧ (places.length : ℤ) = max d.scale.toInt 0 ∧
    Numeral.ofDigits (whole ++ places) = d.coefficient.natAbs * 10 ^ (-d.scale.toInt).toNat := by
  obtain ⟨s, hs⟩ : ∃ s, d.scale.toInt = s := ⟨_, rfl⟩
  rw [magnitudeText, hs]
  by_cases hscale : s ≤ 0
  · refine ⟨Nat.toDigits 10 d.coefficient.natAbs ++ List.replicate (-s).toNat '0', [], ?_,
      nofun, ?_, ?_, ?_⟩
    · exact Numeral.isDigits_append (isDigits_toDigits _) fun _ => isDigit_of_mem_replicate
    · simp only [if_pos hscale]
      exact (List.append_nil _).symm
    · exact (max_eq_right hscale).symm
    · rw [List.append_nil, Numeral.ofDigits_append, Numeral.ofDigits_replicate_zero,
        List.length_replicate, add_zero]
      congr 1
      exact Nat.ofDigitChars_ten_toDigits
  · -- one digit at least stands in front of the places
    obtain ⟨ds, hds⟩ : ∃ ds, paddedDigits d.coefficient.natAbs (s.toNat + 1) = ds := ⟨_, rfl⟩
    have hlength := le_length_paddedDigits d.coefficient.natAbs (s.toNat + 1)
    have hdigit : ∀ c ∈ ds, c.isDigit = true := by
      intro c hc
      rw [← hds] at hc
      exact isDigit_of_mem_paddedDigits hc
    rw [hds] at hlength
    refine ⟨ds.take (ds.length - s.toNat), ds.drop (ds.length - s.toNat), ?_,
      fun c hc => hdigit c (List.mem_of_mem_drop hc), ?_, ?_, ?_⟩
    · refine Numeral.isDigits_iff.2 ⟨?_, fun c hc => hdigit c (List.mem_of_mem_take hc)⟩
      apply List.ne_nil_of_length_pos
      rw [List.length_take]
      omega
    · have hplaces : ds.drop (ds.length - s.toNat) ≠ [] := by
        apply List.ne_nil_of_length_pos
        rw [List.length_drop]
        omega
      simp only [if_neg hscale, hds, fraction, if_neg hplaces]
    · rw [List.length_drop]
      omega
    · rw [List.take_append_drop, ← hds, ofDigits_paddedDigits,
        show (-s).toNat = 0 by omega, pow_zero, mul_one]

/-- What is written for a decimal is a literal of the same value, with as many places as the decimal
has. -/
lemma exists_literal (d : Decimal) : ∃ l : Literal,
    l.text = d.toText ∧ l.value = d.value ∧ (l.places.length : ℤ) = max d.scale.toInt 0 := by
  obtain ⟨whole, places, hwhole, hplaces, htext, hlength, hdigits⟩ := exists_magnitudeText d
  refine ⟨⟨decide (d.coefficient < 0), whole, places, hwhole, List.all_eq_true.2 hplaces⟩, ?_, ?_,
    hlength⟩
  · rw [Literal.text, toText, htext, Numeral.minus, List.append_assoc]
    split
    · rw [if_pos (of_decide_eq_true ‹_›)]
      rfl
    · rw [if_neg (of_decide_eq_false (Bool.eq_false_iff.2 ‹_›))]
      rfl
  · have hmax : max d.scale.toInt 0 = d.scale.toInt + (-d.scale.toInt).toNat := by omega
    have hfits : (places.length : ℤ) ≤ Numeral.maxInt64 := by
      rw [hlength]
      exact max_le (toInt_bounds d.scale).2 (by decide)
    rw [← Literal.value_decimal _ hfits, value, Literal.toInt_scale_decimal _ hfits,
      Literal.decimal, hdigits, hlength, hmax, ten_zpow_add,
      signed_natAbs_mul, zpow_natCast]
    push_cast
    exact mul_div_mul_right _ _ (pow_ne_zero _ (by norm_num))

end Writing

end Decimal

end InlineExpr
