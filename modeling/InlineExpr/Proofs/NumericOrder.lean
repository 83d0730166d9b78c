import InlineExpr.Proofs.Operands
import InlineExpr.Proofs.Readings

/-!
# The order of decimals

Ordering compares numerals in binary, so it sees decimals rounded (`Operator.order_of_decimals`).
Rounding never turns their order around, but decimals that are rounded to one number are equal to
it, and a decimal that the binary reader does not take is compared by its characters
(`Operator.not_exact_order`). Nor is a decimal compared by its number if an exponent that is too
large to be read to its end meets as many places (`Operator.not_nearest_of_long_exponent`).
-/

namespace InlineExpr

namespace Operator

open Binary64

variable {a b : Text} {d e : Decimal} {v w : Value} {o : Ordering}

/-- The operators of ordering find two values in the order `o`. -/
structure Orders (v w : Value) (o : Ordering) : Prop where
  less : Operator.less.result [v, w] = .ok (.bool o.isLT)
  greater : Operator.greater.result [v, w] = .ok (.bool o.isGT)
  lessEqual : Operator.lessEqual.result [v, w] = .ok (.bool o.isLE)
  greaterEqual : Operator.greaterEqual.result [v, w] = .ok (.bool o.isGE)

/-- Once the order of two values is known, the operators decide by it. -/
lemma orders_of_order? (h : order? v w = some o) : Orders v w o := by
  have hordered {op : Operator} {accept : Ordering → Bool}
      (hop : op.reduction? 2 = some (op.binary (ordered accept))) :
      op.result [v, w] = .ok (.bool (accept o)) := by
    rw [result_binary hop, ordered, h]
    rfl
  exact ⟨hordered rfl, hordered rfl, hordered rfl, hordered rfl⟩

/-- No two orders are found. -/
lemma Orders.unique {o' : Ordering} (h : Orders v w o) (h' : Orders v w o') : o = o' := by
  have hless : o.isLT = o'.isLT := by simpa using h.less.symm.trans h'.less
  have hgreater : o.isGT = o'.isGT := by simpa using h.greater.symm.trans h'.greater
  cases o <;> cases o' <;>
    first | rfl | exact absurd hless (by decide) | exact absurd hgreater (by decide)

/-- A decimal is no absent value. -/
lemma asText_of_decimal (h : Decimal.ofText? a = some d) : Value.asText (.text a) = a := by
  apply if_neg
  rintro rfl
  cases h

/-- A text that is a decimal is read by the binary format. -/
lemma asNumber?_of_decimal (h : Decimal.ofText? a = some d) :
    Value.asNumber? (.text a) = Binary64.ofText? a := by
  rw [Value.asNumber?, asText_of_decimal h]

/-- Two values that are numbers are in the order of these. -/
lemma order?_of_numbers {x y : Binary64} (hv : v.asNumber? = some x) (hw : w.asNumber? = some y) :
    order? v w = compare? x y := by
  simp only [order?, hv, hw]

/-- Two values that are not both numbers are in the order of their texts. -/
lemma order?_of_texts (h : ¬ (v.asNumber?.isSome = true ∧ w.asNumber?.isSome = true)) :
    order? v w = some (v.asText.order w.asText) := by
  rw [order?]
  split
  · rename_i hv hw
    rw [hv, hw] at h
    exact absurd ⟨rfl, rfl⟩ h
  · rfl

/-- The order of what is rounded is that of the numbers, unless both are rounded to one number. -/
lemma compare_clamp {q r x y : ℚ} (hx : Nearest q x) (hy : Nearest r y)
    (h : clamp x ≠ clamp y ∨ q = r) : compare (clamp x) (clamp y) = compare q r := by
  rcases lt_trichotomy q r with hlt | rfl | hgt
  · have hle := clamp_mono (hx.mono hy hlt.le)
    rw [compare_lt_iff_lt.2 hlt, compare_lt_iff_lt.2 (hle.lt_of_ne (h.resolve_right hlt.ne))]
  · rw [hx.unique hy, compare_eq_iff_eq.2 rfl, compare_eq_iff_eq.2 rfl]
  · have hle := clamp_mono (hy.mono hx hgt.le)
    rw [compare_gt_iff_gt.2 hgt,
      compare_gt_iff_gt.2 (hle.lt_of_ne (h.resolve_right hgt.ne').symm)]

/-- Decimals that the binary reader takes are in the order of the nearest numbers of the format,
which is their own order unless they are rounded to one number. This is said of texts that are short
or have a small exponent. Any other decimals are in the order of their characters. -/
theorem order_of_decimals (ha : Decimal.ofText? a = some d) (hb : Decimal.ofText? b = some e) :
    ∃ o, Orders (.text a) (.text b) o ∧
      (Numeral.IsCommon a ∧ Numeral.IsCommon b → Numeral.IsModest a ∧ Numeral.IsModest b →
        ∃ x y, Nearest d.value x ∧ Nearest e.value y ∧ o = compare (clamp x) (clamp y) ∧
          (clamp x ≠ clamp y ∨ d.value = e.value → o = compare d.value e.value)) ∧
      (¬ (Numeral.IsCommon a ∧ Numeral.IsCommon b) → o = a.order b) := by
  by_cases hcommon : Numeral.IsCommon a ∧ Numeral.IsCommon b
  · obtain ⟨x, u, hu, hau, hx⟩ := exists_stands_of_isCommon ha hcommon.1
    obtain ⟨y, v, hv, hbv, hy⟩ := exists_stands_of_isCommon hb hcommon.2
    have horder := order?_of_numbers ((asNumber?_of_decimal ha).trans hau)
      ((asNumber?_of_decimal hb).trans hbv)
    rw [compare?_of_stands hu hv] at horder
    refine ⟨_, orders_of_order? horder, fun _ hmodest => ?_, absurd hcommon⟩
    exact ⟨x, y, hx hmodest.1, hy hmodest.2, rfl, compare_clamp (hx hmodest.1) (hy hmodest.2)⟩
  · have htexts := hcommon
    rw [← isSome_ofText?_iff ha, ← isSome_ofText?_iff hb, ← asNumber?_of_decimal ha,
      ← asNumber?_of_decimal hb] at htexts
    have horder := order?_of_texts htexts
    rw [asText_of_decimal ha, asText_of_decimal hb] at horder
    exact ⟨_, orders_of_order? horder, fun h => absurd h hcommon, fun _ => rfl⟩

/-- A whole number of sixteen digits is rounded to its neighbour, and so is the one that is written
with an exponent. -/
theorem order_of_decimals_neighbours :
    let a := "9007199254740993".toList
    let b := "900719925474099.2e1".toList
    (Decimal.ofText? a = some ⟨9007199254740993, 0⟩ ∧
      Decimal.ofText? b = some ⟨9007199254740992, 0⟩ ∧ Numeral.IsModest a ∧ Numeral.IsModest b) ∧
    Orders (.text a) (.text b) .eq ∧
    ∃ x y, Nearest (Decimal.value ⟨9007199254740993, 0⟩) x ∧
      Nearest (Decimal.value ⟨9007199254740992, 0⟩) y ∧ clamp x = clamp y := by
  intro a b
  have ha : Decimal.ofText? a = some ⟨9007199254740993, 0⟩ := by decide
  have hb : Decimal.ofText? b = some ⟨9007199254740992, 0⟩ := by decide
  have hma : Numeral.IsModest a := .inl (by decide)
  have hmb : Numeral.IsModest b := .inl (by decide)
  have heq : Orders (.text a) (.text b) .eq := orders_of_order? (by decide +kernel)
  obtain ⟨o, ho, hnearest, -⟩ := order_of_decimals ha hb
  obtain ⟨x, y, hx, hy, hcompare, -⟩ := hnearest (by decide) ⟨hma, hmb⟩
  rw [← heq.unique ho, eq_comm, compare_eq_iff_eq] at hcompare
  exact ⟨⟨ha, hb, hma, hmb⟩, heq, x, y, hx, hy, hcompare⟩

/-- A one that stands `n + 1` places behind the point. -/
def smallOne (n : ℕ) : Decimal.Literal where
  negative := false
  whole := ['0']
  places := List.replicate n '0' ++ ['1']
  isDigits_whole := Numeral.isDigits_zero
  all_places := by simp

/-- The one stands behind the zeros. -/
lemma length_places_smallOne (n : ℕ) : (smallOne n).places.length = n + 1 := by
  simp only [smallOne, List.length_append, List.length_replicate, List.length_singleton]

/-- In front of a one stand zeros alone. -/
lemma whole_append_places_smallOne (n : ℕ) :
    (smallOne n).whole ++ (smallOne n).places = List.replicate (n + 1) '0' ++ ['1'] := rfl

/-- The leading zeros count for nothing. -/
lemma coefficient_smallOne (n : ℕ) : (smallOne n).decimal.coefficient = 1 := by
  rw [Decimal.Literal.decimal, whole_append_places_smallOne, Numeral.ofDigits_append,
    Numeral.ofDigits_replicate_zero, zero_mul, zero_add]
  rfl

/-- The binary reader takes a one behind zeros, with an exponent, for one at the place that it finds
for it. -/
lemma ofText?_smallOne (n : ℕ) {tail : Text} {e : ℤ} (h : exponentPart? tail = some e) :
    Binary64.ofText? ((smallOne n).text ++ tail) =
      some (ofScientific false ['1'] (e - (n + 1))) := by
  have hsplits : Numeral.Splits ((smallOne n).text ++ tail) false ['0']
      ('.' :: (smallOne n).places) (smallOne n).places tail := by
    have htext : (smallOne n).text = '0' :: '.' :: (smallOne n).places := by
      rw [Decimal.Literal.text, Decimal.fraction, if_neg]
      · rfl
      · exact List.append_ne_nil_of_right_ne_nil _ (List.cons_ne_nil _ _)
    refine ⟨?_, Numeral.isDigits_append Numeral.isDigits_zero (smallOne n).isDigit_places, .inl rfl,
      exponentPart?_head h⟩
    rw [htext]
    rfl
  rw [ofText?_of_splits hsplits, h, Option.map_some, length_places_smallOne,
    show ['0'] = (smallOne n).whole from rfl, whole_append_places_smallOne,
    ofScientific_replicate_zero]
  rfl

/-- Behind 65601 places an exponent of 655360 is taken for 65536, so that a large number is found
far below one. -/
theorem not_nearest_of_long_exponent :
    let a := (smallOne 65600).text ++ "e655360".toList
    (Decimal.ofText? a = some ⟨1, -589759⟩ ∧ Numeral.IsCommon a ∧ ¬ Numeral.IsModest a) ∧
    Orders (.text a) (.text ['1']) .lt ∧
    ¬ ∃ x y, Nearest (Decimal.value ⟨1, -589759⟩) x ∧ Nearest (Decimal.value ⟨1, 0⟩) y ∧
      compare (clamp x) (clamp y) = .lt := by
  intro a
  have hexponent : Decimal.withoutExponent? a = some ((smallOne 65600).text, 655360) :=
    (Decimal.withoutExponent?_append (Decimal.isExponentMark_of_mem_text _) rfl).trans rfl
  have hread : Decimal.ofText? a = some ⟨1, -589759⟩ := by
    have hplaces : (-589759 : Int64).toInt = (smallOne 65600).places.length - 655360 := by
      rw [length_places_smallOne]
      decide
    rw [Decimal.ofText?_of_withoutExponent? _ hexponent hplaces, coefficient_smallOne]
  have hbinary : Binary64.ofText? a = some (ofScientific false ['1'] (-65)) :=
    (ofText?_smallOne 65600 (e := 65536) (by decide)).trans (by norm_num)
  have hcommon : Numeral.IsCommon a := (isSome_ofText?_iff hread).1 (by rw [hbinary]; rfl)
  refine ⟨⟨hread, hcommon, ?_⟩, orders_of_order? ?_, ?_⟩
  · rintro (hlength | hsmall)
    · have hplaces := (smallOne 65600).length_places_le
      rw [length_places_smallOne] at hplaces
      rw [List.length_append] at hlength
      omega
    · exact absurd (hsmall _ hexponent) (by decide)
  · have hone : Value.asNumber? (.text ['1']) = some (ofScientific false ['1'] 0) := by
      decide +kernel
    rw [order?_of_numbers ((asNumber?_of_decimal hread).trans hbinary) hone]
    decide +kernel
  · rintro ⟨x, y, hx, hy, hlt⟩
    have hle : Decimal.value ⟨1, 0⟩ ≤ Decimal.value ⟨1, -589759⟩ := by
      apply div_le_div_of_nonneg_left
      · norm_num
      · exact Decimal.ten_zpow_pos _
      · exact zpow_le_zpow_right₀ (by norm_num) (by decide)
    exact (clamp_mono (hy.mono hx hle)).not_gt (compare_lt_iff_lt.1 hlt)

/-- One operator that decides otherwise refutes the order. -/
lemma not_orders (h : less.result [v, w] = .ok (.bool (!o.isLT))) : ¬ Orders v w o := by
  intro horders
  have hless := h.symm.trans horders.less
  cases o <;> cases hless

/-- Not all decimals are found in the order of their numbers: some differ behind the digits that the
format has room for, and some are no numerals to the binary reader. -/
theorem not_exact_order :
    (Decimal.ofText? "9007199254740992".toList = some ⟨9007199254740992, 0⟩ ∧
      Decimal.ofText? "9007199254740993".toList = some ⟨9007199254740993, 0⟩ ∧
      ¬ Orders (.text "9007199254740992".toList) (.text "9007199254740993".toList)
        (compare (Decimal.value ⟨9007199254740992, 0⟩) (Decimal.value ⟨9007199254740993, 0⟩))) ∧
    (Decimal.ofText? "1_000".toList = some ⟨1000, 0⟩ ∧
      Decimal.ofText? "999".toList = some ⟨999, 0⟩ ∧
      ¬ Orders (.text "1_000".toList) (.text "999".toList)
        (compare (Decimal.value ⟨1000, 0⟩) (Decimal.value ⟨999, 0⟩))) := by
  have hlt : compare (Decimal.value ⟨9007199254740992, 0⟩) (Decimal.value ⟨9007199254740993, 0⟩) =
      .lt := by
    rw [compare_lt_iff_lt, Decimal.value_mk, Decimal.value_mk, Int64.toInt_zero]
    norm_num
  have hgt : compare (Decimal.value ⟨1000, 0⟩) (Decimal.value ⟨999, 0⟩) = .gt := by
    rw [compare_gt_iff_gt, Decimal.value_mk, Decimal.value_mk, Int64.toInt_zero]
    norm_num
  rw [hlt, hgt]
  exact ⟨⟨by decide, by decide, not_orders (by decide +kernel)⟩,
    by decide, by decide, not_orders (by decide +kernel)⟩

end Operator

end InlineExpr
