import InlineExpr.Proofs.Rounding

/-!
# The two readings of a numeral

Arithmetic reads a text as an exact decimal, ordering reads it as a binary number. Of the texts that
are decimals the binary reader takes those without underscores and without a sign behind a leading
point (`Numeral.IsCommon`, `isSome_ofText?_iff`), and it takes them for the nearest number of the
format (`exists_stands_of_isCommon`), unless so large an exponent stands behind so many digits that
it is not read to its end (`Numeral.IsModest`).

Both readers cut a numeral into the same pieces (`Numeral.Splits`).
-/

namespace InlineExpr

namespace Numeral

/-- Neither an underscore nor a sign behind a leading point stands in a text. -/
def IsCommon (t : Text) : Prop :=
  '_' ∉ t ∧ ¬ ['.', '-'] <+: t ∧ ¬ ['.', '+'] <+: t

/-- The first part of a common numeral is one. -/
lemma IsCommon.of_append {s t : Text} (h : IsCommon (s ++ t)) : IsCommon s :=
  ⟨fun hm => h.1 (List.mem_append_left _ hm), fun hp => h.2.1 (hp.trans (List.prefix_append _ _)),
    fun hp => h.2.2 (hp.trans (List.prefix_append _ _))⟩

/-- A text has few characters, or its exponent is small. -/
def IsModest (t : Text) : Prop :=
  t.length < 65136 ∨ ∀ p ∈ Decimal.withoutExponent? t, p.2.natAbs < 655360

instance (t : Text) : Decidable (IsCommon t) :=
  inferInstanceAs (Decidable (_ ∧ _ ∧ _))

section Signs

variable {s t : Text} {c : Char}

/-- A text that begins with no sign is its own magnitude. -/
lemma sign_cons (hminus : c ≠ '-') (hplus : c ≠ '+') (t : Text) :
    sign (c :: t) = (false, c :: t) := by
  rw [sign]
  · rintro _ ⟨⟩
    exact hminus rfl
  · rintro _ ⟨⟩
    exact hplus rfl

/-- A sign is looked for in front alone. -/
lemma sign_append (hs : s ≠ []) (t : Text) : sign (s ++ t) = ((sign s).1, (sign s).2 ++ t) := by
  obtain ⟨c, s, rfl⟩ := List.exists_cons_of_ne_nil hs
  by_cases hminus : c = '-'
  · rw [hminus]
    rfl
  · by_cases hplus : c = '+'
    · rw [hplus]
      rfl
    · rw [List.cons_append, sign_cons hminus hplus, sign_cons hminus hplus]
      rfl

/-- Behind the sign stands a part of the text. -/
lemma sign_suffix (t : Text) : (sign t).2 <:+ t := by
  cases t with
  | nil => exact List.suffix_refl _
  | cons c t =>
    by_cases hminus : c = '-'
    · rw [hminus]
      exact List.suffix_cons _ _
    · by_cases hplus : c = '+'
      · rw [hplus]
        exact List.suffix_cons _ _
      · rw [sign_cons hminus hplus]

/-- A sign is the only character that taking it off loses. -/
lemma mem_sign (hc : c ∈ t) (hminus : c ≠ '-') (hplus : c ≠ '+') : c ∈ (sign t).2 := by
  cases t with
  | nil => cases hc
  | cons d t =>
    by_cases hd : d = '-' ∨ d = '+'
    · have hct : c ∈ t := by
        rcases List.mem_cons.1 hc with rfl | hc
        · exact absurd hd (not_or.2 ⟨hminus, hplus⟩)
        · exact hc
      rcases hd with rfl | rfl
      · exact hct
      · exact hct
    · obtain ⟨hd₁, hd₂⟩ := not_or.1 hd
      rw [sign_cons hd₁ hd₂]
      exact hc

end Signs

/-- The pieces of a numeral behind its sign: digits, maybe a point and more digits, and whatever an
exponent mark begins. -/
structure Splits (t : Text) (negative : Bool) (whole point places tail : Text) : Prop where
  sign : Numeral.sign t = (negative, whole ++ (point ++ tail))
  digits : isDigits (whole ++ places) = true
  point : point = '.' :: places ∨ point = [] ∧ places = []
  mark : ∀ c ∈ tail.head?, isExponentMark c = true

end Numeral

namespace Binary64

open Numeral

section Reading

variable {t whole point places tail : Text} {negative : Bool}

/-- What is read as an exponent begins with its mark. -/
lemma exponentPart?_head {e : ℤ} (h : exponentPart? tail = some e) :
    ∀ c ∈ tail.head?, isExponentMark c = true := by
  cases tail with
  | nil => nofun
  | cons c tail =>
    rintro _ ⟨⟩
    simp only [exponentPart?] at h
    split at h
    · rename_i hmark
      exact (Bool.and_eq_true_iff.1 hmark).1
    · cases h

/-- Leading digits are split from what follows them. -/
lemma span_digits {ds r : Text} (hds : ∀ c ∈ ds, c.isDigit = true)
    (hr : ∀ c ∈ r.head?, c.isDigit = false) :
    (ds ++ r).takeWhile Char.isDigit = ds ∧ (ds ++ r).dropWhile Char.isDigit = r := by
  rw [List.takeWhile_append_of_pos hds, List.dropWhile_append_of_pos hds]
  cases r with
  | nil => exact ⟨List.append_nil ds, rfl⟩
  | cons c r =>
    have hc := hr c rfl
    rw [List.takeWhile_cons_of_neg (by rw [hc]; exact Bool.false_ne_true),
      List.dropWhile_cons_of_neg (by rw [hc]; exact Bool.false_ne_true)]
    exact ⟨List.append_nil ds, rfl⟩

/-- Digits have no case. -/
lemma toLower_of_isDigit {c : Char} (h : c.isDigit = true) : c.toLower = c := by
  obtain ⟨-, hhigh⟩ := Char.isDigit_iff_toNat.1 h
  refine dif_neg fun hletter => ?_
  have hlow : 'A'.toNat ≤ c.toNat := hletter.1
  have hletters : '9'.toNat < 'A'.toNat := by decide
  omega

section Splits

variable (h : Splits t negative whole point places tail)

include h

/-- A numeral begins with a digit or a point, so it is no word. -/
lemma exists_head_of_splits : ∃ c r, whole ++ (point ++ tail) = c :: r ∧ c.toLower = c ∧
    (c.isDigit = true ∨ c = '.') := by
  obtain ⟨hne, hdigits⟩ := isDigits_iff.1 h.digits
  cases whole with
  | cons c whole =>
    have hc := hdigits c (.head _)
    exact ⟨c, _, rfl, toLower_of_isDigit hc, .inl hc⟩
  | nil =>
    rcases h.point with rfl | ⟨-, rfl⟩
    · exact ⟨'.', _, rfl, rfl, .inr rfl⟩
    · exact absurd rfl hne

/-- The digits of a numeral are found behind its sign. -/
lemma ofNumeral?_of_splits : ofNumeral? negative (whole ++ (point ++ tail)) =
    (exponentPart? tail).map fun e =>
      ofScientific negative (whole ++ places) (e - places.length) := by
  obtain ⟨hne, hdigits⟩ := isDigits_iff.1 h.digits
  obtain ⟨hwhole, hplaces⟩ := List.forall_mem_append.1 hdigits
  have htail : ∀ c ∈ tail.head?, c.isDigit = false := by
    intro c hc
    rw [Bool.eq_false_iff]
    intro hdigit
    have hmark := h.mark c hc
    rw [isExponentMark_of_isDigit hdigit] at hmark
    cases hmark
  have hsome : ¬ (whole.isEmpty && places.isEmpty) = true := by
    rw [Bool.and_eq_true, List.isEmpty_iff, List.isEmpty_iff]
    rintro ⟨rfl, rfl⟩
    exact hne rfl
  rcases h.point with rfl | ⟨rfl, rfl⟩
  · obtain ⟨htake, hdrop⟩ := span_digits (r := '.' :: (places ++ tail)) hwhole (by rintro _ ⟨⟩; rfl)
    obtain ⟨htake', hdrop'⟩ := span_digits hplaces htail
    simp only [ofNumeral?, List.cons_append, htake, hdrop, htake', hdrop', if_neg hsome]
  · obtain ⟨htake, hdrop⟩ := span_digits hwhole htail
    have hpoint : ∀ r, tail ≠ '.' :: r := by
      rintro r rfl
      cases h.mark '.' rfl
    simp only [ofNumeral?, List.nil_append, htake, hdrop]
    exact if_neg hsome

/-- The binary reader takes a numeral for its pieces. -/
lemma ofText?_of_splits : ofText? t = (exponentPart? tail).map fun e =>
    ofScientific negative (whole ++ places) (e - places.length) := by
  obtain ⟨c, r, hc, hlower, hhead⟩ := exists_head_of_splits h
  have hword {d : Char} {w : Text} (hd : d.isDigit = false) (hpoint : d ≠ '.') :
      Text.lowerAscii (c :: r) ≠ d :: w := by
    intro he
    rw [Text.lowerAscii, List.map_cons, hlower, List.cons.injEq] at he
    rcases hhead with hdigit | rfl
    · exact ne_of_isDigit hdigit hd he.1
    · exact hpoint he.1.symm
  have hnumeral := ofNumeral?_of_splits h
  rw [hc] at hnumeral
  simp only [ofText?, h.sign, hc]
  rw [if_neg, if_neg, hnumeral]
  · exact hword rfl (by decide)
  · rw [Bool.or_eq_true, decide_eq_true_eq, decide_eq_true_eq, not_or]
    exact ⟨hword rfl (by decide), hword rfl (by decide)⟩

end Splits

/-- What the binary reader takes has no underscore. -/
lemma underscore_not_mem_of_exponentPart? {e : ℤ} (h : exponentPart? tail = some e) :
    '_' ∉ tail := by
  cases tail with
  | nil => exact List.not_mem_nil
  | cons c tail =>
    simp only [exponentPart?] at h
    split at h
    · rename_i hmark
      obtain ⟨hc, hdigits⟩ := Bool.and_eq_true_iff.1 hmark
      intro hm
      rcases List.mem_cons.1 hm with rfl | hm
      · cases hc
      · exact ne_of_isDigit ((isDigits_iff.1 hdigits).2 _ (mem_sign hm (by decide) (by decide)))
          rfl rfl
    · cases h

/-- No numeral of the binary format has an underscore. -/
lemma underscore_not_mem_of_ofNumeral? {x : Binary64} (h : ofNumeral? negative t = some x) :
    '_' ∉ t := by
  have hspan {t : Text} (hm : '_' ∈ t) : '_' ∈ t.dropWhile Char.isDigit := by
    rw [← List.takeWhile_append_dropWhile (p := Char.isDigit) (l := t), List.mem_append] at hm
    refine hm.resolve_left fun hm => ?_
    exact ne_of_isDigit (List.mem_takeWhile_imp hm) rfl rfl
  have hrest {p : Prop} [Decidable p] {f : ℤ → Binary64} {r : Text}
      (h : (if p then none else (exponentPart? r).map f) = some x) : '_' ∉ r := by
    split at h
    · cases h
    · obtain ⟨e, he, -⟩ := Option.map_eq_some_iff.1 h
      exact underscore_not_mem_of_exponentPart? he
  intro hm
  have hm := hspan hm
  simp only [ofNumeral?] at h
  split at h
  · rename_i r hr
    rw [hr, List.mem_cons] at hm
    exact hrest h (hspan (hm.resolve_left (by decide)))
  · exact hrest h hm

/-- The binary reader takes no text but common ones. -/
lemma isCommon_of_ofText? {x : Binary64} (h : ofText? t = some x) : IsCommon t := by
  have hsigned (c : Char) (hc : c = '-' ∨ c = '+') : ¬ ['.', c] <+: t := by
    rintro ⟨r, rfl⟩
    have hnone : ofText? (['.', c] ++ r) = none := by
      rcases hc with rfl | rfl
      · rfl
      · rfl
    rw [hnone] at h
    cases h
  refine ⟨fun hm => ?_, hsigned '-' (.inl rfl), hsigned '+' (.inr rfl)⟩
  have hrest : '_' ∈ (sign t).2 := mem_sign hm (by decide) (by decide)
  have hword {w : Text} (hw : '_' ∉ w) : Text.lowerAscii (sign t).2 ≠ w := by
    rintro rfl
    exact hw (List.mem_map.2 ⟨'_', hrest, rfl⟩)
  simp only [ofText?] at h
  rw [if_neg, if_neg] at h
  · exact underscore_not_mem_of_ofNumeral? h hrest
  · exact hword (by decide)
  · rw [Bool.or_eq_true, decide_eq_true_eq, decide_eq_true_eq, not_or]
    exact ⟨hword (by decide), hword (by decide)⟩

end Reading

section Exponents

variable {e f : ℤ} {t sig ds : Text}

/-- What the binary reader takes an exponent for: it does not read on once it is large. -/
def TakesFor (e f : ℤ) : Prop :=
  f = e ∨ 655360 ≤ e ∧ 65536 ≤ f ∨ e ≤ -655360 ∧ f ≤ -65536

/-- The magnitude of an exponent is taken in whole unless it has reached the cap. -/
lemma exponentMagnitude_spec (ds : Text) : exponentMagnitude ds = ofDigits ds ∨
    65536 ≤ exponentMagnitude ds ∧ 655360 ≤ ofDigits ds := by
  -- the cap is met while the rest of the digits is still to come
  have hfold : ∀ (ds : Text) (taken e : ℕ), taken = e ∨ 65536 ≤ taken ∧ 655360 ≤ e →
      let last :=
        ds.foldl (fun e c => if e < 65536 then 10 * e + (c.toNat - '0'.toNat) else e) taken
      last = Nat.ofDigitChars 10 ds e ∨ 65536 ≤ last ∧ 655360 ≤ Nat.ofDigitChars 10 ds e := by
    intro ds
    induction ds with
    | nil => exact fun _ _ h => h
    | cons c ds ih =>
      intro taken e h
      rw [List.foldl_cons, Nat.ofDigitChars_cons]
      apply ih
      split
      · omega
      · omega
  exact hfold ds 0 0 (.inl rfl)

/-- An exponent is taken for what it writes, or for a large one of the same sign. -/
lemma takesFor_signed (negative : Bool) (ds : Text) :
    TakesFor (Numeral.signed negative (ofDigits ds))
      (Numeral.signed negative (exponentMagnitude ds)) := by
  have h := exponentMagnitude_spec ds
  rw [TakesFor]
  cases negative with
  | true =>
    simp only [Numeral.signed, if_true]
    omega
  | false =>
    simp only [Numeral.signed, Bool.false_eq_true, if_false]
    omega

/-- Both readers find the same exponent. -/
lemma exists_exponentPart (h : Decimal.withoutExponent? t = some (sig, e)) :
    ∃ tail f, t = sig ++ tail ∧ exponentPart? tail = some f ∧ TakesFor e f := by
  have happend := List.takeWhile_append_dropWhile (p := (!isExponentMark ·)) (l := t)
  have hhead := List.head?_dropWhile_not (!isExponentMark ·) t
  rw [Decimal.withoutExponent?] at h
  split at h
  · rename_i hnil
    cases h
    rw [hnil, List.append_nil] at happend
    exact ⟨[], 0, by rw [happend, List.append_nil], rfl, .inl rfl⟩
  · rename_i c r hcons
    obtain ⟨f, hf, hpair⟩ := Option.map_eq_some_iff.1 h
    cases hpair
    rw [hcons] at happend hhead
    have hmark : isExponentMark c = true := by simpa using hhead
    simp only [exponent?] at hf
    split at hf
    · rename_i hdigits
      cases hf
      refine ⟨c :: r, _, happend.symm, ?_, takesFor_signed (sign r).1 (sign r).2⟩
      simp only [exponentPart?, hmark, hdigits, Bool.and_self, if_true]
    · cases hf

end Exponents

section Significands

variable {sig ds : Text} {n : ℕ} {c : ℤ}

/-- Digits without underscores are read for what they write. -/
lemma digits?_of_underscore_not_mem {k : ℕ} (h : Decimal.digits? ds = some k) (hds : '_' ∉ ds) :
    isDigits ds = true ∧ k = ofDigits ds := by
  have hne : ds ≠ [] := by
    rintro rfl
    cases h
  rw [Decimal.digits?] at h
  · split at h
    · rename_i hall
      have hdigits : ∀ c ∈ ds, c.isDigit = true := by
        intro c hc
        have hdigit := List.all_eq_true.1 hall c hc
        rw [Bool.or_eq_true, beq_iff_eq] at hdigit
        exact hdigit.resolve_right fun he => hds (he ▸ hc)
      cases h
      rw [List.filter_eq_self.2 hdigits]
      exact ⟨isDigits_iff.2 ⟨hne, hdigits⟩, rfl⟩
    · cases h
  · exact hne
  · rintro _ rfl
    exact hds (.head _)

/-- A coefficient without underscores is a sign and digits, read for what they write. -/
lemma coefficient?_of_underscore_not_mem (h : Decimal.coefficient? ds = some c) (hds : '_' ∉ ds) :
    isDigits (sign ds).2 = true ∧ c = Numeral.signed (sign ds).1 (ofDigits (sign ds).2) := by
  obtain ⟨k, hk, rfl⟩ := Option.map_eq_some_iff.1 h
  obtain ⟨hdigits, rfl⟩ :=
    digits?_of_underscore_not_mem hk fun hm => hds ((sign_suffix ds).subset hm)
  exact ⟨hdigits, rfl⟩

/-- A numeral without its point, and where the point stood. -/
lemma withoutPoint_spec (h : Decimal.withoutPoint sig = (ds, n)) :
    sig = ds ∧ n = 0 ∨
    ∃ lead places, sig = lead ++ '.' :: places ∧ ds = lead ++ places ∧
      n = (places.filter (· != '_')).length := by
  have happend := List.takeWhile_append_dropWhile (p := (· != '.')) (l := sig)
  have hhead := List.head?_dropWhile_not (· != '.') sig
  rw [Decimal.withoutPoint] at h
  split at h
  · rename_i hnil
    cases h
    rw [hnil, List.append_nil] at happend
    exact .inl ⟨happend.symm, rfl⟩
  · rename_i c places hcons
    cases h
    rw [hcons] at happend hhead
    obtain rfl : c = '.' := by simpa using hhead
    exact .inr ⟨_, _, happend.symm, rfl, rfl⟩

/-- Both readers find the same digits. -/
lemma exists_significand (hpoint : Decimal.withoutPoint sig = (ds, n))
    (hc : Decimal.coefficient? ds = some c) (hcommon : IsCommon sig) :
    ∃ negative whole point places,
      (∀ tail, sign (sig ++ tail) = (negative, whole ++ (point ++ tail))) ∧
      isDigits (whole ++ places) = true ∧ (point = '.' :: places ∨ point = [] ∧ places = []) ∧
      c = Numeral.signed negative (ofDigits (whole ++ places)) ∧ n = places.length := by
  obtain ⟨hunderscore, hminus, hplus⟩ := hcommon
  rcases withoutPoint_spec hpoint with ⟨rfl, rfl⟩ | ⟨lead, places, rfl, rfl, rfl⟩
  · obtain ⟨hdigits, rfl⟩ := coefficient?_of_underscore_not_mem hc hunderscore
    have hne : sig ≠ [] := by
      rintro rfl
      cases hdigits
    refine ⟨(sign sig).1, (sign sig).2, [], [], fun tail => ?_, ?_, .inr ⟨rfl, rfl⟩, ?_, rfl⟩
    · rw [sign_append hne]
      rfl
    · rwa [List.append_nil]
    · rw [List.append_nil]
  · have hplaces : places.filter (· != '_') = places := by
      apply List.filter_eq_self.2
      intro c hc
      apply bne_iff_ne.2
      rintro rfl
      exact hunderscore (List.mem_append_right _ (.tail _ hc))
    have hds : '_' ∉ lead ++ places := by
      intro hm
      apply hunderscore
      rcases List.mem_append.1 hm with hm | hm
      · exact List.mem_append_left _ hm
      · exact List.mem_append_right _ (.tail _ hm)
    obtain ⟨hdigits, rfl⟩ := coefficient?_of_underscore_not_mem hc hds
    rw [hplaces]
    by_cases hlead : lead = []
    · -- a sign behind the point would be read by the decimal reader alone
      subst hlead
      simp only [List.nil_append] at hdigits hminus hplus ⊢
      have hsign : sign places = (false, places) := by
        cases places with
        | nil => rfl
        | cons c places =>
          apply sign_cons
          · rintro rfl
            exact hminus ⟨places, rfl⟩
          · rintro rfl
            exact hplus ⟨places, rfl⟩
      rw [hsign] at hdigits ⊢
      exact ⟨false, [], '.' :: places, places, fun _ => rfl, hdigits, .inl rfl, rfl, rfl⟩
    · rw [sign_append hlead] at hdigits ⊢
      refine ⟨(sign lead).1, (sign lead).2, '.' :: places, places, fun tail => ?_, hdigits,
        .inl rfl, rfl, rfl⟩
      rw [List.append_assoc, sign_append hlead]

end Significands

section Decimals

variable {t : Text} {d : Decimal}

/-- A decimal that is read is told by the pieces of its text. -/
lemma ofText?_eq_some (h : Decimal.ofText? t = some d) :
    ∃ sig e ds n c, Decimal.withoutExponent? t = some (sig, e) ∧
      Decimal.withoutPoint sig = (ds, n) ∧ Decimal.coefficient? ds = some c ∧
      d.coefficient = c ∧ d.scale.toInt = n - e := by
  obtain ⟨⟨sig, e⟩, hexponent, h⟩ := Option.bind_eq_some_iff.1 h
  obtain ⟨ds, n, hpoint⟩ : ∃ ds n, Decimal.withoutPoint sig = (ds, n) := ⟨_, _, rfl⟩
  simp only [hpoint] at h
  obtain ⟨c, hc, h⟩ := Option.bind_eq_some_iff.1 h
  obtain ⟨s, hs, hd⟩ := Option.bind_eq_some_iff.1 h
  cases hd
  exact ⟨sig, e, ds, n, c, hexponent, hpoint, hc, rfl, Decimal.scale?_eq_some_iff.1 hs⟩

/-- A common text that is a decimal has pieces, and both readers read the text off them. -/
lemma exists_splits (h : Decimal.ofText? t = some d) (hcommon : IsCommon t) :
    ∃ negative whole point places tail e f,
      Splits t negative whole point places tail ∧ exponentPart? tail = some f ∧ TakesFor e f ∧
      d.coefficient = Numeral.signed negative (ofDigits (whole ++ places)) ∧
      d.scale.toInt = places.length - e ∧
      ∃ sig, Decimal.withoutExponent? t = some (sig, e) := by
  obtain ⟨sig, e, ds, n, c, hexponent, hpoint, hc, hcoefficient, hscale⟩ := ofText?_eq_some h
  obtain ⟨tail, f, rfl, htail, htakes⟩ := exists_exponentPart hexponent
  obtain ⟨negative, whole, point, places, hsign, hdigits, hplaces, rfl, rfl⟩ :=
    exists_significand hpoint hc (hcommon.of_append)
  exact ⟨negative, whole, point, places, tail, e, f,
    ⟨hsign tail, hdigits, hplaces, exponentPart?_head htail⟩, htail, htakes, hcoefficient,
    hscale, sig, hexponent⟩

/-- The binary reader takes those decimals that are common texts. -/
lemma isSome_ofText?_iff (h : Decimal.ofText? t = some d) :
    (ofText? t).isSome = true ↔ IsCommon t := by
  constructor
  · intro hsome
    obtain ⟨x, hx⟩ := Option.isSome_iff_exists.1 hsome
    exact isCommon_of_ofText? hx
  · intro hcommon
    obtain ⟨negative, whole, point, places, tail, e, f, hsplits, htail, -⟩ :=
      exists_splits h hcommon
    rw [ofText?_of_splits hsplits, htail]
    rfl

/-- Behind few digits, an exponent that is too large to be read in whole is large enough. -/
lemma ofScientific_takesFor {e f : ℤ} {ds : Text} {n : ℕ} (negative : Bool) (h : TakesFor e f)
    (hmodest : ds.length < 65136 ∨ e.natAbs < 655360) (hn : n ≤ ds.length) :
    ofScientific negative ds (f - n) = ofScientific negative ds (e - n) := by
  have hlength := (List.dropWhile_suffix (l := ds) (· == '0')).length_le
  rcases h with rfl | ⟨he, hf⟩ | ⟨he, hf⟩
  · rfl
  · simp only [ofScientific]
    rw [if_pos (show 400 < ((ds.dropWhile (· == '0')).length : ℤ) + (f - n) by omega),
      if_pos (show 400 < ((ds.dropWhile (· == '0')).length : ℤ) + (e - n) by omega)]
  · simp only [ofScientific]
    rw [if_neg (show ¬ 400 < ((ds.dropWhile (· == '0')).length : ℤ) + (f - n) by omega),
      if_neg (show ¬ 400 < ((ds.dropWhile (· == '0')).length : ℤ) + (e - n) by omega),
      if_pos (show ((ds.dropWhile (· == '0')).length : ℤ) + (f - n) < -400 by omega),
      if_pos (show ((ds.dropWhile (· == '0')).length : ℤ) + (e - n) < -400 by omega)]

/-- Leading zeros make no difference to the binary reader. -/
lemma ofScientific_replicate_zero (negative : Bool) (n : ℕ) (ds : Text) (e : ℤ) :
    ofScientific negative (List.replicate n '0' ++ ds) e = ofScientific negative ds e := by
  have hdigits : ofDigits (List.replicate n '0' ++ ds) = ofDigits ds := by
    rw [ofDigits_append, ofDigits_replicate_zero, zero_mul, zero_add]
  have hdrop : (List.replicate n '0' ++ ds).dropWhile (· == '0') = ds.dropWhile (· == '0') := by
    apply List.dropWhile_append_of_pos
    intro c hc
    exact beq_iff_eq.2 (List.eq_of_mem_replicate hc)
  simp only [ofScientific, hdigits, hdrop]

/-- The digits of a numeral are no more than its characters. -/
lemma length_digits_le {negative : Bool} {whole point places tail : Text}
    (h : Splits t negative whole point places tail) : (whole ++ places).length ≤ t.length := by
  have hlength := (sign_suffix t).length_le
  have hpoint : places.length ≤ point.length := by
    rcases h.point with rfl | ⟨rfl, rfl⟩
    · exact Nat.le_succ _
    · exact Nat.le_refl _
  rw [h.sign] at hlength
  simp only [List.length_append] at hlength ⊢
  omega

/-- The binary reader takes a decimal for a number of the format, and for the nearest one unless a
large exponent stands behind many digits. -/
lemma exists_stands_of_isCommon (h : Decimal.ofText? t = some d) (hcommon : IsCommon t) :
    ∃ v x, Stands v x ∧ ofText? t = some x ∧ (IsModest t → Nearest d.value v) := by
  obtain ⟨negative, whole, point, places, tail, e, f, hsplits, htail, htakes, hcoefficient, hscale,
    sig, hsig⟩ := exists_splits h hcommon
  have hread : ofText? t = some (ofScientific negative (whole ++ places) (f - places.length)) := by
    rw [ofText?_of_splits hsplits, htail, Option.map_some]
  have hds := (isDigits_iff.1 hsplits.digits).2
  by_cases hmodest : IsModest t
  · have hlength := length_digits_le hsplits
    have hplaces : places.length ≤ (whole ++ places).length := by
      rw [List.length_append]
      exact Nat.le_add_left _ _
    have hsmall : (whole ++ places).length < 65136 ∨ e.natAbs < 655360 :=
      hmodest.imp (fun h => hlength.trans_lt h) fun h => h (sig, e) hsig
    obtain ⟨v, hv, hstands⟩ := ofScientific_stands negative hds (e - places.length)
    rw [ofScientific_takesFor negative htakes hsmall hplaces] at hread
    refine ⟨v, _, hstands, hread, fun _ => ?_⟩
    rw [Decimal.value, hcoefficient, hscale, cast_signed, ← neg_sub, zpow_neg, div_inv_eq_mul,
      ← signed_mul]
    exact hv
  · obtain ⟨v, -, hstands⟩ := ofScientific_stands negative hds (f - places.length)
    exact ⟨v, _, hstands, hread, fun h => absurd h hmodest⟩

end Decimals

end Binary64

end InlineExpr
