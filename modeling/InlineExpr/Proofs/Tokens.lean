import InlineExpr.Proofs.Marks

/-!
# Tokens and the text they are cut from

Tokens consist of characters of the text that they are cut from, and a reference is never cut apart.
Only separators are lost. The tokens of a span's body hold no span themselves
(`Span.spanless_of_mem_tokenize`).
-/

namespace InlineExpr

namespace Text

/-- A character of names belongs to words. -/
lemma not_separator_of_isNameChar {c : Char} (h : isNameChar c = true) :
    isSeparator c = false ∧ isDelimiter c = false := by
  constructor
  · by_contra hsep
    simp only [isSeparator, Bool.not_eq_false, Bool.or_eq_true, beq_iff_eq] at hsep
    rcases hsep with ((rfl | rfl) | rfl) | rfl <;> cases h
  · by_contra hdelim
    simp only [isDelimiter, Bool.not_eq_false, Bool.or_eq_true, beq_iff_eq] at hdelim
    rcases hdelim with (rfl | rfl) | rfl <;> cases h

/-- A character of words is none that ends them. -/
lemma not_separator_of_isWordChar {c : Char} (h : isWordChar c = true) :
    isSeparator c = false ∧ isDelimiter c = false := by
  simpa [isWordChar] using h

/-- A reference is part of one word. -/
lemma not_separator_of_mem_wrap {name : Text} (h : Reference.IsName name) :
    ∀ c ∈ Reference.wrap name, isSeparator c = false ∧ isDelimiter c = false := by
  have hopening : Reference.opening.all isWordChar = true := by decide
  have hclosing : Reference.closing.all isWordChar = true := by decide
  intro c hc
  rw [Reference.wrap, List.mem_append, List.mem_append] at hc
  rcases hc with (hc | hc) | hc
  · exact not_separator_of_isWordChar (List.all_eq_true.1 hopening c hc)
  · exact not_separator_of_isNameChar (h.of_mem hc)
  · exact not_separator_of_isWordChar (List.all_eq_true.1 hclosing c hc)

/-- The scan of a text is that of its rest, with its first character put where it belongs. -/
lemma scan_cons (c : Char) (t : Text) : Token.scan (c :: t) =
    if isSeparator c then ([], Token.consWord (Token.scan t).1 (Token.scan t).2)
    else if isDelimiter c then ([], [c] :: Token.consWord (Token.scan t).1 (Token.scan t).2)
    else (c :: (Token.scan t).1, (Token.scan t).2) := rfl

/-- Characters of words are put in front of the first word. -/
lemma scan_append {s : Text} (hs : ∀ c ∈ s, isSeparator c = false ∧ isDelimiter c = false)
    (t : Text) : Token.scan (s ++ t) = (s ++ (Token.scan t).1, (Token.scan t).2) := by
  induction s with
  | nil => rfl
  | cons c s ih =>
    obtain ⟨hsep, hdelim⟩ := hs c (.head _)
    rw [List.cons_append, scan_cons, ih fun d hd => hs d (.tail _ hd), hsep, hdelim]
    rfl

/-- A word in front of tokens adds no token but itself. -/
lemma mem_of_mem_consWord {word u : Text} {tokens : List Text}
    (h : u ∈ Token.consWord word tokens) : u = word ∨ u ∈ tokens := by
  rw [Token.consWord] at h
  split at h
  · exact .inr h
  · exact List.mem_cons.1 h

/-- The scan brings in no character. -/
lemma mem_of_mem_scan {t u : Text} (hu : u = (Token.scan t).1 ∨ u ∈ (Token.scan t).2) {c : Char}
    (hc : c ∈ u) : c ∈ t := by
  induction t generalizing u with
  | nil =>
    rcases hu with rfl | hu
    · exact hc
    · cases hu
  | cons d t ih =>
    rw [scan_cons] at hu
    split at hu
    · rcases hu with rfl | hu
      · cases hc
      · exact .tail _ (ih (mem_of_mem_consWord hu) hc)
    · split at hu
      · rcases hu with rfl | hu
        · cases hc
        · cases hu with
          | head =>
            rw [List.mem_singleton.1 hc]
            exact .head _
          | tail _ hu => exact .tail _ (ih (mem_of_mem_consWord hu) hc)
      · rcases hu with rfl | hu
        · cases hc with
          | head => exact .head _
          | tail _ hc => exact .tail _ (ih (.inl rfl) hc)
        · exact .tail _ (ih (.inr hu) hc)

/-- The characters of tokens stand in the text that was cut into them. -/
lemma mem_of_mem_tokenize {t u : Text} (hu : u ∈ tokenize t) {c : Char} (hc : c ∈ u) : c ∈ t :=
  mem_of_mem_scan (mem_of_mem_consWord hu) hc

/-- A word in front of tokens adds its own characters to theirs. -/
lemma exists_mem_consWord_iff {word : Text} {tokens : List Text} {c : Char} :
    (∃ u ∈ Token.consWord word tokens, c ∈ u) ↔ c ∈ word ∨ ∃ u ∈ tokens, c ∈ u := by
  cases word <;> simp [Token.consWord]

/-- Only separators are lost when a text is cut into tokens. -/
lemma exists_mem_tokenize {t : Text} {c : Char} (hc : c ∈ t) (hsep : isSeparator c = false) :
    ∃ u ∈ tokenize t, c ∈ u := by
  rw [tokenize, exists_mem_consWord_iff]
  induction t with
  | nil => cases hc
  | cons d t ih =>
    rw [scan_cons]
    cases hc with
    | head =>
      rw [hsep, if_neg Bool.false_ne_true]
      split
      · exact .inr ⟨[c], .head _, .head _⟩
      · exact .inl (.head _)
    | tail _ hc =>
      have ih := exists_mem_consWord_iff.2 (ih hc)
      split
      · exact .inr ih
      · split
        · obtain ⟨u, hu, hc⟩ := ih
          exact .inr ⟨u, .tail _ hu, hc⟩
        · exact (exists_mem_consWord_iff.1 ih).imp_left (.tail _)

/-- A word in front of tokens stands in front of their text. -/
lemma flatten_consWord (word : Text) (tokens : List Text) :
    (Token.consWord word tokens).flatten = word ++ tokens.flatten := by
  cases word <;> rfl

/-- Tokens together are the text without what separates them. -/
lemma flatten_tokenize (t : Text) : (tokenize t).flatten = t.filter (! isSeparator ·) := by
  rw [tokenize, flatten_consWord]
  induction t with
  | nil => rfl
  | cons c t ih =>
    rw [scan_cons]
    split
    · rename_i hsep
      rw [List.filter_cons_of_neg (by simp [hsep]), flatten_consWord, List.nil_append, ih]
    · rename_i hsep
      rw [List.filter_cons_of_pos (by simp [hsep])]
      split
      · rw [List.flatten_cons, flatten_consWord, List.nil_append, List.singleton_append, ih]
      · rw [List.cons_append, ih]

/-- Tokens are no longer together than the text that was cut into them. -/
lemma length_flatten_tokenize_le (t : Text) : (tokenize t).flatten.length ≤ t.length := by
  rw [flatten_tokenize]
  exact List.length_filter_le _ _

/-- Behind its first character a token holds characters from behind the first one of the text. -/
lemma mem_tail_of_mem_tokenize {t u : Text} (hu : u ∈ tokenize t) {c : Char} (hc : c ∈ u.tail) :
    c ∈ t.tail := by
  cases t with
  | nil => cases hu
  | cons d t =>
    have hu := mem_of_mem_consWord hu
    rw [scan_cons] at hu
    split at hu
    · rcases hu with rfl | hu
      · cases hc
      · exact mem_of_mem_scan (mem_of_mem_consWord hu) (List.mem_of_mem_tail hc)
    · split at hu
      · rcases hu with rfl | hu
        · cases hc
        · cases hu with
          | head => cases hc
          | tail _ hu => exact mem_of_mem_scan (mem_of_mem_consWord hu) (List.mem_of_mem_tail hc)
      · rcases hu with rfl | hu
        · exact mem_of_mem_scan (.inl rfl) hc
        · exact mem_of_mem_scan (.inr hu) (List.mem_of_mem_tail hc)

end Text

namespace Span

/-- The first closing mark that may end a span does. -/
lemma not_mem_tail_of_find? {t : Text} {cut : Cut} (h : find? t = some cut) :
    '}' ∉ cut.inner.tail := by
  fun_induction find? t generalizing cut with
  | case1 => cases h
  | case2 rest =>
    obtain ⟨⟨body, after⟩, hclose, rfl⟩ := Option.map_eq_some_iff.1 h
    cases rest with
    | nil => cases hclose
    | cons c rest =>
      obtain ⟨⟨b, r⟩, hsplit, hb⟩ := Option.map_eq_some_iff.1 hclose
      cases hb
      exact (eq_of_splitClosing? hsplit).2
  | case3 c t _ ih =>
    obtain ⟨rest, hrest, rfl⟩ := Option.map_eq_some_iff.1 h
    have hnot := ih hrest
    exact hnot

/-- A span is closed behind the first character of its text. -/
lemma find?_eq_none_of_not_mem_tail {t : Text} (h : '}' ∉ t.tail) : find? t = none := by
  cases hcut : find? t with
  | none => rfl
  | some cut =>
    rw [eq_of_find? hcut] at h
    cases hb : cut.before with
    | nil => simp [hb, wrap, opening, closing] at h
    | cons c b => simp [hb, wrap, opening, closing] at h

/-- No token of a span holds a span. -/
lemma spanless_of_mem_tokenize {t u : Text} {cut : Cut} (hcut : find? t = some cut)
    (hu : u ∈ tokenize cut.inner) : find? u = none :=
  find?_eq_none_of_not_mem_tail fun hm =>
    not_mem_tail_of_find? hcut (Text.mem_tail_of_mem_tokenize hu hm)

end Span

end InlineExpr
