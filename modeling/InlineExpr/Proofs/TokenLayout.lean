import InlineExpr.Proofs.Tokens
import Mathlib.Data.List.Chain

/-!
# Layouts of tokens

A layout puts runs of separators around tokens and between them, and none may be missing between two
words. Every body is the text of a layout, and whatever the layout, its tokens are what the text is
cut into. So cutting a body loses separators and nothing else, and every word is as long as it can
be (`Token.tokenize_lossless`).
-/

namespace InlineExpr

namespace Token

/-- The characters that stand between tokens and belong to none. -/
def separators : Text :=
  ['\t', '\r', '\n', ' ']

/-- The characters that are tokens by themselves. -/
def delimiters : Text :=
  ['(', ')', ',']

/-- A run of separators, which may be empty. -/
def IsGap (t : Text) : Prop :=
  ∀ c ∈ t, c ∈ separators

/-- A run of characters that neither separate tokens nor are tokens by themselves. -/
def IsWord (t : Text) : Prop :=
  t ≠ [] ∧ ∀ c ∈ t, c ∉ separators ∧ c ∉ delimiters

/-- A token is a delimiter or a word. -/
def IsToken (t : Text) : Prop :=
  (∃ c ∈ delimiters, t = [c]) ∨ IsWord t

/-- A token and the gap in front of it. -/
structure Placed where
  gap : Text
  token : Text
  isGap : IsGap gap
  isToken : IsToken token

/-- Between two words there is a separator. -/
def Placed.Apart (p q : Placed) : Prop :=
  IsWord p.token → IsWord q.token → q.gap ≠ []

/-- Tokens in their places, and the gap behind the last one. -/
structure Layout where
  pieces : List Placed
  last : Text
  apart : pieces.IsChain Placed.Apart
  isGap : IsGap last

namespace Layout

/-- The text of the layout: every token behind its gap, and the last gap. -/
def text (l : Layout) : Text :=
  l.pieces.flatMap (fun p => p.gap ++ p.token) ++ l.last

/-- The tokens of the layout in order. -/
def tokens (l : Layout) : List Text :=
  l.pieces.map Placed.token

end Layout

section Characters

variable {c : Char}

/-- The separators are the characters that the tokenizer skips. -/
lemma isSeparator_iff : isSeparator c = true ↔ c ∈ separators := by
  simp [isSeparator, separators, or_assoc]

/-- The delimiters are the characters that the tokenizer cuts off by themselves. -/
lemma isDelimiter_iff : isDelimiter c = true ↔ c ∈ delimiters := by
  simp [isDelimiter, delimiters, or_assoc]

/-- Every other character belongs to a word. -/
lemma isWordChar_iff : isWordChar c = true ↔ c ∉ separators ∧ c ∉ delimiters := by
  rw [← isSeparator_iff, ← isDelimiter_iff, isWordChar]
  simp

/-- No delimiter is a separator. -/
lemma not_separator_of_mem_delimiters (h : c ∈ delimiters) : c ∉ separators := by
  simp only [delimiters, List.mem_cons, List.not_mem_nil, or_false] at h
  rcases h with rfl | rfl | rfl
  · decide
  · decide
  · decide

/-- A delimiter is not a word. -/
lemma not_isWord_delimiter (h : c ∈ delimiters) : ¬IsWord [c] :=
  fun hword => (hword.2 c (.head _)).2 h

/-- A single character of words is a word. -/
lemma isWord_singleton (h : isWordChar c = true) : IsWord [c] :=
  ⟨List.cons_ne_nil _ _, fun _ hd => List.mem_singleton.1 hd ▸ isWordChar_iff.1 h⟩

/-- A word stays one with another character of words in front. -/
lemma IsWord.cons {t : Text} (hc : isWordChar c = true) (h : IsWord t) : IsWord (c :: t) :=
  ⟨List.cons_ne_nil _ _, List.forall_mem_cons.2 ⟨isWordChar_iff.1 hc, h.2⟩⟩

/-- A gap stays one with another separator in front. -/
lemma IsGap.cons {t : Text} (hc : c ∈ separators) (h : IsGap t) : IsGap (c :: t) :=
  List.forall_mem_cons.2 ⟨hc, h⟩

end Characters

section Pieces

variable {c : Char} {t : Text}

/-- A leading separator is skipped. -/
lemma tokenize_separator (h : c ∈ separators) : tokenize (c :: t) = tokenize t := by
  rw [tokenize, Text.scan_cons, if_pos (isSeparator_iff.2 h)]
  rfl

/-- A leading gap is skipped. -/
lemma tokenize_gap {gap : Text} (h : IsGap gap) : tokenize (gap ++ t) = tokenize t := by
  induction gap with
  | nil => rfl
  | cons c gap ih =>
    obtain ⟨hc, hgap⟩ := List.forall_mem_cons.1 h
    rw [List.cons_append, tokenize_separator hc, ih hgap]

/-- A leading delimiter is the first token. -/
lemma tokenize_delimiter (h : c ∈ delimiters) : tokenize (c :: t) = [c] :: tokenize t := by
  have hsep := mt isSeparator_iff.1 (not_separator_of_mem_delimiters h)
  rw [tokenize, Text.scan_cons, if_neg hsep, if_pos (isDelimiter_iff.2 h)]
  rfl

/-- A text that does not begin with a character of words begins with no word. -/
lemma scan_of_head (h : ∀ c ∈ t.head?, isWordChar c = false) : (scan t).1 = [] := by
  cases t with
  | nil => rfl
  | cons c t =>
    have hc := h c rfl
    rw [isWordChar, Bool.and_eq_false_iff, Bool.not_eq_false', Bool.not_eq_false'] at hc
    rw [Text.scan_cons]
    rcases hc with hc | hc
    · rw [if_pos hc]
    · rw [if_pos hc]
      split
      · rfl
      · rfl

/-- A word runs as far as the characters of words do. -/
lemma tokenize_word {word : Text} (hword : IsWord word)
    (h : ∀ c ∈ t.head?, isWordChar c = false) : tokenize (word ++ t) = word :: tokenize t := by
  have hscan := Text.scan_append (s := word) fun c hc =>
    Text.not_separator_of_isWordChar (isWordChar_iff.2 (hword.2 c hc))
  rw [tokenize, hscan, scan_of_head h, List.append_nil, tokenize, scan_of_head h]
  cases word with
  | nil => exact absurd rfl hword.1
  | cons c word => rfl

end Pieces

namespace Layout

variable {c : Char}

/-- What stands behind a word begins with a separator or a delimiter, if with anything. -/
lemma head_behind_word {p : Placed} {pieces : List Placed} {last : Text}
    (hapart : (p :: pieces).IsChain Placed.Apart) (hlast : IsGap last) (hword : IsWord p.token) :
    ∀ c ∈ (pieces.flatMap (fun p => p.gap ++ p.token) ++ last).head?, isWordChar c = false := by
  have not_word {c : Char} (h : c ∈ separators ∨ c ∈ delimiters) : isWordChar c = false := by
    rw [← Bool.not_eq_true, isWordChar_iff]
    tauto
  intro c hc
  cases pieces with
  | nil =>
    exact not_word (.inl (hlast c (List.mem_of_mem_head? hc)))
  | cons q pieces =>
    have hq := (List.isChain_cons_cons.1 hapart).1 hword
    rw [List.flatMap_cons, List.append_assoc, List.append_assoc] at hc
    rcases hgap : q.gap with _ | ⟨d, gap⟩
    · rcases q.isToken with ⟨d, hd, htoken⟩ | htoken
      · rw [hgap, htoken] at hc
        cases hc
        exact not_word (.inr hd)
      · exact absurd hgap (hq htoken)
    · have hd := q.isGap d (hgap ▸ List.mem_cons_self)
      rw [hgap] at hc
      cases hc
      exact not_word (.inl hd)

/-- The text of a layout is cut into the tokens that were laid out. -/
lemma tokenize_text (l : Layout) : tokenize l.text = l.tokens := by
  obtain ⟨pieces, last, hapart, hlast⟩ := l
  rw [text, tokens]
  dsimp only
  induction pieces with
  | nil =>
    rw [← List.append_nil last, List.flatMap_nil, List.nil_append, tokenize_gap hlast]
    rfl
  | cons p pieces ih =>
    have ih := ih hapart.tail
    rw [List.flatMap_cons, List.append_assoc, List.append_assoc, tokenize_gap p.isGap,
      List.map_cons, ← ih]
    rcases p.isToken with ⟨c, hc, htoken⟩ | hword
    · rw [htoken, List.singleton_append, tokenize_delimiter hc]
    · exact tokenize_word hword (head_behind_word hapart hlast hword)

/-- A separator in front is part of the first gap. -/
lemma exists_separator (hc : c ∈ separators) (l : Layout) : ∃ m : Layout, m.text = c :: l.text := by
  obtain ⟨_ | ⟨p, pieces⟩, last, hapart, hlast⟩ := l
  · exact ⟨⟨[], c :: last, .nil, hlast.cons hc⟩, rfl⟩
  · refine ⟨⟨⟨c :: p.gap, p.token, p.isGap.cons hc, p.isToken⟩ :: pieces, last, ?_, hlast⟩, rfl⟩
    refine hapart.imp_head ?_
    exact fun h => h

/-- A delimiter in front is a token of its own. -/
lemma exists_delimiter (hc : c ∈ delimiters) (l : Layout) : ∃ m : Layout, m.text = c :: l.text := by
  refine ⟨⟨⟨[], [c], nofun, .inl ⟨c, hc, rfl⟩⟩ :: l.pieces, l.last, ?_, l.isGap⟩, rfl⟩
  exact l.apart.cons fun q _ hword => absurd hword (not_isWord_delimiter hc)

/-- Any other character in front begins a word, or is the new beginning of one. -/
lemma exists_wordChar (hc : isWordChar c = true) (l : Layout) :
    ∃ m : Layout, m.text = c :: l.text := by
  have single := isWord_singleton hc
  obtain ⟨_ | ⟨p, pieces⟩, last, hapart, hlast⟩ := l
  · exact ⟨⟨[⟨[], [c], nofun, .inr single⟩], last, .singleton _, hlast⟩, rfl⟩
  by_cases hp : p.gap = [] ∧ IsWord p.token
  · obtain ⟨hgap, hword⟩ := hp
    refine ⟨⟨⟨[], c :: p.token, nofun, .inr (hword.cons hc)⟩ :: pieces, last, ?_, hlast⟩, ?_⟩
    · exact hapart.imp_head fun h _ => h hword
    · simp [text, hgap]
  · refine ⟨⟨⟨[], [c], nofun, .inr single⟩ :: p :: pieces, last, ?_, hlast⟩, rfl⟩
    exact .cons_cons (fun _ hword hgap => hp ⟨hgap, hword⟩) hapart

/-- Every text is laid out somehow. -/
lemma exists_text (body : Text) : ∃ l : Layout, l.text = body := by
  induction body with
  | nil => exact ⟨⟨[], [], .nil, nofun⟩, rfl⟩
  | cons c body ih =>
    obtain ⟨l, rfl⟩ := ih
    by_cases hsep : c ∈ separators
    · exact exists_separator hsep l
    by_cases hdelim : c ∈ delimiters
    · exact exists_delimiter hdelim l
    exact exists_wordChar (isWordChar_iff.2 ⟨hsep, hdelim⟩) l

end Layout

/-- The tokens of a body are the body without its separators, each of them is a delimiter or a word,
and they stand in the body with a separator between any two words next to each other. Conversely,
any layout of such tokens is cut into them. -/
theorem tokenize_lossless :
    (∀ body : Text, (tokenize body).flatten = body.filter (· ∉ separators) ∧
      (∀ t ∈ tokenize body, IsToken t) ∧
      ∃ l : Layout, l.text = body ∧ l.tokens = tokenize body) ∧
    ∀ l : Layout, tokenize l.text = l.tokens := by
  refine ⟨fun body => ?_, Layout.tokenize_text⟩
  obtain ⟨l, rfl⟩ := Layout.exists_text body
  refine ⟨?_, fun t ht => ?_, l, rfl, l.tokenize_text.symm⟩
  · rw [Text.flatten_tokenize]
    exact List.filter_congr fun c _ => by simp [← isSeparator_iff]
  · rw [l.tokenize_text] at ht
    obtain ⟨p, -, rfl⟩ := List.mem_map.1 ht
    exact p.isToken

/-- Two words apart, and delimiters that need no separator beside them. -/
theorem tokenize_lossless_call :
    ∃ l : Layout, l.text = "length(ä, \r\n(-1\tß)) ".toList ∧
      l.tokens = ["length", "(", "ä", ",", "(", "-1", "ß", ")", ")"].map String.toList ∧
      (∀ t ∈ l.tokens, IsToken t) ∧ tokenize l.text = l.tokens := by
  obtain ⟨-, htoken, l, htext, htokens⟩ := tokenize_lossless.1 "length(ä, \r\n(-1\tß)) ".toList
  refine ⟨l, htext, htokens.trans (by decide), ?_, tokenize_lossless.2 l⟩
  rw [htokens]
  exact htoken

end Token

end InlineExpr
