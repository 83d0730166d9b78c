import InlineExpr.Proofs.Evaluation

/-!
# Where the first marks stand

The first span and the first reference of a text that is given piece by piece, and what the
evaluation of a text does there. A text in which neither is found stands for itself.
-/

namespace InlineExpr

/-- A text without the marks that open spans and references. -/
def Text.IsPlain (t : Text) : Prop :=
  '#' ∉ t ∧ '$' ∉ t

instance (t : Text) : Decidable t.IsPlain :=
  inferInstanceAs (Decidable (_ ∧ _))

/-- Texts without marks stay so when they are joined. -/
lemma Text.IsPlain.append {s t : Text} (hs : s.IsPlain) (ht : t.IsPlain) : (s ++ t).IsPlain := by
  simp only [IsPlain, List.mem_append, not_or]
  exact ⟨⟨hs.1, ht.1⟩, hs.2, ht.2⟩

namespace Text

/-- `after?` undoes putting `lead` in front, and succeeds on nothing else. -/
lemma after?_eq_some_iff {t lead r : Text} : after? t lead = some r ↔ t = lead ++ r := by
  induction lead generalizing t with
  | nil => simp [after?]
  | cons p lead ih =>
    cases t with
    | nil => simp [after?]
    | cons c t =>
      by_cases h : p = c
      · simp [after?, h, ih]
      · simp [after?, h, Ne.symm h]

/-- `before?` undoes putting `tail` behind, and succeeds on nothing else. -/
lemma before?_eq_some_iff {t tail r : Text} : before? t tail = some r ↔ t = r ++ tail := by
  simp only [before?, Option.map_eq_some_iff, after?_eq_some_iff]
  constructor
  · rintro ⟨a, h, rfl⟩
    simpa using congrArg List.reverse h
  · rintro rfl
    exact ⟨r.reverse, by simp, by simp⟩

end Text

namespace Span

/-- What is cut at a closing mark is the text up to the first one, the mark, and the rest. -/
lemma eq_of_splitClosing? {t body rest : Text} (h : splitClosing? t = some (body, rest)) :
    t = body ++ '}' :: rest ∧ '}' ∉ body := by
  induction t generalizing body with
  | nil => cases h
  | cons c t ih =>
    by_cases hc : c = '}'
    · subst hc
      rw [splitClosing?, if_pos rfl] at h
      cases h
      exact ⟨rfl, List.not_mem_nil⟩
    · rw [splitClosing?, if_neg hc] at h
      obtain ⟨⟨b, r⟩, hs, hb⟩ := Option.map_eq_some_iff.1 h
      cases hb
      obtain ⟨rfl, fresh⟩ := ih hs
      refine ⟨rfl, fun hm => ?_⟩
      cases hm with
      | head => exact hc rfl
      | tail _ hm => exact fresh hm

/-- Nothing is cut just if there is no closing mark. -/
lemma splitClosing?_eq_none_iff {t : Text} : splitClosing? t = none ↔ '}' ∉ t := by
  induction t with
  | nil => simp [splitClosing?]
  | cons c t ih =>
    by_cases hc : c = '}'
    · simp [splitClosing?, hc]
    · simp [splitClosing?, hc, ih, Ne.symm hc]

/-- The body of a span has a character at least, and a closing mark behind it. -/
lemma eq_of_close? {t body rest : Text} (h : close? t = some (body, rest)) :
    t = body ++ '}' :: rest ∧ body ≠ [] := by
  cases t with
  | nil => cases h
  | cons c t =>
    obtain ⟨⟨b, r⟩, hs, hb⟩ := Option.map_eq_some_iff.1 h
    cases hb
    obtain ⟨rfl, _⟩ := eq_of_splitClosing? hs
    exact ⟨rfl, List.cons_ne_nil _ _⟩

/-- A text is what stands in front of its first span, the span, and what stands behind it. -/
lemma eq_of_find? {t : Text} {cut : Cut} (h : find? t = some cut) :
    t = cut.before ++ wrap cut.inner ++ cut.after := by
  fun_induction find? t generalizing cut with
  | case1 => cases h
  | case2 rest =>
    obtain ⟨⟨b, r⟩, hs, hb⟩ := Option.map_eq_some_iff.1 h
    cases hb
    obtain ⟨rfl, _⟩ := eq_of_close? hs
    simp [wrap, opening, closing]
  | case3 c t _ ih =>
    obtain ⟨inner, hi, hb⟩ := Option.map_eq_some_iff.1 h
    cases hb
    rw [ih hi]
    rfl

/-- The body of a span is what the span was wrapped around. -/
@[simp] lemma body_wrap (b : Text) : body (wrap b) = b := by
  have front : (wrap b).after? opening = some (b ++ closing) :=
    Text.after?_eq_some_iff.2 (by simp [wrap])
  have back : Text.before? (b ++ closing) closing = some b := Text.before?_eq_some_iff.2 rfl
  rw [body, front, Option.bind_some, back, Option.getD_some]

/-- A text is split at its first closing brace. -/
lemma splitClosing?_append {b : Text} (h : '}' ∉ b) (after : Text) :
    splitClosing? (b ++ '}' :: after) = some (b, after) := by
  induction b with
  | nil => rfl
  | cons c b ih =>
    obtain ⟨hc, hb⟩ := not_or.1 (mt List.mem_cons.2 h)
    rw [List.cons_append, splitClosing?, if_neg (Ne.symm hc), ih hb]
    rfl

/-- A span is closed at the first brace behind a body that is not empty. -/
lemma close?_append {b : Text} (hne : b ≠ []) (h : '}' ∉ b) (after : Text) :
    close? (b ++ '}' :: after) = some (b, after) := by
  cases b with
  | nil => exact absurd rfl hne
  | cons c b =>
    have hb : '}' ∉ b := fun hm => h (.tail _ hm)
    rw [List.cons_append, close?, splitClosing?_append hb]
    rfl

/-- A character other than `#` is passed over in the search for a span. -/
lemma find?_cons_of_ne {c : Char} (h : c ≠ '#') (t : Text) :
    find? (c :: t) = (find? t).map fun cut => { cut with before := c :: cut.before } := by
  rw [find?]
  intro rest hc
  exact absurd hc h

/-- A text without opening marks holds no span. -/
lemma find?_eq_none_of_not_mem {t : Text} (h : '#' ∉ t) : find? t = none := by
  induction t with
  | nil => rfl
  | cons c t ih =>
    obtain ⟨hc, ht⟩ := not_or.1 (mt List.mem_cons.2 h)
    rw [find?_cons_of_ne (Ne.symm hc), ih ht]
    rfl

/-- No span begins in a text without opening marks. -/
lemma find?_append_of_not_mem {s : Text} (h : '#' ∉ s) (t : Text) :
    find? (s ++ t) = (find? t).map fun cut => { cut with before := s ++ cut.before } := by
  induction s with
  | nil => exact Option.map_id'.symm
  | cons c s ih =>
    obtain ⟨hc, hs⟩ := not_or.1 (mt List.mem_cons.2 h)
    rw [List.cons_append, find?_cons_of_ne (Ne.symm hc), ih hs, Option.map_map]
    rfl

/-- A span that a text begins with is the first one found. -/
lemma find?_wrap_append {b : Text} (hne : b ≠ []) (h : '}' ∉ b) (after : Text) :
    find? (wrap b ++ after) = some ⟨[], b, after⟩ := by
  have hc := close?_append hne h after
  change (close? (b ++ ['}'] ++ after)).map _ = _
  rw [List.append_assoc]
  exact congrArg (Option.map _) hc

/-- A span by itself is found with nothing around it. -/
lemma find?_wrap {b : Text} (hne : b ≠ []) (h : '}' ∉ b) : find? (wrap b) = some ⟨[], b, []⟩ := by
  rw [← List.append_nil (wrap b), find?_wrap_append hne h]

end Span

namespace Reference

/-- A text that begins with a reference is the reference and the rest; the name is one or more
characters of names. -/
lemma eq_of_atStart? {t name rest : Text} (h : atStart? t = some (name, rest)) :
    t = wrap name ++ rest ∧ name ≠ [] ∧ ∀ c ∈ name, isNameChar c = true := by
  unfold atStart? at h
  split at h
  · cases h
  · rename_i inner hinner
    dsimp only at h
    split at h
    · rename_i c cs r hname hrest
      cases h
      have whole : inner = inner.takeWhile isNameChar ++ '$' :: rest := by
        rw [← hrest, List.takeWhile_append_dropWhile]
      refine ⟨?_, ?_, ?_⟩
      · rw [Text.after?_eq_some_iff.1 hinner]
        simpa [wrap, closing] using whole
      · rw [hname]
        exact List.cons_ne_nil _ _
      · exact fun c hc => List.all_eq_true.1 List.all_takeWhile c hc
    · cases h

/-- A text is what stands in front of its first reference, the reference, and what stands behind
it. -/
lemma eq_of_find? {t : Text} {cut : Cut} (h : find? t = some cut) :
    t = cut.before ++ wrap cut.inner ++ cut.after := by
  fun_induction find? t generalizing cut with
  | case1 => cases h
  | case2 c t name rest hs =>
    cases h
    exact (eq_of_atStart? hs).1
  | case3 c t _ ih =>
    obtain ⟨inner, hi, hb⟩ := Option.map_eq_some_iff.1 h
    cases hb
    rw [ih hi]
    rfl

/-- No reference starts with a character other than `$`. -/
lemma atStart?_cons_of_ne {c : Char} (h : c ≠ '$') (t : Text) : atStart? (c :: t) = none := by
  have hafter : Text.after? (c :: t) opening = none := if_neg (Ne.symm h)
  rw [atStart?, hafter]

/-- A character other than `$` is passed over in the search for a reference. -/
lemma find?_cons_of_ne {c : Char} (h : c ≠ '$') (t : Text) :
    find? (c :: t) = (find? t).map fun cut => { cut with before := c :: cut.before } := by
  rw [find?, atStart?_cons_of_ne h]

/-- There is no reference in a text with no `$`. -/
lemma find?_eq_none_of_not_mem {t : Text} (h : '$' ∉ t) : find? t = none := by
  induction t with
  | nil => rfl
  | cons c t ih =>
    obtain ⟨hc, ht⟩ := not_or.1 (mt List.mem_cons.2 h)
    rw [find?_cons_of_ne (Ne.symm hc), ih ht]
    rfl

/-- The texts that can name a constant in a reference. -/
def IsName (name : Text) : Prop :=
  name ≠ [] ∧ name.all isNameChar = true

instance (name : Text) : Decidable (IsName name) :=
  inferInstanceAs (Decidable (_ ∧ _))

/-- Every character of a name is one that names may have. -/
lemma IsName.of_mem {name : Text} (h : IsName name) {c : Char} (hc : c ∈ name) :
    isNameChar c = true :=
  List.all_eq_true.1 h.2 c hc

/-- A character that names may not have is in none. -/
lemma IsName.not_mem {name : Text} (h : IsName name) {c : Char} (hc : isNameChar c = false) :
    c ∉ name := by
  intro hm
  rw [h.of_mem hm] at hc
  cases hc

/-- A reference has the characters of its marks and of names only. -/
lemma not_mem_wrap {name : Text} (h : IsName name) {c : Char} (hc : isNameChar c = false)
    (hmarks : c ∉ opening ++ closing) : c ∉ wrap name := by
  rw [wrap, List.mem_append, List.mem_append]
  rintro ((ho | hn) | hc')
  · exact hmarks (List.mem_append_left _ ho)
  · exact h.not_mem hc hn
  · exact hmarks (List.mem_append_right _ hc')

/-- There is no `#` in a reference. -/
lemma sharp_not_mem_wrap {name : Text} (h : IsName name) : '#' ∉ wrap name :=
  not_mem_wrap h (by decide) (by decide)

/-- There is a `$` in every reference. -/
lemma dollar_mem_wrap (name : Text) : '$' ∈ wrap name := by
  simp [wrap, closing]

/-- The first character of a reference is its opening mark. -/
lemma wrap_append_eq_cons (name after : Text) :
    wrap name ++ after = '$' :: ("CONSTANTS.".toList ++ name ++ closing ++ after) := by
  have hopening : opening = '$' :: "CONSTANTS.".toList := by decide
  rw [wrap, hopening]
  rfl

/-- A reference at the beginning of a text is read with its name. -/
lemma atStart?_wrap {name : Text} (h : IsName name) (after : Text) :
    atStart? (wrap name ++ after) = some (name, after) := by
  have hafter : Text.after? (wrap name ++ after) opening = some (name ++ '$' :: after) :=
    Text.after?_eq_some_iff.2 (by simp [wrap, closing])
  -- the closing mark is not a character of names, so the name ends in front of it
  have htake : (name ++ '$' :: after).takeWhile isNameChar = name := by
    rw [List.takeWhile_append_of_pos fun c => h.of_mem]
    simp [show isNameChar '$' = false from rfl]
  have hdrop : (name ++ '$' :: after).dropWhile isNameChar = '$' :: after := by
    rw [List.dropWhile_append_of_pos fun c => h.of_mem]
    simp [show isNameChar '$' = false from rfl]
  rw [atStart?, hafter]
  dsimp only
  rw [htake, hdrop]
  cases name with
  | nil => exact absurd rfl h.1
  | cons c name => rfl

/-- A reference that a text begins with is the first one found. -/
lemma find?_wrap_append {name : Text} (h : IsName name) (after : Text) :
    find? (wrap name ++ after) = some ⟨[], name, after⟩ := by
  have hs := atStart?_wrap h after
  rw [wrap_append_eq_cons] at *
  rw [find?, hs]

end Reference

namespace Eval

/-- A text with no span is evaluated by resolving its references. -/
lemma text_of_no_span {t : Text} (h : Span.find? t = none) (n : Nat) :
    text (n + 1) t = references n t := by
  rw [text, h]

/-- A text that holds a span goes on with the value of the span in its place. -/
lemma text_of_span {t : Text} {cut : Cut} (h : Span.find? t = some cut) (n : Nat) :
    text (n + 1) t =
      span (text n) cut.inner >>= fun v => text n (cut.before ++ v ++ cut.after) := by
  rw [text, h]

/-- A text with no reference is resolved to itself. -/
lemma references_of_no_reference {t : Text} (h : Reference.find? t = none) (n : Nat) :
    references (n + 1) t = pure t := by
  rw [references, h]

/-- A text that holds a reference goes on with the resolved constant in its place. -/
lemma references_of_reference {t : Text} {cut : Cut} (h : Reference.find? t = some cut) (n : Nat) :
    references (n + 1) t =
      constant (text n) cut.inner >>= fun v => references n (cut.before ++ v ++ cut.after) := by
  rw [references, h]

/-- A text that holds neither a span nor a reference stands for itself. -/
lemma text_of_resolved {t : Text} (hs : Span.find? t = none) (hr : Reference.find? t = none)
    (n : Nat) : text (n + 2) t = pure t := by
  rw [text_of_no_span hs, references_of_no_reference hr]

/-- A text with no marks is evaluated to itself. -/
lemma text_of_plain {t : Text} (h : t.IsPlain) (n : Nat) : text (n + 2) t = pure t :=
  text_of_resolved (Span.find?_eq_none_of_not_mem h.1) (Reference.find?_eq_none_of_not_mem h.2) n

end Eval

end InlineExpr
