import InlineExpr.Proofs.Marks
import InlineExpr.Proofs.Positions

/-!
# Which span is found

The search for spans goes by the first opening mark of the text (`Text.FirstAt`): the span ends at
the first closing mark that leaves a character between the two, and if there is none behind the
first opening mark, there is none behind a later one either. So the span that is found is the
leftmost and the shortest one there, and it is told by the bytes at which it begins and ends
(`Span.search_leftmost`).
-/

namespace InlineExpr

namespace Text

/-- The first place at which `mark` stands in `t` is behind `before`. -/
structure FirstAt (mark t before rest : Text) : Prop where
  split : t = before ++ mark ++ rest
  first : ∀ front back, t = front ++ mark ++ back → before.length ≤ front.length

/-- `piece` stands in `t` between two characters' boundaries, told in bytes. -/
def AtBytes (t : Text) (first last : Nat) (piece : Text) : Prop :=
  ∃ before after, t = before ++ piece ++ after ∧ first = before.byteSize ∧
    last = (before ++ piece).byteSize

/-- Somewhere in the text an opening mark is followed by a closing one, not at once. -/
def HoldsSpan (t : Text) : Prop :=
  ∃ body, body ≠ [] ∧ Span.wrap body <:+: t

variable {mark t before rest : Text}

/-- A mark at the beginning is the first one. -/
lemma FirstAt.nil (mark rest : Text) : FirstAt mark (mark ++ rest) [] rest :=
  ⟨rfl, fun _ _ _ => Nat.zero_le _⟩

/-- A mark stays the first one behind a character at which none begins. -/
lemma FirstAt.cons {c : Char} (h : FirstAt mark t before rest) (hc : ¬mark <+: c :: t) :
    FirstAt mark (c :: t) (c :: before) rest := by
  refine ⟨congrArg (c :: ·) h.split, fun front back ht => ?_⟩
  cases front with
  | nil => exact absurd ⟨back, ht.symm⟩ hc
  | cons d front =>
    obtain ⟨-, ht⟩ := List.cons.inj ht
    exact Nat.succ_le_succ (h.first front back ht)

/-- The first mark is not at the beginning if something stands in front of it. -/
lemma FirstAt.tail {c : Char} (h : FirstAt mark (c :: t) (c :: before) rest) :
    FirstAt mark t before rest ∧ ¬mark <+: c :: t := by
  refine ⟨⟨(List.cons.inj h.split).2, fun front back ht => ?_⟩, ?_⟩
  · have hle := h.first (c :: front) back (congrArg (c :: ·) ht)
    exact Nat.le_of_succ_le_succ hle
  · rintro ⟨back, hback⟩
    exact absurd (h.first [] back hback.symm) (Nat.not_succ_le_zero _)

/-- A mark that stands in a text stands there for a first time. -/
lemma exists_firstAt (h : mark <:+: t) : ∃ before rest, FirstAt mark t before rest := by
  by_cases hmark : mark <+: t
  · obtain ⟨rest, rfl⟩ := hmark
    exact ⟨[], rest, .nil mark rest⟩
  induction t with
  | nil => exact absurd (List.infix_nil.1 h ▸ List.prefix_refl []) hmark
  | cons c t ih =>
    have ht : mark <:+: t := (List.infix_cons_iff.1 h).resolve_left hmark
    by_cases hmark' : mark <+: t
    · obtain ⟨rest, rfl⟩ := hmark'
      exact ⟨[c], rest, (FirstAt.nil mark rest).cons hmark⟩
    · obtain ⟨before, rest, hfirst⟩ := ih ht hmark'
      exact ⟨c :: before, rest, hfirst.cons hmark⟩

/-- A single character stands at a place for the first time if it is not in front. -/
lemma firstAt_singleton_iff {c : Char} :
    FirstAt [c] t before rest ↔ t = before ++ c :: rest ∧ c ∉ before := by
  constructor
  · rintro ⟨rfl, hfirst⟩
    refine ⟨List.append_assoc _ _ _, fun hmem => ?_⟩
    obtain ⟨front, back, rfl⟩ := List.append_of_mem hmem
    have hle := hfirst front (back ++ [c] ++ rest) (by simp)
    rw [List.length_append, List.length_cons] at hle
    omega
  · rintro ⟨rfl, hmem⟩
    refine ⟨by simp, fun front back ht => ?_⟩
    -- otherwise the character behind `front` would be one of `before`
    by_contra hlt
    rw [Nat.not_le] at hlt
    have hget := congrArg (·[front.length]?) ht
    rw [List.getElem?_append_left hlt, List.append_assoc,
      List.getElem?_append_right (Nat.le_refl _), Nat.sub_self] at hget
    exact hmem (List.mem_of_getElem? hget)

/-- Pieces of a text with as many bytes in front are the same. -/
lemma eq_of_byteSize {s s' r r' : Text} (h : s ++ r = s' ++ r') (hsize : s.byteSize = s'.byteSize) :
    s = s' := by
  rcases List.append_eq_append_iff.1 h with ⟨u, rfl, -⟩ | ⟨u, rfl, -⟩
  · rw [byteSize_append] at hsize
    rw [eq_nil_of_byteSize (t := u) (by omega), List.append_nil]
  · rw [byteSize_append] at hsize
    rw [eq_nil_of_byteSize (t := u) (by omega), List.append_nil]

/-- Between two bytes there is one piece only. -/
lemma AtBytes.unique {first last : Nat} {piece piece' : Text} (h : t.AtBytes first last piece)
    (h' : t.AtBytes first last piece') : piece' = piece := by
  obtain ⟨before, after, rfl, rfl, rfl⟩ := h
  obtain ⟨before', after', ht, hfirst, hlast⟩ := h'
  obtain rfl : before' = before := by
    rw [List.append_assoc, List.append_assoc] at ht
    exact eq_of_byteSize ht.symm hfirst.symm
  exact List.append_cancel_left (eq_of_byteSize ht.symm hlast.symm)

end Text

namespace Span

/-- The cut is at the span from the first opening mark to the first closing one that leaves a
character between the two. -/
structure Leftmost (t : Text) (cut : Cut) : Prop where
  opens : Text.FirstAt opening t cut.before (cut.inner ++ closing ++ cut.after)
  nonempty : cut.inner ≠ []
  closes : Text.FirstAt closing (cut.inner ++ closing ++ cut.after).tail cut.inner.tail cut.after

/-- The first byte of the span that is found, and the byte behind its last one. -/
def range? (t : Text) : Option (Nat × Nat) :=
  (find? t).map fun cut => (cut.before.byteSize, (cut.before ++ wrap cut.inner).byteSize)

variable {t before rest inner after : Text}

/-- A span is not closed if no closing brace stands behind its first character. -/
lemma close?_eq_none_iff : close? t = none ↔ '}' ∉ t.tail := by
  cases t with
  | nil => simp [close?]
  | cons c t => simp [close?, splitClosing?_eq_none_iff]

/-- The body of a span is closed by the first mark behind its first character. -/
lemma close?_eq_some_iff : close? rest = some (inner, after) ↔
    rest = inner ++ closing ++ after ∧ inner ≠ [] ∧
      Text.FirstAt closing rest.tail inner.tail after := by
  constructor
  · intro h
    obtain ⟨hrest, hne⟩ := eq_of_close? h
    refine ⟨by rw [hrest]; simp [closing], hne, Text.firstAt_singleton_iff.2 ?_⟩
    cases rest with
    | nil => cases h
    | cons c t =>
      obtain ⟨⟨b, r⟩, hs, hb⟩ := Option.map_eq_some_iff.1 h
      cases hb
      exact eq_of_splitClosing? hs
  · rintro ⟨rfl, hne, hfirst⟩
    cases inner with
    | nil => exact absurd rfl hne
    | cons c inner =>
      obtain ⟨ht, hfresh⟩ := Text.firstAt_singleton_iff.1 hfirst
      have hclose : splitClosing? (inner ++ closing ++ after) = some (inner, after) := by
        rw [List.append_assoc]
        exact splitClosing?_append hfresh after
      rw [List.cons_append, List.cons_append, close?, hclose]
      rfl

/-- Where no opening mark stands, the search goes on with the next character. -/
lemma find?_cons_of_not_opening {c : Char} (hc : ¬opening <+: c :: t) :
    find? (c :: t) = (find? t).map fun cut => { cut with before := c :: cut.before } := by
  rw [find?]
  rintro rest rfl rfl
  exact hc ⟨rest, rfl⟩

/-- The search is decided at the first opening mark. -/
lemma find?_of_firstAt (h : Text.FirstAt opening t before rest) :
    find? t = (close? rest).map fun (inner, after) => ⟨before, inner, after⟩ := by
  induction before generalizing t with
  | nil =>
    obtain rfl : t = opening ++ rest := h.split
    rfl
  | cons c before ih =>
    obtain rfl : t = c :: (before ++ opening ++ rest) := h.split
    obtain ⟨htail, hc⟩ := h.tail
    rw [find?_cons_of_not_opening hc, ih htail, Option.map_map]
    rfl

/-- No span is found in a text with no opening mark. -/
lemma find?_of_not_infix (h : ¬opening <:+: t) : find? t = none := by
  induction t with
  | nil => rfl
  | cons c t ih =>
    obtain ⟨hc, ht⟩ := not_or.1 (mt List.infix_cons_iff.2 h)
    rw [find?_cons_of_not_opening hc, ih ht]
    rfl

/-- Nothing is found if there is no opening mark or the first one is not closed. -/
lemma find?_eq_none_iff : find? t = none ↔ ¬opening <:+: t ∨
    ∃ before rest, Text.FirstAt opening t before rest ∧ '}' ∉ rest.tail := by
  constructor
  · intro h
    by_cases hopening : opening <:+: t
    · obtain ⟨before, rest, hfirst⟩ := Text.exists_firstAt hopening
      rw [find?_of_firstAt hfirst, Option.map_eq_none_iff, close?_eq_none_iff] at h
      exact .inr ⟨before, rest, hfirst, h⟩
    · exact .inl hopening
  · rintro (h | ⟨before, rest, hfirst, hrest⟩)
    · exact find?_of_not_infix h
    · rw [find?_of_firstAt hfirst, close?_eq_none_iff.2 hrest]
      rfl

/-- A span holds an opening mark. -/
lemma opening_infix_wrap (inner : Text) : opening <:+: wrap inner :=
  ⟨[], inner ++ closing, (List.append_assoc opening inner closing).symm⟩

/-- The cut that is found is the leftmost one. -/
lemma find?_eq_some_iff {cut : Cut} : find? t = some cut ↔ Leftmost t cut := by
  constructor
  · intro h
    have hopening : opening <:+: t := by
      rw [eq_of_find? h]
      exact (opening_infix_wrap cut.inner).trans (List.infix_append _ _ _)
    obtain ⟨before, rest, hfirst⟩ := Text.exists_firstAt hopening
    rw [find?_of_firstAt hfirst] at h
    obtain ⟨⟨inner, after⟩, hclose, hcut⟩ := Option.map_eq_some_iff.1 h
    cases hcut
    obtain ⟨rfl, hne, hcloses⟩ := close?_eq_some_iff.1 hclose
    exact ⟨hfirst, hne, hcloses⟩
  · rintro ⟨hopens, hne, hcloses⟩
    rw [find?_of_firstAt hopens, close?_eq_some_iff.2 ⟨rfl, hne, hcloses⟩]
    rfl

/-- A closing mark behind a body leaves a character in front of it. -/
lemma mem_tail_of_closing {u : Text} (hu : u ≠ []) : '}' ∈ (u ++ closing ++ after).tail := by
  rw [List.append_assoc, List.tail_append_of_ne_nil hu]
  exact List.mem_append_right _ (List.mem_append_left _ (List.mem_singleton.2 rfl))

/-- A mark that closes a span closes what the first opening mark opens as well. -/
lemma closing_mem_tail (h : Text.FirstAt opening t before rest) {front : Text}
    (ht : t = front ++ wrap inner ++ after) (hne : inner ≠ []) : '}' ∈ rest.tail := by
  have hle : before.length ≤ front.length := h.first front (inner ++ closing ++ after) (by
    rw [ht, wrap]
    simp)
  have hbefore : before <+: t := ⟨opening ++ rest, by rw [h.split, List.append_assoc]⟩
  have hfront : front <+: t := ⟨wrap inner ++ after, by rw [ht, List.append_assoc]⟩
  obtain ⟨u, rfl⟩ := List.prefix_of_prefix_length_le hbefore hfront hle
  have heq : opening ++ rest = u ++ wrap inner ++ after := by
    have hsplit := h.split.symm.trans ht
    rw [List.append_assoc, List.append_assoc, List.append_assoc] at hsplit
    rw [List.append_cancel_left hsplit, List.append_assoc]
  cases u with
  | nil =>
    obtain rfl : rest = inner ++ closing ++ after := by
      rw [List.nil_append, wrap, List.append_assoc, List.append_assoc] at heq
      rw [List.append_cancel_left heq, List.append_assoc]
    exact mem_tail_of_closing hne
  | cons c u =>
    -- the opening mark has no proper part in common with itself, so `u` begins with all of it
    cases u with
    | nil => cases heq
    | cons d u =>
      obtain rfl : rest = u ++ opening ++ inner ++ closing ++ after := by
        cases heq
        simp [wrap]
      exact mem_tail_of_closing (by simp [opening])

/-- A later opening mark does not help if the first one is not closed. -/
lemma holdsSpan_iff : t.HoldsSpan ↔ find? t ≠ none := by
  constructor
  · rintro ⟨inner, hne, front, back, ht⟩ hnone
    obtain h | ⟨before, rest, hfirst, hrest⟩ := find?_eq_none_iff.1 hnone
    · exact h ((opening_infix_wrap inner).trans ⟨front, back, ht⟩)
    · exact hrest (closing_mem_tail hfirst ht.symm hne)
  · intro h
    obtain ⟨cut, hcut⟩ := Option.ne_none_iff_exists'.1 h
    exact ⟨cut.inner, (find?_eq_some_iff.1 hcut).nonempty, cut.before, cut.after,
      (eq_of_find? hcut).symm⟩

/-- A span has a place exactly if one is found. -/
lemma range?_eq_none_iff : range? t = none ↔ find? t = none := Option.map_eq_none_iff

/-- The place of a span is told by the bytes in front of it and of itself. -/
lemma range?_eq_some_iff {first last : Nat} : range? t = some (first, last) ↔
    ∃ cut, Leftmost t cut ∧ first = cut.before.byteSize ∧
      last = (cut.before ++ wrap cut.inner).byteSize := by
  rw [range?, Option.map_eq_some_iff]
  constructor
  · rintro ⟨cut, hcut, heq⟩
    cases heq
    exact ⟨cut, find?_eq_some_iff.1 hcut, rfl, rfl⟩
  · rintro ⟨cut, hcut, rfl, rfl⟩
    exact ⟨cut, find?_eq_some_iff.2 hcut, rfl⟩

/-- A cut is one of the text it is made in. -/
lemma Leftmost.eq {cut : Cut} (h : Leftmost t cut) :
    t = cut.before ++ wrap cut.inner ++ cut.after :=
  eq_of_find? (find?_eq_some_iff.2 h)

/-- No body runs over a closing brace but one that begins with it. -/
lemma Leftmost.not_mem_tail {cut : Cut} (h : Leftmost t cut) : '}' ∉ cut.inner.tail :=
  (Text.firstAt_singleton_iff.1 h.closes).2

/-- Of the spans that stand in a text, none begins in front of the one that is found, and none that
begins there is shorter. -/
lemma Leftmost.prefix_of_eq {cut : Cut} (h : Leftmost t cut) {front : Text}
    (ht : t = front ++ wrap inner ++ after) (hne : inner ≠ []) :
    cut.before <+: front ∧ (cut.before = front → cut.inner <+: inner) := by
  have hle : cut.before.length ≤ front.length := h.opens.first front (inner ++ closing ++ after) (by
    rw [ht, wrap]
    simp)
  have hbefore : cut.before <+: t := ⟨wrap cut.inner ++ cut.after, by rw [h.eq, List.append_assoc]⟩
  have hfront : front <+: t := ⟨wrap inner ++ after, by rw [ht, List.append_assoc]⟩
  refine ⟨List.prefix_of_prefix_length_le hbefore hfront hle, ?_⟩
  rintro rfl
  -- both bodies stand at the front of what follows the opening mark
  have hrest : cut.inner ++ (closing ++ cut.after) = inner ++ (closing ++ after) := by
    have hsplit := h.eq.symm.trans ht
    simp only [wrap, List.append_assoc] at hsplit
    exact List.append_cancel_left (List.append_cancel_left hsplit)
  have hlength := h.closes.first inner.tail after (by
    rw [List.append_assoc, hrest, List.tail_append_of_ne_nil hne, List.append_assoc])
  rw [List.length_tail, List.length_tail] at hlength
  have hpos := List.length_pos_iff.2 hne
  exact List.prefix_of_prefix_length_le ⟨_, hrest⟩ (List.prefix_append _ _) (by omega)

/-- The search finds the span from the first opening mark to the first closing mark that leaves a
character between the two, and nothing if one of the two marks is missing. Of all the spans that
stand in the text, it is the leftmost, and the shortest of those that begin there. -/
theorem search_leftmost (t : Text) :
    (range? t = none ↔ ¬opening <:+: t ∨
      ∃ before rest, Text.FirstAt opening t before rest ∧ '}' ∉ rest.tail) ∧
    (∀ first last, range? t = some (first, last) ↔ ∃ cut, Leftmost t cut ∧
      first = cut.before.byteSize ∧ last = (cut.before ++ wrap cut.inner).byteSize) ∧
    (t.HoldsSpan ↔ (range? t).isSome = true) ∧
    (∀ first last, range? t = some (first, last) → ∃ piece,
      (∀ other, t.AtBytes first last other ↔ other = piece) ∧ body piece ≠ [] ∧
        piece = wrap (body piece) ∧ '}' ∉ (body piece).tail) ∧
    ∀ first last, range? t = some (first, last) → ∀ first' last' inner, inner ≠ [] →
      t.AtBytes first' last' (wrap inner) → first ≤ first' ∧ (first = first' → last ≤ last') := by
  refine ⟨range?_eq_none_iff.trans find?_eq_none_iff, fun _ _ => range?_eq_some_iff, ?_,
    fun first last h => ?_, fun first last h => ?_⟩
  · rw [holdsSpan_iff, Option.isSome_iff_ne_none, not_iff_not, range?_eq_none_iff]
  · obtain ⟨cut, hcut, rfl, rfl⟩ := range?_eq_some_iff.1 h
    have hat : t.AtBytes cut.before.byteSize (cut.before ++ wrap cut.inner).byteSize
      (wrap cut.inner) := ⟨cut.before, cut.after, hcut.eq, rfl, rfl⟩
    refine ⟨wrap cut.inner, fun other => ⟨hat.unique, ?_⟩, ?_⟩
    · rintro rfl
      exact hat
    · rw [body_wrap]
      exact ⟨hcut.nonempty, rfl, hcut.not_mem_tail⟩
  · obtain ⟨cut, hcut, rfl, rfl⟩ := range?_eq_some_iff.1 h
    rintro first' last' inner hne ⟨front, after, ht, rfl, rfl⟩
    obtain ⟨⟨u, rfl⟩, hshortest⟩ := hcut.prefix_of_eq ht hne
    rw [Text.byteSize_append]
    refine ⟨Nat.le_add_right _ _, fun hsize => ?_⟩
    obtain rfl : u = [] := Text.eq_nil_of_byteSize (by omega)
    obtain ⟨v, rfl⟩ := hshortest (List.append_nil _).symm
    simp only [wrap, Text.byteSize_append]
    omega

/-- The closing mark that follows at once is a part of the body, and the mark behind it ends it. -/
theorem search_leftmost_empty :
    let t : Text := ['ä', '#', '{', '}', 'b', '}', '#', '{', 'c', '}']
    range? t = some (2, 7) ∧ ∀ other, t.AtBytes 2 7 other ↔ other = wrap ['}', 'b'] := by
  intro t
  have hrange : range? t = some (2, 7) := by decide
  obtain ⟨piece, hpiece, -⟩ := (search_leftmost t).2.2.2.1 2 7 hrange
  obtain rfl : wrap ['}', 'b'] = piece :=
    (hpiece _).1 ⟨['ä'], ['#', '{', 'c', '}'], rfl, by decide, by decide⟩
  exact ⟨hrange, hpiece⟩

end Span

end InlineExpr
