import InlineExpr.Proofs.FileGrammar
import InlineExpr.Proofs.Positions

/-!
# Where the reading of a file stops

The places at which no definition can go on are written down beside the grammar: no name begins
there (`Stop.name`), an equals sign, a quote or a semicolon is due behind a gap and missing
(`Stop.mark`), or neither an item nor the end of a value follows (`Stop.item`). A definition is
refused in front of what is left there (`Definition.read_eq_error_iff`). What is in front of the
place begins some file, and what follows it within two characters begins none
(`DefinitionFile.read_stops`).
-/

namespace InlineExpr

namespace Definition

section Fronts

/-- `r` begins like `rest` or with a newline, or it is empty; so it may stand behind what stood in
front of `rest`. -/
def Replaces (rest r : Text) : Prop :=
  ∀ c ∈ r.head?, c = '\n' ∨ rest.head? = some c

/-- The same text in front of both keeps one in the place of the other. -/
lemma Replaces.append {rest r : Text} (h : Replaces rest r) (front : Text) :
    Replaces (front ++ rest) (front ++ r) := by
  cases front with
  | nil => exact h
  | cons c front => exact fun d hd => .inr hd

/-- Texts that begin with the same character stand in for one another. -/
lemma replaces_cons (c : Char) (rest r : Text) : Replaces (c :: rest) (c :: r) :=
  fun _ hd => .inr hd

/-- Texts that share a beginning stand in for one another. -/
lemma replaces_append {front : Text} (h : front ≠ []) (rest r : Text) :
    Replaces (front ++ rest) (front ++ r) := by
  cases front with
  | nil => exact absurd rfl h
  | cons c front => exact replaces_cons c _ _

/-- A newline may stand behind anything. -/
lemma replaces_newline (rest r : Text) : Replaces rest ('\n' :: r) :=
  fun _ hd => .inl (Option.some.inj hd).symm

/-- Texts that agree in two characters agree in the first. -/
lemma head?_of_take {rest r : Text} (h : r.take 2 = rest.take 2) : r.head? = rest.head? := by
  simpa [List.head?_take] using congrArg List.head? h

/-- Texts that agree in two characters stand in for one another. -/
lemma replaces_of_take {rest r : Text} (h : r.take 2 = rest.take 2) : Replaces rest r :=
  fun _ hc => .inr (head?_of_take h ▸ hc)

/-- The same text in front of both keeps them alike in two characters. -/
lemma take_append_congr {rest r : Text} (h : r.take 2 = rest.take 2) (front : Text) :
    (front ++ r).take 2 = (front ++ rest).take 2 := by
  match front with
  | [] => exact h
  | [c] =>
    have hone := congrArg (List.take 1) h
    rw [List.take_take, List.take_take] at hone
    exact congrArg (c :: ·) hone
  | c :: d :: front => rfl

/-- One gap behind another is a gap. -/
lemma Gap.trans {t u rest : Text} (h : Gap t u) (h' : Gap u rest) : Gap t rest := by
  induction h with
  | done => exact h'
  | space hc _ ih => exact .space hc (ih h')
  | comment hbody ht _ ih => exact .comment hbody ht (ih h')

/-- A gap is a front that stays one in front of whatever may stand behind it. -/
lemma Gap.exists_front {t rest : Text} (h : Gap t rest) :
    ∃ gap, t = gap ++ rest ∧ ∀ r, Replaces rest r → Gap (gap ++ r) r := by
  induction h with
  | done rest => exact ⟨[], rfl, fun r _ => .done r⟩
  | @space c t rest hc _ ih =>
    obtain ⟨gap, rfl, hgap⟩ := ih
    exact ⟨c :: gap, rfl, fun r hr => .space hc (hgap r hr)⟩
  | @comment body t rest hbody ht _ ih =>
    obtain ⟨gap, rfl, hgap⟩ := ih
    refine ⟨'/' :: '/' :: (body ++ gap), by simp, fun r hr => ?_⟩
    -- the newline that ends the comment stands in the gap, or is the first character behind it
    have hend : ∀ c ∈ (gap ++ r).head?, c = '\n' := by
      intro c hc
      cases gap with
      | nil => exact (hr c hc).elim id (ht c)
      | cons d gap => exact ht c hc
    have hcomment := Gap.comment hbody hend (hgap r hr)
    rwa [← List.append_assoc] at hcomment

/-- The items of a value are a front that stays one in front of anything. -/
lemma Items.exists_front {t value rest : Text} (h : Items t value rest) :
    ∃ items, t = items ++ rest ∧ ∀ r, Items (items ++ r) value r := by
  induction h with
  | done rest => exact ⟨[], rfl, .done⟩
  | @escaped c d t value rest hd _ ih =>
    obtain ⟨items, rfl, hitems⟩ := ih
    exact ⟨'\\' :: c :: items, rfl, fun r => .escaped hd (hitems r)⟩
  | @plain c t value rest hquote hslash _ ih =>
    obtain ⟨items, rfl, hitems⟩ := ih
    exact ⟨c :: items, rfl, fun r => .plain hquote hslash (hitems r)⟩

end Fronts

section Waiting

/-- What is due in a definition behind a gap. -/
inductive Mark
  | equals
  | quote
  | semicolon

/-- The character that is due. -/
def Mark.char : Mark → Char
  | equals => '='
  | quote => '"'
  | semicolon => ';'

/-- The end of a definition with an empty value, from a mark on. -/
def Mark.ending : Mark → Text
  | equals => ['=', '"', '"', ';']
  | quote => ['"', '"', ';']
  | semicolon => [';']

/-- A text begins with a part of a definition and goes on with `rest`, where the mark is due. -/
inductive Waits : Mark → Text → Text → Prop
  | equals {name rest : Text} :
    Reference.IsName name → (∀ c ∈ rest.head?, isNameChar c = false) →
    Waits .equals (name ++ rest) rest
  | quote {t u rest : Text} :
    Waits .equals t u → Gap u ('=' :: rest) → Waits .quote t rest
  | semicolon {t u v value rest : Text} :
    Waits .quote t u → Gap u ('"' :: v) → Items v value ('"' :: rest) → Waits .semicolon t rest

/-- Behind what waits for a mark, a gap and the shortest ending complete a definition. -/
lemma Waits.clause {m : Mark} {t rest : Text} (h : Waits m t rest) (hend : Gap rest m.ending) :
    ∃ name value, Clause t name value [] := by
  cases h with
  | equals hname _ => exact ⟨_, _, .mk hname hend (.done _) (.done _) (.done _)⟩
  | quote h hequals =>
    obtain ⟨hname, -⟩ := h
    exact ⟨_, _, .mk hname hequals hend (.done _) (.done _)⟩
  | semicolon h hquote hitems =>
    obtain _ | ⟨⟨hname, -⟩, hequals⟩ := h
    exact ⟨_, _, .mk hname hequals hquote hitems hend⟩

/-- The part of a definition up to the mark that is due does not depend on what follows. -/
lemma Waits.exists_front {m : Mark} {t rest : Text} (h : Waits m t rest) :
    ∃ front, front ≠ [] ∧ t = front ++ rest ∧
      ∀ r, Replaces rest r → Waits m (front ++ r) r := by
  induction h with
  | @equals name rest hname hrest =>
    refine ⟨name, hname.1, rfl, fun r hr => .equals hname fun c hc => ?_⟩
    rcases hr c hc with rfl | hc
    · rfl
    · exact hrest c hc
  | @quote t u rest _ hgap ih =>
    obtain ⟨front, hne, rfl, hfront⟩ := ih
    obtain ⟨gap, rfl, toEquals⟩ := hgap.exists_front
    refine ⟨front ++ (gap ++ ['=']), by simp [hne], by simp, fun r _ => ?_⟩
    have hmark := replaces_cons '=' rest r
    have hwaits := Waits.quote (hfront _ (hmark.append gap)) (toEquals _ hmark)
    simpa using hwaits
  | @semicolon t u v value rest _ hgap hitems ih =>
    obtain ⟨front, hne, rfl, hfront⟩ := ih
    obtain ⟨gap, rfl, toQuote⟩ := hgap.exists_front
    obtain ⟨items, rfl, toEnd⟩ := hitems.exists_front
    refine ⟨front ++ (gap ++ '"' :: (items ++ ['"'])), by simp [hne], by simp, fun r _ => ?_⟩
    have hmark := replaces_cons '"' (items ++ '"' :: rest) (items ++ '"' :: r)
    have hwaits := Waits.semicolon (hfront _ (hmark.append gap)) (toQuote _ hmark) (toEnd _)
    simpa using hwaits

/-- The text of a definition, whatever follows it. -/
lemma Clause.exists_front {t name value rest : Text} (h : Clause t name value rest) :
    ∃ front, front ≠ [] ∧ t = front ++ rest ∧ ∀ r, Clause (front ++ r) name value r := by
  obtain @⟨name, t₁, t₂, value, t₃, t₄, rest, hname, hequals, hquote, hitems, hsemicolon⟩ := h
  obtain ⟨gap₁, rfl, toEquals⟩ := hequals.exists_front
  obtain ⟨gap₂, rfl, toQuote⟩ := hquote.exists_front
  obtain ⟨items, rfl, toEnd⟩ := hitems.exists_front
  obtain ⟨gap₃, rfl, toSemicolon⟩ := hsemicolon.exists_front
  refine ⟨name ++ (gap₁ ++ '=' :: (gap₂ ++ '"' :: (items ++ '"' :: (gap₃ ++ [';'])))),
    by simp [hname.1], by simp, fun r => ?_⟩
  have hclause := Clause.mk hname (toEquals _ (replaces_cons _ _ _))
    (toQuote _ (replaces_cons _ _ _)) (toEnd _) (toSemicolon (';' :: r) (replaces_cons _ _ _))
  simpa using hclause

end Waiting

section Stopping

/-- Neither an item nor the end of a value stands at the beginning: the text is empty, or a
backslash escapes nothing. -/
def NoItem (t : Text) : Prop :=
  (∀ c ∈ t.head?, c = '\\') ∧ ∀ c ∈ t.tail.head?, unescape? c = none

/-- A definition that is begun in a text cannot go on with `rest`. -/
inductive Stop : Text → Text → Prop
  | name {rest : Text} : (∀ c ∈ rest.head?, isNameChar c = false) → Stop rest rest
  | mark {m : Mark} {t u rest : Text} :
    Waits m t u → Gap u rest → skipGap rest = rest → rest.head? ≠ some m.char → Stop t rest
  | item {t u v value rest : Text} :
    Waits .quote t u → Gap u ('"' :: v) → Items v value rest → NoItem rest → Stop t rest

/-- A sequence fails in its first part, or in its second after a value of the first. -/
lemma bind_eq_error_iff {ε α β : Type} {x : Except ε α} {f : α → Except ε β} {e : ε} :
    x >>= f = .error e ↔ x = .error e ∨ ∃ a, x = .ok a ∧ f a = .error e := by
  cases x with
  | error e => simp [bind, Except.bind]
  | ok a => simp [bind, Except.bind]

/-- A function on values leaves the errors as they are. -/
lemma map_eq_error_iff {ε α β : Type} {x : Except ε α} {f : α → β} {e : ε} :
    x.map f = .error e ↔ x = .error e := by
  cases x with
  | error e => simp [Except.map]
  | ok a => simp [Except.map]

/-- No name is read exactly where no character of names stands. -/
lemma readName_eq_error_iff {t rest : Text} :
    readName t = .error rest ↔ t = rest ∧ ∀ c ∈ rest.head?, isNameChar c = false := by
  constructor
  · intro h
    unfold readName at h
    split at h
    · rename_i hname
      cases h
      refine ⟨rfl, fun c hc => ?_⟩
      by_contra hc'
      obtain ⟨t, rfl⟩ := List.head?_eq_some_iff.1 hc
      rw [List.takeWhile_cons_of_pos (by simpa using hc')] at hname
      cases hname
    · cases h
  · rintro ⟨rfl, hhead⟩
    have hname : t.takeWhile isNameChar = [] := by
      cases t with
      | nil => rfl
      | cons c t => simp [hhead c rfl]
    rw [readName, hname]

/-- Behind a skipped gap there is no further one. -/
lemma skipGap_skipGap (t : Text) : skipGap (skipGap t) = skipGap t :=
  (gap_skipGap t).skipGap_eq.symm

/-- A mark is missed exactly where another character stands, or none. -/
lemma expect_eq_error_iff {c : Char} {t rest : Text} :
    expect c t = .error rest ↔ t = rest ∧ rest.head? ≠ some c := by
  cases t with
  | nil =>
    rw [expect, Except.error.injEq, iff_self_and]
    rintro rfl
    simp
  | cons d t =>
    rw [expect]
    split
    · rename_i hd
      simp only [reduceCtorEq, false_iff, not_and, not_not]
      rintro rfl
      exact congrArg some hd
    · rename_i hd
      rw [Except.error.injEq, iff_self_and]
      rintro rfl hhead
      exact hd (Option.some.inj hhead)

/-- The character that a reader waits for is missing exactly where a gap ends without it. -/
lemma expect_skipGap_eq_error_iff {c : Char} {t rest : Text} :
    expect c (skipGap t) = .error rest ↔
      Gap t rest ∧ skipGap rest = rest ∧ rest.head? ≠ some c := by
  rw [expect_eq_error_iff]
  constructor
  · rintro ⟨rfl, hhead⟩
    exact ⟨gap_skipGap t, skipGap_skipGap t, hhead⟩
  · rintro ⟨hgap, hrest, hhead⟩
    exact ⟨hgap.skipGap_eq.trans hrest, hhead⟩

/-- The reading of a value fails where neither an item nor its end stands. -/
lemma readItems_of_noItem {t : Text} (h : NoItem t) : readItems t = .error t := by
  obtain ⟨hhead, htail⟩ := h
  match t with
  | [] => rfl
  | [c] =>
    obtain rfl := hhead c rfl
    rfl
  | c :: d :: t =>
    obtain rfl := hhead c rfl
    rw [readItems, htail d rfl]

/-- The reading of a value fails behind the items, where neither another nor the end stands. -/
lemma readItems_eq_error_iff {t rest : Text} :
    readItems t = .error rest ↔ ∃ value, Items t value rest ∧ NoItem rest := by
  constructor
  · intro h
    fun_induction readItems t with
    | case1 =>
      cases h
      exact ⟨[], .done _, by simp [NoItem]⟩
    | case2 => cases h
    | case3 =>
      cases h
      exact ⟨[], .done _, by simp [NoItem]⟩
    | case4 c t hc =>
      cases h
      exact ⟨[], .done _, by simp [NoItem, hc]⟩
    | case5 c t d hd ih =>
      obtain ⟨value, hitems, hno⟩ := ih (map_eq_error_iff.1 h)
      exact ⟨d :: value, .escaped (unescape?_eq_some_iff.1 hd) hitems, hno⟩
    | case6 c t hquote hend hescape ih =>
      obtain ⟨value, hitems, hno⟩ := ih (map_eq_error_iff.1 h)
      refine ⟨c :: value, .plain (fun hc => hquote hc) (fun hc => ?_) hitems, hno⟩
      cases t with
      | nil => exact hend hc rfl
      | cons d t => exact hescape d t hc rfl
  · rintro ⟨value, h, hno⟩
    induction h with
    | done => exact readItems_of_noItem hno
    | escaped hd _ ih => rw [readItems, unescape?_eq_some_iff.2 hd, ih hno]; rfl
    | plain hquote hslash _ ih =>
      rw [readItems, ih hno]
      · rfl
      · exact fun h => hquote h
      · exact fun h _ => hslash h
      · exact fun c t h _ => hslash h

/-- A mark is found exactly where a gap ends with it. -/
lemma Mark.expect_eq_ok_iff (m : Mark) {t rest : Text} :
    expect m.char (skipGap t) = .ok rest ↔ Gap t (m.char :: rest) := by
  cases m with
  | equals => exact expect_skipGap_eq_ok_iff rfl (by decide)
  | quote => exact expect_skipGap_eq_ok_iff rfl (by decide)
  | semicolon => exact expect_skipGap_eq_ok_iff rfl (by decide)

/-- Where a definition is refused, it cannot go on. -/
lemma stop_of_read {t rest : Text} (hread : read t = .error rest) : Stop t rest := by
  rcases bind_eq_error_iff.1 hread with h | ⟨⟨name, u⟩, hname, h⟩
  · obtain ⟨rfl, hhead⟩ := readName_eq_error_iff.1 h
    exact .name hhead
  clear hread
  obtain ⟨rfl, hname, hhead⟩ := readName_eq_ok_iff.1 hname
  have equals := Waits.equals hname hhead
  rcases bind_eq_error_iff.1 h with h | ⟨v, hequals, h⟩
  · obtain ⟨hgap, hrest, hhead⟩ := expect_skipGap_eq_error_iff.1 h
    exact .mark equals hgap hrest hhead
  have quote := equals.quote (Mark.equals.expect_eq_ok_iff.1 hequals)
  rcases bind_eq_error_iff.1 h with h | ⟨w, hquote, h⟩
  · obtain ⟨hgap, hrest, hhead⟩ := expect_skipGap_eq_error_iff.1 h
    exact .mark quote hgap hrest hhead
  have hquote := Mark.quote.expect_eq_ok_iff.1 hquote
  rcases bind_eq_error_iff.1 h with h | ⟨⟨value, x⟩, hitems, h⟩
  · obtain ⟨value, hitems, hno⟩ := readItems_eq_error_iff.1 h
    exact .item quote hquote hitems hno
  have semicolon := quote.semicolon hquote (readItems_eq_ok_iff.1 hitems)
  rcases bind_eq_error_iff.1 h with h | ⟨y, hsemicolon, h⟩
  · obtain ⟨hgap, hrest, hhead⟩ := expect_skipGap_eq_error_iff.1 h
    exact .mark semicolon hgap hrest hhead
  cases h

/-- What stands in front of the place is taken by one reader after the other, and the next one
fails. -/
lemma Stop.read_eq {t rest : Text} (h : Stop t rest) : read t = .error rest := by
  cases h with
  | name hhead => exact bind_eq_error_iff.2 (.inl (readName_eq_error_iff.2 ⟨rfl, hhead⟩))
  | mark hwaits hgap hrest hhead =>
    have hmark := expect_skipGap_eq_error_iff.2 ⟨hgap, hrest, hhead⟩
    cases hwaits with
    | equals hname hend =>
      refine bind_eq_error_iff.2 (.inr ⟨_, readName_eq_ok_iff.2 ⟨rfl, hname, hend⟩, ?_⟩)
      exact bind_eq_error_iff.2 (.inl hmark)
    | quote h hequals =>
      obtain ⟨hname, hend⟩ := h
      refine bind_eq_error_iff.2 (.inr ⟨_, readName_eq_ok_iff.2 ⟨rfl, hname, hend⟩, ?_⟩)
      refine bind_eq_error_iff.2 (.inr ⟨_, Mark.equals.expect_eq_ok_iff.2 hequals, ?_⟩)
      exact bind_eq_error_iff.2 (.inl hmark)
    | semicolon h hquote hitems =>
      obtain _ | ⟨⟨hname, hend⟩, hequals⟩ := h
      refine bind_eq_error_iff.2 (.inr ⟨_, readName_eq_ok_iff.2 ⟨rfl, hname, hend⟩, ?_⟩)
      refine bind_eq_error_iff.2 (.inr ⟨_, Mark.equals.expect_eq_ok_iff.2 hequals, ?_⟩)
      refine bind_eq_error_iff.2 (.inr ⟨_, Mark.quote.expect_eq_ok_iff.2 hquote, ?_⟩)
      refine bind_eq_error_iff.2 (.inr ⟨_, readItems_eq_ok_iff.2 hitems, ?_⟩)
      exact bind_eq_error_iff.2 (.inl hmark)
  | item h hquote hitems hno =>
    obtain _ | ⟨⟨hname, hend⟩, hequals⟩ := h
    refine bind_eq_error_iff.2 (.inr ⟨_, readName_eq_ok_iff.2 ⟨rfl, hname, hend⟩, ?_⟩)
    refine bind_eq_error_iff.2 (.inr ⟨_, Mark.equals.expect_eq_ok_iff.2 hequals, ?_⟩)
    refine bind_eq_error_iff.2 (.inr ⟨_, Mark.quote.expect_eq_ok_iff.2 hquote, ?_⟩)
    exact bind_eq_error_iff.2 (.inl (readItems_eq_error_iff.2 ⟨_, hitems, hno⟩))

/-- A definition is refused exactly in front of what it cannot go on with. -/
lemma read_eq_error_iff {t rest : Text} : read t = .error rest ↔ Stop t rest :=
  ⟨stop_of_read, Stop.read_eq⟩

/-- Whether a gap begins is seen from two characters. -/
lemma skipGap_eq_self_iff {c : Char} {t : Text} :
    skipGap (c :: t) = c :: t ↔ isGapSpace c = false ∧ ¬(c = '/' ∧ t.head? = some '/') := by
  have shorter (inComment : Bool) : afterGap inComment t ≠ c :: t := by
    intro h
    have hle := length_afterGap_le inComment t
    rw [h, List.length_cons] at hle
    omega
  rw [skipGap, afterGap, if_neg Bool.false_ne_true]
  split
  · rename_i hspace
    simp [hspace, shorter]
  · rename_i hspace
    split
    · rename_i hslash
      obtain ⟨rfl, hhead⟩ := hslash
      simp [hhead, shorter]
    · rename_i hslash
      simp [hspace, hslash]

/-- Whether a gap begins shows in the first two characters. -/
lemma skipGap_of_take {rest r : Text} (h : r.take 2 = rest.take 2) (hrest : skipGap rest = rest) :
    skipGap r = r := by
  match rest, r with
  | [], [] => rfl
  | [c], [d] =>
    cases h
    exact hrest
  | c :: d :: rest, c' :: d' :: r =>
    cases h
    have hstart := skipGap_eq_self_iff.1 hrest
    exact skipGap_eq_self_iff.2 hstart

/-- Whether an item or the end of a value stands at the beginning shows in two characters. -/
lemma NoItem.of_take {rest r : Text} (h : r.take 2 = rest.take 2) (hrest : NoItem rest) :
    NoItem r := by
  match rest, r with
  | [], [] => exact hrest
  | [c], [d] =>
    cases h
    exact hrest
  | c :: d :: rest, c' :: d' :: r =>
    cases h
    exact hrest

/-- In front of the place where a definition cannot go on, there is nothing or what can be completed
to a definition; and as long as two characters stay behind it, it stays where it is. -/
lemma Stop.exists_front {t rest : Text} (h : Stop t rest) :
    ∃ front, t = front ++ rest ∧
      (front = [] ∨ ∃ ending name value, Clause (front ++ ending) name value []) ∧
      ∀ r, r.take 2 = rest.take 2 → Stop (front ++ r) r := by
  have newline : '\n' ∈ [' ', '\t', '\n', '\r', '\x0c'] := by decide
  cases h with
  | name hhead =>
    refine ⟨[], rfl, .inl rfl, fun r hr => .name fun c hc => ?_⟩
    rcases replaces_of_take hr c hc with rfl | hc
    · rfl
    · exact hhead c hc
  | @mark m t u _ hwaits hgap hrest hhead =>
    obtain ⟨front, -, rfl, hfront⟩ := hwaits.exists_front
    obtain ⟨gap, rfl, toRest⟩ := hgap.exists_front
    refine ⟨front ++ gap, by simp, .inr ⟨'\n' :: m.ending, ?_⟩, fun r hr => ?_⟩
    · have hline := replaces_newline rest m.ending
      rw [List.append_assoc]
      exact (hfront _ (hline.append gap)).clause ((toRest _ hline).trans (.space newline (.done _)))
    · have hlike := replaces_of_take hr
      rw [List.append_assoc]
      refine .mark (hfront _ (hlike.append gap)) (toRest _ hlike) (skipGap_of_take hr hrest) ?_
      rwa [head?_of_take hr]
  | @item t u v value _ hwaits hgap hitems hno =>
    obtain ⟨front, -, rfl, hfront⟩ := hwaits.exists_front
    obtain ⟨gap, rfl, toQuote⟩ := hgap.exists_front
    obtain ⟨items, rfl, toEnd⟩ := hitems.exists_front
    have hquote (r : Text) : Replaces ('"' :: (items ++ rest)) ('"' :: (items ++ r)) :=
      replaces_cons _ _ _
    refine ⟨front ++ (gap ++ '"' :: items), by simp, .inr ⟨['"', ';'], ?_⟩, fun r hr => ?_⟩
    · have hwaits := Waits.semicolon (hfront _ ((hquote ['"', ';']).append gap))
        (toQuote _ (hquote _)) (toEnd _)
      simpa using hwaits.clause (.done _)
    · have hstop := Stop.item (hfront _ ((hquote r).append gap)) (toQuote _ (hquote r)) (toEnd r)
        (hno.of_take hr)
      simpa using hstop

end Stopping

end Definition

namespace DefinitionFile

open Definition (Gap Clause Stop Replaces gap_skipGap read_eq_ok_iff read_eq_error_iff
  head?_of_take replaces_of_take skipGap_of_take take_append_congr)

/-- Behind the definitions that a text begins with, there is one that cannot go on with `rest`. -/
inductive Stops : Text → Text → Prop
  | here {t u rest : Text} :
    Gap t u → Definition.skipGap u = u → u ≠ [] → Stop u rest → Stops t rest
  | later {t u name value v rest : Text} :
    Gap t u → Clause u name value v → Stops v rest → Stops t rest

variable {source t rest : Text} {seen : List Text}

/-- The place told by a syntax error is one at which no definition can go on. -/
lemma stops_of_readFrom {p : Position} {found : Option Char}
    (h : readFrom source seen t = .error (.unexpected p found)) :
    ∃ rest, Stops t rest ∧ p = Position.before source rest ∧ found = rest.head? := by
  generalize hn : t.length = n
  induction n using Nat.strongRecOn generalizing t seen with
  | ind n ih =>
    have hgap := gap_skipGap t
    rcases hu : Definition.skipGap t with _ | ⟨c, u⟩
    · rw [readFrom_of_end hu] at h
      cases h
    rw [hu] at hgap
    rcases hread : Definition.read (c :: u) with rest | ⟨⟨name, value⟩, rest⟩
    · rw [readFrom_of_stop hu (List.cons_ne_nil c u) hread] at h
      cases h
      refine ⟨rest, .here hgap ?_ (List.cons_ne_nil c u) (read_eq_error_iff.1 hread), rfl, rfl⟩
      rw [← hu, Definition.skipGap_skipGap]
    · rw [readFrom_of_clause hu (List.cons_ne_nil c u) hread] at h
      split at h
      · cases h
      have hshorter : rest.length < n := by
        have shorter := Definition.length_of_read hread
        have gap := Definition.length_skipGap_le t
        rw [hu] at gap
        omega
      obtain ⟨rest', hstops, hp⟩ := ih rest.length hshorter (Definition.map_eq_error_iff.1 h) rfl
      exact ⟨rest', .later hgap (read_eq_ok_iff.1 hread) hstops, hp⟩

/-- Behind the gap in front of it, a text of the grammar goes on with a definition. -/
lemma Derives.exists_clause {u : Text} {defs : List Definition} (h : Derives source t defs)
    (hgap : Gap t u) (hu : Definition.skipGap u = u) (hne : u ≠ []) :
    ∃ name value rest defs', Clause u name value rest ∧ Derives source rest defs' := by
  have hskip : Definition.skipGap t = u := hgap.skipGap_eq.trans hu
  cases h with
  | done hend => exact absurd (hskip.symm.trans hend.skipGap_eq) hne
  | clause hgap' _ hclause hrest =>
    obtain ⟨hu', -⟩ := hclause.skipGap_eq
    obtain rfl := hskip.symm.trans (hgap'.skipGap_eq.trans hu')
    exact ⟨_, _, _, _, hclause, hrest⟩

/-- A text with such a place derives from no grammar. -/
lemma Stops.not_derives (h : Stops t rest) (defs : List Definition) : ¬Derives source t defs := by
  intro hderives
  induction h generalizing defs with
  | here hgap hu hne hstop =>
    obtain ⟨name, value, v, -, hclause, -⟩ := hderives.exists_clause hgap hu hne
    cases (read_eq_error_iff.2 hstop).symm.trans (read_eq_ok_iff.2 hclause)
  | later hgap hclause _ ih =>
    obtain ⟨hu, hne⟩ := hclause.skipGap_eq
    obtain ⟨name, value, v, defs', hclause', hrest⟩ := hderives.exists_clause hgap hu hne
    cases (read_eq_ok_iff.2 hclause).symm.trans (read_eq_ok_iff.2 hclause')
    exact ih defs' hrest

/-- What is in front of such a place begins a file, and two characters decide that nothing goes
on. -/
lemma Stops.exists_front (h : Stops t rest) :
    ∃ front, t = front ++ rest ∧
      (∃ ending, ∀ lead, ∃ defs, Derives (lead ++ (front ++ ending)) (front ++ ending) defs) ∧
      ∀ r, r.take 2 = rest.take 2 → Stops (front ++ r) r := by
  induction h with
  | @here t u rest hgap hu hne hstop =>
    obtain ⟨gap, rfl, toStop⟩ := hgap.exists_front
    obtain ⟨front, rfl, hend, hfront⟩ := hstop.exists_front
    refine ⟨gap ++ front, by simp, ?_, fun r hr => ?_⟩
    · by_cases hfront : front = []
      · -- where a name is missing, there is only a gap in front
        subst hfront
        exact ⟨[], fun lead => ⟨[], .done (by simpa using toStop [] nofun)⟩⟩
      · obtain ⟨ending, name, value, hclause⟩ := hend.resolve_left hfront
        have hgap := toStop _ (Definition.replaces_append hfront rest ending)
        refine ⟨ending, fun lead => ?_⟩
        have hderives := Derives.clause hgap (List.append_assoc lead gap _).symm hclause
          (.done (.done []))
        exact ⟨_, by simpa using hderives⟩
    · have hu' := take_append_congr hr front
      have hne' : front ++ r ≠ [] := by
        intro hnil
        have hhead := head?_of_take hu'
        rw [hnil, List.head?_nil] at hhead
        exact hne (List.head?_eq_none_iff.1 hhead.symm)
      rw [List.append_assoc]
      exact .here (toStop _ (replaces_of_take hu')) (skipGap_of_take hu' hu) hne' (hfront r hr)
  | @later t u name value v rest hgap hclause _ ih =>
    obtain ⟨gap, rfl, toClause⟩ := hgap.exists_front
    obtain ⟨clause, hne, rfl, toNext⟩ := hclause.exists_front
    obtain ⟨front, rfl, ⟨ending, hend⟩, hfront⟩ := ih
    have hgap (r : Text) : Gap (gap ++ (clause ++ r)) (clause ++ r) :=
      toClause _ (Definition.replaces_append hne _ _)
    refine ⟨gap ++ (clause ++ front), by simp, ⟨ending, fun lead => ?_⟩, fun r hr => ?_⟩
    · obtain ⟨defs, hdefs⟩ := hend (lead ++ gap ++ clause)
      have hderives := Derives.clause (hgap _) (List.append_assoc (lead ++ gap) clause _) (toNext _)
        hdefs
      exact ⟨_, by simpa using hderives⟩
    · have hstops := Stops.later (hgap _) (toNext _) (hfront r hr)
      simpa using hstops

/-- A file is refused at a place of its own, and what is found there is reported. -/
lemma stops_of_read {p : Position} {found : Option Char}
    (h : read source = .error (.unexpected p found)) :
    ∃ front rest, source = front ++ rest ∧ Stops source rest ∧ p.Marks front ∧
      found = rest.head? := by
  obtain ⟨rest, hstops, hp, hfound⟩ := stops_of_readFrom h
  obtain ⟨front, rfl, -⟩ := hstops.exists_front
  rw [Position.before_append] at hp
  exact ⟨front, rest, rfl, hstops, Position.marks_iff.2 hp, hfound⟩

/-- A text of the grammar, whatever names are defined in it. -/
def IsFile (t : Text) : Prop :=
  ∃ defs, Derives t t defs

/-- What a syntax error says of the place between `front` and `rest`. -/
structure PointsAt (source : Text) (p : Position) (found : Option Char) (front rest : Text) :
    Prop where
  source_eq : source = front ++ rest
  marks : p.Marks front
  only : ∀ front' rest', source = front' ++ rest' → p.Marks front' → front' = front
  /-- What is in front of the place can be completed to a file. -/
  begins : ∃ ending, IsFile (front ++ ending)
  /-- With the two characters behind the place, it cannot. -/
  refused : ∀ c d tail ending, rest = c :: d :: tail → ¬IsFile (front ++ c :: d :: ending)
  atEnd : rest = [] → FileError.foundText found = "unexpected end of input"
  atChar : ∀ c tail, rest = c :: tail →
    FileError.foundText found = "unexpected character: '" ++ c.toString ++ "'"

/-- A syntax error points at the one place of the source where reading stopped. -/
theorem read_stops {source : Text} {p : Position} {found : Option Char}
    (h : read source = .error (.unexpected p found)) :
    ∃ front rest, PointsAt source p found front rest := by
  obtain ⟨front, rest, hsource, hstops, hmarks, rfl⟩ := stops_of_read h
  obtain ⟨front', hfront', ⟨ending, hend⟩, hstay⟩ := hstops.exists_front
  obtain rfl : front = front' := List.append_cancel_right (hsource.symm.trans hfront')
  refine ⟨front, rest, hsource, hmarks, fun front' rest' hsource' hmarks' => ?_,
    ⟨ending, hend []⟩, ?_, ?_, ?_⟩
  · exact hmarks.unique hmarks' (hsource'.symm.trans hsource)
  · rintro c d tail ending rfl ⟨defs, hderives⟩
    exact (hstay (c :: d :: ending) rfl).not_derives defs hderives
  · rintro rfl
    rfl
  · rintro c tail rfl
    rfl

/-- Behind a character of two bytes, a backslash that escapes nothing. -/
theorem read_stops_escape :
    read "A = \"1\";\r\nB = \"ä\\q\";".toList = .error (.unexpected ⟨2, 8⟩ (some '\\')) ∧
      PointsAt "A = \"1\";\r\nB = \"ä\\q\";".toList ⟨2, 8⟩ (some '\\')
        "A = \"1\";\r\nB = \"ä".toList "\\q\";".toList := by
  have hread : read "A = \"1\";\r\nB = \"ä\\q\";".toList =
      .error (.unexpected ⟨2, 8⟩ (some '\\')) := by
    decide +kernel
  have hsplit : "A = \"1\";\r\nB = \"ä\\q\";".toList =
      "A = \"1\";\r\nB = \"ä".toList ++ "\\q\";".toList := by
    decide
  have hmarks : Position.Marks ⟨2, 8⟩ "A = \"1\";\r\nB = \"ä".toList :=
    Position.marks_iff.2 (by decide)
  obtain ⟨front, rest, h⟩ := read_stops hread
  obtain rfl := h.only _ _ hsplit hmarks
  obtain rfl := List.append_cancel_left (hsplit.symm.trans h.source_eq)
  exact ⟨hread, h⟩

end DefinitionFile

end InlineExpr
