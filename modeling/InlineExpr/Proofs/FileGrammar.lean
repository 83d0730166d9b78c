import InlineExpr.DefinitionFile
import InlineExpr.Proofs.Marks
import InlineExpr.Proofs.Positions
import Mathlib.Data.List.Nodup
import Mathlib.Tactic.Common

/-!
# The grammar of definition files

A file is a gap, followed by any number of definitions with a gap behind each. The grammar is
written down as relations between a text and what is left of it, apart from the readers; each reader
takes exactly what its relation describes (`readName_eq_ok_iff`, `readItems_eq_ok_iff`,
`read_eq_ok_iff`), and a file is read as the grammar derives it (`DefinitionFile.readFrom_sound`,
`DefinitionFile.readFrom_complete`).
-/

namespace InlineExpr

namespace Definition

/-- A text begins with a gap and goes on with `rest`. A comment runs to the next newline or to the
end of the text. -/
inductive Gap : Text → Text → Prop
  | done (rest : Text) : Gap rest rest
  | space {c : Char} {t rest : Text} :
    c ∈ [' ', '\t', '\n', '\r', '\x0c'] → Gap t rest → Gap (c :: t) rest
  | comment {body t rest : Text} :
    '\n' ∉ body → (∀ c ∈ t.head?, c = '\n') → Gap t rest → Gap ('/' :: '/' :: (body ++ t)) rest

/-- What a character behind a backslash stands for. -/
inductive Escape : Char → Char → Prop
  | quote : Escape '"' '"'
  | backslash : Escape '\\' '\\'
  | newline : Escape 'n' '\n'
  | tab : Escape 't' '\t'

/-- A text begins with items that stand for the characters of a value and goes on with `rest`. -/
inductive Items : Text → Text → Text → Prop
  | done (rest : Text) : Items rest [] rest
  | escaped {c d : Char} {t value rest : Text} :
    Escape c d → Items t value rest → Items ('\\' :: c :: t) (d :: value) rest
  | plain {c : Char} {t value rest : Text} :
    c ≠ '"' → c ≠ '\\' → Items t value rest → Items (c :: t) (c :: value) rest

/-- A text begins with the definition of `name` as `value` and goes on with `rest`. -/
inductive Clause : Text → Text → Text → Text → Prop
  | mk {name t₁ t₂ value t₃ t₄ rest : Text} :
    Reference.IsName name → Gap t₁ ('=' :: t₂) → Gap t₂ ('"' :: t₃) →
    Items t₃ value ('"' :: t₄) → Gap t₄ (';' :: rest) → Clause (name ++ t₁) name value rest

section Gaps

/-- The characters of gaps outside of comments. -/
lemma isGapSpace_iff {c : Char} :
    isGapSpace c = true ↔ c ∈ [' ', '\t', '\n', '\r', '\x0c'] := by
  simp [isGapSpace, or_assoc]

/-- Inside a comment everything up to the newline is skipped. -/
lemma afterGap_true_of_not_mem {body : Text} (h : '\n' ∉ body) (t : Text) :
    afterGap true (body ++ t) = afterGap true t := by
  induction body with
  | nil => rfl
  | cons c body ih =>
    obtain ⟨hc, hbody⟩ := not_or.1 (mt List.mem_cons.2 h)
    have hne : (c != '\n') = true := bne_iff_ne.2 (Ne.symm hc)
    rw [List.cons_append, afterGap, if_pos rfl, hne, ih hbody]

/-- A comment ends in front of a newline, which is a gap itself, or at the end of the text. -/
lemma afterGap_true_of_head {t : Text} (h : ∀ c ∈ t.head?, c = '\n') :
    afterGap true t = afterGap false t := by
  cases t with
  | nil => rfl
  | cons c t =>
    obtain rfl := h c rfl
    rfl

/-- A leading space is skipped. -/
lemma skipGap_space {c : Char} (h : c ∈ [' ', '\t', '\n', '\r', '\x0c']) (t : Text) :
    skipGap (c :: t) = skipGap t := by
  rw [skipGap, afterGap, if_neg Bool.false_ne_true, if_pos (isGapSpace_iff.2 h), skipGap]

/-- A leading comment is skipped up to its newline or the end of the text. -/
lemma skipGap_comment {body t : Text} (hbody : '\n' ∉ body) (ht : ∀ c ∈ t.head?, c = '\n') :
    skipGap ('/' :: '/' :: (body ++ t)) = skipGap t := by
  change afterGap true ('/' :: (body ++ t)) = _
  have hslash : '\n' ∉ '/' :: body := by
    rw [List.mem_cons, not_or]
    exact ⟨by decide, hbody⟩
  rw [← List.cons_append, afterGap_true_of_not_mem hslash, afterGap_true_of_head ht, skipGap]

/-- Skipping a gap goes past any part of it. -/
lemma Gap.skipGap_eq {t rest : Text} (h : Gap t rest) : skipGap t = skipGap rest := by
  induction h with
  | done => rfl
  | space hc _ ih => rw [skipGap_space hc, ih]
  | comment hbody ht _ ih => rw [skipGap_comment hbody ht, ih]

/-- What is skipped is a gap; and so is what is left when the comment has ended that the flag tells
of. -/
lemma gap_afterGap (t : Text) :
    Gap t (afterGap false t) ∧
      ∃ body u, t = body ++ u ∧ '\n' ∉ body ∧ (∀ c ∈ u.head?, c = '\n') ∧
        Gap u (afterGap true t) := by
  induction t with
  | nil => exact ⟨.done [], [], [], rfl, List.not_mem_nil, nofun, .done []⟩
  | cons c t ih =>
    obtain ⟨outside, body, u, ht, hbody, hu, inside⟩ := ih
    constructor
    · rw [afterGap, if_neg Bool.false_ne_true]
      split
      · rename_i hc
        exact .space (isGapSpace_iff.1 hc) outside
      · split
        · rename_i hc
          obtain ⟨rfl, hhead⟩ := hc
          -- the second slash does not end the comment, so it stands in its body
          cases body with
          | nil =>
            rw [List.nil_append] at ht
            rw [ht] at hhead
            exact absurd (hu _ hhead) (by decide)
          | cons d body =>
            rw [ht, List.cons_append, List.head?_cons, Option.some.injEq] at hhead
            subst hhead
            rw [ht, List.cons_append] at inside ⊢
            exact .comment (fun hm => hbody (.tail _ hm)) hu inside
        · exact .done _
    · by_cases hc : c = '\n'
      · subst hc
        exact ⟨[], '\n' :: t, rfl, List.not_mem_nil, by simp, .space (by simp) outside⟩
      · have hne : (c != '\n') = true := bne_iff_ne.2 hc
        rw [afterGap, if_pos rfl, hne]
        refine ⟨c :: body, u, by rw [ht, List.cons_append], ?_, hu, inside⟩
        rw [List.mem_cons, not_or]
        exact ⟨Ne.symm hc, hbody⟩

/-- Behind a gap stands a part of the text. -/
lemma Gap.suffix {t rest : Text} (h : Gap t rest) : rest <:+ t := by
  induction h with
  | done => exact List.suffix_rfl
  | space _ _ ih => exact ih.trans (List.suffix_cons _ _)
  | @comment body t rest _ _ _ ih => exact ih.trans (List.suffix_append ('/' :: '/' :: body) t)

/-- What is skipped is a gap. -/
lemma gap_skipGap (t : Text) : Gap t (skipGap t) :=
  (gap_afterGap t).1

/-- A text that begins with neither white space nor a slash has no gap in front. -/
lemma skipGap_of_head {c : Char} (hspace : isGapSpace c = false) (hslash : c ≠ '/') (t : Text) :
    skipGap (c :: t) = c :: t := by
  rw [skipGap, afterGap, if_neg Bool.false_ne_true, hspace, if_neg Bool.false_ne_true,
    if_neg fun h => hslash h.1]

/-- No name begins like a gap. -/
lemma not_gap_of_isNameChar {c : Char} (h : isNameChar c = true) :
    isGapSpace c = false ∧ c ≠ '/' := by
  constructor
  · by_contra hspace
    simp only [isGapSpace, Bool.not_eq_false, Bool.or_eq_true, beq_iff_eq] at hspace
    rcases hspace with (((rfl | rfl) | rfl) | rfl) | rfl <;> cases h
  · rintro rfl
    cases h

end Gaps

section Readers

/-- A mark is taken exactly where it stands. -/
lemma expect_eq_ok_iff {c : Char} {t rest : Text} : expect c t = .ok rest ↔ t = c :: rest := by
  cases t with
  | nil => simp [expect]
  | cons d t => by_cases h : d = c <;> simp [expect, h]

/-- The character that a reader waits for behind a gap is found exactly where a gap ends with it. -/
lemma expect_skipGap_eq_ok_iff {c : Char} (hspace : isGapSpace c = false) (hslash : c ≠ '/')
    {t rest : Text} : expect c (skipGap t) = .ok rest ↔ Gap t (c :: rest) := by
  rw [expect_eq_ok_iff]
  constructor
  · intro h
    rw [← h]
    exact gap_skipGap t
  · intro h
    rw [h.skipGap_eq, skipGap_of_head hspace hslash]

/-- A name runs as far as the characters of names do. -/
lemma readName_eq_ok_iff {t name rest : Text} :
    readName t = .ok (name, rest) ↔
      t = name ++ rest ∧ Reference.IsName name ∧ ∀ c ∈ rest.head?, isNameChar c = false := by
  constructor
  · intro h
    unfold readName at h
    split at h
    · cases h
    · rename_i c cs hname
      cases h
      rw [← hname]
      refine ⟨List.takeWhile_append_dropWhile.symm, ⟨?_, List.all_takeWhile⟩, fun d hd => ?_⟩
      · rw [hname]
        exact List.cons_ne_nil _ _
      · have stop := List.head?_dropWhile_not isNameChar t
        rw [hd] at stop
        simpa using stop
  · rintro ⟨rfl, hname, hrest⟩
    have htake : (name ++ rest).takeWhile isNameChar = name := by
      rw [List.takeWhile_append_of_pos fun c => hname.of_mem]
      cases rest with
      | nil => exact List.append_nil name
      | cons c rest => simp [hrest c rfl]
    have hdrop : (name ++ rest).dropWhile isNameChar = rest := by
      rw [List.dropWhile_append_of_pos fun c => hname.of_mem]
      cases rest with
      | nil => rfl
      | cons c rest => simp [hrest c rfl]
    rw [readName, htake, hdrop]
    cases name with
    | nil => exact absurd rfl hname.1
    | cons c name => rfl

/-- The escapes of the grammar are those that the reader knows. -/
lemma unescape?_eq_some_iff {c d : Char} : unescape? c = some d ↔ Escape c d := by
  constructor
  · intro h
    unfold unescape? at h
    split at h <;> cases h
    · exact .quote
    · exact .backslash
    · exact .newline
    · exact .tab
  · intro h
    cases h <;> rfl

/-- A value runs as far as its items do. -/
lemma readItems_eq_ok_iff {t value rest : Text} :
    readItems t = .ok (value, rest) ↔ Items t value ('"' :: rest) := by
  constructor
  · intro h
    fun_induction readItems t generalizing value with
    | case1 => cases h
    | case2 t =>
      cases h
      exact .done _
    | case3 => cases h
    | case4 => cases h
    | case5 c t d hd ih =>
      obtain ⟨⟨v, r⟩, hv, hvalue⟩ := map_eq_ok_iff.1 h
      cases hvalue
      exact .escaped (unescape?_eq_some_iff.1 hd) (ih hv)
    | case6 c t hquote hend hescape ih =>
      obtain ⟨⟨v, r⟩, hv, hvalue⟩ := map_eq_ok_iff.1 h
      cases hvalue
      refine .plain (fun hc => hquote hc) (fun hc => ?_) (ih hv)
      -- a backslash stands at the end of the text or in front of a character
      cases t with
      | nil => exact hend hc rfl
      | cons d t => exact hescape d t hc rfl
  · intro h
    generalize hrest : '"' :: rest = u at h
    induction h with
    | done =>
      subst hrest
      rfl
    | escaped hd _ ih => rw [readItems, unescape?_eq_some_iff.2 hd, ih hrest]; rfl
    | plain hquote hslash _ ih =>
      rw [readItems, ih hrest]
      · rfl
      · exact fun h => hquote h
      · exact fun h _ => hslash h
      · exact fun c t h _ => hslash h

/-- A definition is read exactly where the grammar has one. -/
lemma read_eq_ok_iff {t name value rest : Text} :
    read t = .ok ((name, value), rest) ↔ Clause t name value rest := by
  have equals {t rest : Text} : expect '=' (skipGap t) = .ok rest ↔ Gap t ('=' :: rest) :=
    expect_skipGap_eq_ok_iff rfl (by decide)
  have quote {t rest : Text} : expect '"' (skipGap t) = .ok rest ↔ Gap t ('"' :: rest) :=
    expect_skipGap_eq_ok_iff rfl (by decide)
  have semicolon {t rest : Text} : expect ';' (skipGap t) = .ok rest ↔ Gap t (';' :: rest) :=
    expect_skipGap_eq_ok_iff rfl (by decide)
  constructor
  · intro h
    obtain ⟨⟨n, t₁⟩, hname, h⟩ := bind_eq_ok_iff.1 h
    obtain ⟨t₂, hequals, h⟩ := bind_eq_ok_iff.1 h
    obtain ⟨t₃, hquote, h⟩ := bind_eq_ok_iff.1 h
    obtain ⟨⟨v, t₄⟩, hitems, h⟩ := bind_eq_ok_iff.1 h
    obtain ⟨t₅, hsemicolon, h⟩ := bind_eq_ok_iff.1 h
    cases h
    obtain ⟨rfl, hname, -⟩ := readName_eq_ok_iff.1 hname
    exact .mk hname (equals.1 hequals) (quote.1 hquote) (readItems_eq_ok_iff.1 hitems)
      (semicolon.1 hsemicolon)
  · rintro @⟨name, t₁, t₂, value, t₃, t₄, rest, hname, hequals, hquote, hitems, hsemicolon⟩
    -- behind a name there is white space, a slash or the equals sign
    have hstop : ∀ c ∈ t₁.head?, isNameChar c = false := by
      intro c hc
      cases hequals with
      | done =>
        cases hc
        rfl
      | space hspace _ =>
        cases hc
        by_contra hc
        rw [Bool.not_eq_false] at hc
        rw [← isGapSpace_iff, (not_gap_of_isNameChar hc).1] at hspace
        cases hspace
      | comment =>
        cases hc
        rfl
    refine bind_eq_ok_iff.2 ⟨(name, t₁), readName_eq_ok_iff.2 ⟨rfl, hname, hstop⟩, ?_⟩
    refine bind_eq_ok_iff.2 ⟨t₂, equals.2 hequals, ?_⟩
    refine bind_eq_ok_iff.2 ⟨t₃, quote.2 hquote, ?_⟩
    refine bind_eq_ok_iff.2 ⟨(value, t₄), readItems_eq_ok_iff.2 hitems, ?_⟩
    exact bind_eq_ok_iff.2 ⟨rest, semicolon.2 hsemicolon, rfl⟩

/-- Behind the items stands a part of the text. -/
lemma Items.suffix {t value rest : Text} (h : Items t value rest) : rest <:+ t := by
  induction h with
  | done => exact List.suffix_rfl
  | @escaped c d t value rest _ _ ih => exact ih.trans (List.suffix_append ['\\', c] t)
  | plain _ _ _ ih => exact ih.trans (List.suffix_cons _ _)

/-- Behind a definition stands a part of the text. -/
lemma Clause.suffix {t name value rest : Text} (h : Clause t name value rest) : rest <:+ t := by
  obtain @⟨name, t₁, t₂, value, t₃, t₄, rest, -, hequals, hquote, hitems, hsemicolon⟩ := h
  have toEquals : t₂ <:+ t₁ := (List.suffix_cons _ _).trans hequals.suffix
  have toQuote : t₃ <:+ t₂ := (List.suffix_cons _ _).trans hquote.suffix
  have toValue : t₄ <:+ t₃ := (List.suffix_cons _ _).trans hitems.suffix
  have toSemicolon : rest <:+ t₄ := (List.suffix_cons _ _).trans hsemicolon.suffix
  exact ((toSemicolon.trans toValue).trans (toQuote.trans toEquals)).trans
    (List.suffix_append name t₁)

/-- A definition begins with a character of its name, so there is no gap in front of it. -/
lemma Clause.skipGap_eq {t name value rest : Text} (h : Clause t name value rest) :
    skipGap t = t ∧ t ≠ [] := by
  obtain ⟨hname, -, -, -, -⟩ := h
  cases name with
  | nil => exact absurd rfl hname.1
  | cons c name =>
    obtain ⟨hspace, hslash⟩ := not_gap_of_isNameChar (hname.of_mem (.head _))
    exact ⟨skipGap_of_head hspace hslash _, List.cons_ne_nil _ _⟩

end Readers

end Definition

namespace DefinitionFile

open Definition (Gap Clause gap_skipGap read_eq_ok_iff)

/-- What is left of `source` is a gap and then definitions, each with a gap behind. A definition
stands on the line that the newlines in front of its name tell. -/
inductive Derives (source : Text) : Text → List Definition → Prop
  | done {t : Text} : Gap t [] → Derives source t []
  | clause {front t u name value rest : Text} {defs : List Definition} :
    Gap t u → source = front ++ u → Clause u name value rest → Derives source rest defs →
      Derives source t (⟨name, value, 1 + front.count '\n'⟩ :: defs)

section Equations

variable {source t u rest name value : Text} {seen : List Text}

/-- Where only a gap is left, the file ends. -/
lemma readFrom_of_end (h : Definition.skipGap t = []) : readFrom source seen t = .ok [] := by
  unfold readFrom
  split
  · rfl
  · rename_i c u hu
    rw [h] at hu
    cases hu

/-- A definition that cannot go on is a syntax error at that place. -/
lemma readFrom_of_stop (h : Definition.skipGap t = u) (hne : u ≠ [])
    (hread : Definition.read u = .error rest) :
    readFrom source seen t = .error (.unexpected (Position.before source rest) rest.head?) := by
  unfold readFrom
  split
  · rename_i hu
    exact absurd (h.symm.trans hu) hne
  · rename_i c v hv
    obtain rfl := h.symm.trans hv
    split
    · rename_i hr
      cases hread.symm.trans hr
      rfl
    · rename_i hr
      cases hread.symm.trans hr

/-- A definition is read, refused if its name is taken, and the rest is read after it. -/
lemma readFrom_of_clause (h : Definition.skipGap t = u) (hne : u ≠ [])
    (hread : Definition.read u = .ok ((name, value), rest)) :
    readFrom source seen t =
      if name ∈ seen then .error (.duplicate name (Position.before source u).line)
      else (readFrom source (name :: seen) rest).map
        fun defs => ⟨name, value, (Position.before source u).line⟩ :: defs := by
  conv_lhs => unfold readFrom
  split
  · rename_i hu
    exact absurd (h.symm.trans hu) hne
  · rename_i c v hv
    obtain rfl := h.symm.trans hv
    split
    · rename_i hr
      cases hread.symm.trans hr
    · rename_i hr
      cases hread.symm.trans hr
      rfl

end Equations

section Runs

variable {source t : Text} {seen : List Text}

/-- What is read from an end piece of a file derives from the grammar, and its names are new and
distinct. -/
lemma readFrom_sound {defs : List Definition} (hsource : t <:+ source)
    (h : readFrom source seen t = .ok defs) :
    Derives source t defs ∧ (defs.map Definition.name).Nodup ∧
      ∀ d ∈ defs, d.name ∉ seen := by
  generalize hn : t.length = n
  induction n using Nat.strongRecOn generalizing t seen defs with
  | ind n ih =>
    have hgap := gap_skipGap t
    rcases hu : Definition.skipGap t with _ | ⟨c, u⟩
    · rw [readFrom_of_end hu, Except.ok.injEq] at h
      subst h
      rw [hu] at hgap
      exact ⟨.done hgap, List.nodup_nil, nofun⟩
    · rcases hread : Definition.read (c :: u) with rest | ⟨⟨name, value⟩, rest⟩
      · rw [readFrom_of_stop hu (List.cons_ne_nil c u) hread] at h
        cases h
      · rw [readFrom_of_clause hu (List.cons_ne_nil c u) hread] at h
        split at h
        · cases h
        · rename_i hnew
          obtain ⟨defs, hrest, rfl⟩ := Definition.map_eq_ok_iff.1 h
          rw [hu] at hgap
          have hclause := read_eq_ok_iff.1 hread
          have hsuffix := hgap.suffix.trans hsource
          have hshorter : rest.length < n := by
            have shorter := Definition.length_of_read hread
            have gap := Definition.length_skipGap_le t
            rw [hu] at gap
            omega
          obtain ⟨hderives, hnodup, hseen⟩ :=
            ih rest.length hshorter (hclause.suffix.trans hsuffix) hrest rfl
          obtain ⟨front, hfront⟩ := hsuffix
          refine ⟨?_, ?_, ?_⟩
          · rw [← hfront, Position.before_append]
            rw [← hfront] at hderives
            exact .clause hgap rfl hclause hderives
          · refine List.nodup_cons.2 ⟨fun hm => ?_, hnodup⟩
            obtain ⟨d, hd, hname⟩ := List.mem_map.1 hm
            exact hseen d hd (hname ▸ List.mem_cons_self)
          · rintro d (_ | ⟨_, hd⟩)
            · exact hnew
            · exact fun hm => hseen d hd (.tail _ hm)

/-- A first derived definition is read, or refused if its name was seen before. -/
lemma readFrom_of_derives_cons {d : Definition} {defs : List Definition}
    (h : Derives source t (d :: defs)) (seen : List Text) :
    ∃ rest, Derives source rest defs ∧
      readFrom source seen t =
        if d.name ∈ seen then .error (.duplicate d.name d.line)
        else (readFrom source (d.name :: seen) rest).map fun defs => d :: defs := by
  obtain _ | ⟨hgap, hsource, hclause, hrest⟩ := h
  obtain ⟨hskip, hne⟩ := hclause.skipGap_eq
  refine ⟨_, hrest, ?_⟩
  rw [readFrom_of_clause (hgap.skipGap_eq.trans hskip) hne (read_eq_ok_iff.2 hclause), hsource,
    Position.before_append]
  rfl

/-- An end piece of a file that derives from the grammar is read if its names are new and
distinct. -/
lemma readFrom_complete {defs : List Definition} (h : Derives source t defs)
    (hnodup : (defs.map Definition.name).Nodup) (hseen : ∀ d ∈ defs, d.name ∉ seen) :
    readFrom source seen t = .ok defs := by
  induction defs generalizing t seen with
  | nil =>
    obtain ⟨hgap⟩ := h
    exact readFrom_of_end hgap.skipGap_eq
  | cons d defs ih =>
    obtain ⟨rest, hrest, hread⟩ := readFrom_of_derives_cons h seen
    obtain ⟨hname, hnodup⟩ := List.nodup_cons.1 hnodup
    have hseen' : ∀ e ∈ defs, e.name ∉ d.name :: seen := by
      intro e he hm
      rcases List.mem_cons.1 hm with heq | hm
      · exact hname (heq ▸ List.mem_map_of_mem he)
      · exact hseen e (.tail _ he) hm
    rw [hread, if_neg (hseen d (.head _)), ih hrest hnodup hseen']
    rfl

/-- The first definition whose name was seen before, or repeats an earlier one, is refused. -/
lemma readFrom_of_repeat {pre post : List Definition} {d : Definition}
    (h : Derives source t (pre ++ d :: post)) (hnodup : (pre.map Definition.name).Nodup)
    (hseen : ∀ e ∈ pre, e.name ∉ seen) (hd : d.name ∈ seen ∨ d.name ∈ pre.map Definition.name) :
    readFrom source seen t = .error (.duplicate d.name d.line) := by
  induction pre generalizing t seen with
  | nil =>
    obtain ⟨rest, -, hread⟩ := readFrom_of_derives_cons h seen
    rw [hread, if_pos (hd.resolve_right List.not_mem_nil)]
  | cons e pre ih =>
    obtain ⟨rest, hrest, hread⟩ := readFrom_of_derives_cons h seen
    obtain ⟨hname, hnodup⟩ := List.nodup_cons.1 hnodup
    have hseen' : ∀ f ∈ pre, f.name ∉ e.name :: seen := by
      intro f hf hm
      rcases List.mem_cons.1 hm with heq | hm
      · exact hname (heq ▸ List.mem_map_of_mem hf)
      · exact hseen f (.tail _ hf) hm
    have hd' : d.name ∈ e.name :: seen ∨ d.name ∈ pre.map Definition.name := by
      rw [List.map_cons, List.mem_cons] at hd
      rw [List.mem_cons]
      tauto
    rw [hread, if_neg (hseen e (.head _)), ih hrest hnodup hseen' hd']
    rfl

end Runs

end DefinitionFile

end InlineExpr
