import InlineExpr.Diagnostic
import InlineExpr.Proofs.FileStop
import Mathlib.Data.List.Induction

/-!
# The label of a syntax error

A diagnostic finds its label again from the line and the column of the error: it adds up the lines
in front, each terminator counted as one byte. A line that ends with a carriage return and a newline
is one byte longer, so the label falls short by one for each of them in front of the place where
reading stopped (`Diagnostic.offset_unexpected`), and only then does it miss the place.
-/

namespace InlineExpr

namespace Text

/-- How many newlines of a text have a carriage return in front. -/
def crlfCount : Text → Nat
  | [] => 0
  | c :: t => (if c = '\r' ∧ t.head? = some '\n' then 1 else 0) + crlfCount t

/-- A text of lines, with a newline behind each. -/
def unlines (lines : List Text) : Text :=
  lines.flatMap (· ++ ['\n'])

section Lines

variable {line t : Text} {lines : List Text}

/-- A line stands in front of the others and of its newline. -/
lemma unlines_cons (line : Text) (lines : List Text) (t : Text) :
    unlines (line :: lines) ++ t = line ++ '\n' :: (unlines lines ++ t) := by
  simp [unlines]

/-- Each line adds one newline. -/
lemma count_unlines (hlines : ∀ line ∈ lines, '\n' ∉ line) (t : Text) :
    (unlines lines ++ t).count '\n' = lines.length + t.count '\n' := by
  induction lines with
  | nil => exact (Nat.zero_add _).symm
  | cons line lines ih =>
    obtain ⟨hline, hlines⟩ := List.forall_mem_cons.1 hlines
    rw [unlines_cons, List.count_append, List.count_eq_zero.2 hline, List.count_cons_self,
      ih hlines, List.length_cons]
    omega

/-- The text of lines is empty or ends with a newline. -/
lemma getLast?_unlines (lines : List Text) :
    unlines lines = [] ∨ (unlines lines).getLast? = some '\n' := by
  induction lines using List.reverseRecOn with
  | nil => exact .inl rfl
  | append_singleton lines line _ => exact .inr (by simp [unlines])

/-- Every text is a row of lines and what stands behind the last newline. -/
lemma exists_unlines (t : Text) :
    ∃ lines last, t = unlines lines ++ last ∧ (∀ line ∈ lines, '\n' ∉ line) ∧ '\n' ∉ last := by
  induction t with
  | nil => exact ⟨[], [], rfl, nofun, List.not_mem_nil⟩
  | cons c t ih =>
    obtain ⟨lines, last, rfl, hlines, hlast⟩ := ih
    by_cases hc : c = '\n'
    · subst hc
      refine ⟨[] :: lines, last, rfl, ?_, hlast⟩
      exact List.forall_mem_cons.2 ⟨List.not_mem_nil, hlines⟩
    · have hcons {u : Text} (hu : '\n' ∉ u) : '\n' ∉ c :: u :=
        List.not_mem_cons_of_ne_of_not_mem (Ne.symm hc) hu
      cases lines with
      | nil => exact ⟨[], c :: last, rfl, nofun, hcons hlast⟩
      | cons line lines =>
        obtain ⟨hline, hlines⟩ := List.forall_mem_cons.1 hlines
        refine ⟨(c :: line) :: lines, last, ?_, ?_, hlast⟩
        · rw [unlines_cons, unlines_cons, List.cons_append]
        · exact List.forall_mem_cons.2 ⟨hcons hline, hlines⟩

/-- A text is split behind its first line. -/
lemma splitLines_append (hline : '\n' ∉ line) (t : Text) :
    splitLines (line ++ '\n' :: t) = line :: splitLines t := by
  induction line with
  | nil => rfl
  | cons c line ih =>
    obtain ⟨hc, hline⟩ := not_or.1 (mt List.mem_cons.2 hline)
    rw [List.cons_append, splitLines, if_neg (Ne.symm hc), ih hline]

/-- Complete lines are split off again. -/
lemma take_splitLines_unlines (hlines : ∀ line ∈ lines, '\n' ∉ line) (t : Text) :
    (splitLines (unlines lines ++ t)).take lines.length = lines := by
  induction lines with
  | nil => rfl
  | cons line lines ih =>
    obtain ⟨hline, hlines⟩ := List.forall_mem_cons.1 hlines
    rw [unlines_cons, splitLines_append hline, List.length_cons, List.take_succ_cons, ih hlines]

/-- With no newline there is none behind a carriage return. -/
lemma crlfCount_of_not_mem (h : '\n' ∉ t) : crlfCount t = 0 := by
  induction t with
  | nil => rfl
  | cons c t ih =>
    obtain ⟨-, ht⟩ := not_or.1 (mt List.mem_cons.2 h)
    have hhead : ¬(c = '\r' ∧ t.head? = some '\n') := fun hc => ht (List.mem_of_mem_head? hc.2)
    rw [crlfCount, if_neg hhead, ih ht]

/-- Of the terminator of a line, the carriage return stands at the end of the line. -/
lemma crlfCount_append (hline : '\n' ∉ line) (t : Text) :
    crlfCount (line ++ '\n' :: t) =
      (if line.getLast? = some '\r' then 1 else 0) + crlfCount t := by
  induction line with
  | nil => rfl
  | cons c line ih =>
    obtain ⟨-, hline⟩ := not_or.1 (mt List.mem_cons.2 hline)
    rw [List.cons_append, crlfCount, ih hline]
    cases line with
    | nil => simp
    | cons d line =>
      have hd : ¬d = '\n' := fun hd => hline (hd ▸ List.mem_cons_self)
      simp [hd]

/-- All terminators are newlines alone where none has a carriage return in front. -/
lemma crlfCount_eq_zero_iff {t : Text} : crlfCount t = 0 ↔ ¬['\r', '\n'] <:+: t := by
  induction t with
  | nil => simp [crlfCount]
  | cons c t ih =>
    rw [crlfCount, List.infix_cons_iff, not_or, ← ih, Nat.add_eq_zero_iff]
    refine and_congr_left' ?_
    cases t with
    | nil => simp
    | cons d t => simp [List.cons_prefix_cons, eq_comm]

end Lines

end Text

namespace Position

variable {lines : List Text}

/-- Behind lines, the position tells their number and the bytes that stand behind them. -/
lemma after_unlines (hlines : ∀ line ∈ lines, '\n' ∉ line) {last : Text} (hlast : '\n' ∉ last) :
    after (Text.unlines lines ++ last) = ⟨lines.length + 1, last.byteSize + 1⟩ := by
  refine (marks_iff.1 ⟨?_, _, last, rfl, Text.getLast?_unlines lines, hlast, rfl⟩).symm
  rw [Text.count_unlines hlines, List.count_eq_zero.2 hlast, Nat.add_zero]

end Position

namespace Diagnostic

variable {line : Text} {lines : List Text}

/-- A line is counted with its newline, but without a carriage return in front of that. -/
lemma lineSize_add (line : Text) :
    lineSize line + (if line.getLast? = some '\r' then 1 else 0) = line.byteSize + 1 := by
  rw [lineSize]
  cases h : line.before? ['\r'] with
  | some l =>
    obtain rfl := Text.before?_eq_some_iff.1 h
    rw [Option.getD_some, List.getLast?_concat, if_pos rfl, Text.byteSize_append]
    rfl
  | none =>
    have hlast : line.getLast? ≠ some '\r' := by
      intro hlast
      obtain ⟨l, hl⟩ := List.getLast?_eq_some_iff.1 hlast
      cases h.symm.trans (Text.before?_eq_some_iff.2 hl)
    rw [if_neg hlast, Option.getD_none]

/-- The sizes of the lines in front and the bytes of the last one miss what is in front by the
carriage returns in terminators. -/
lemma sum_lineSize (hlines : ∀ line ∈ lines, '\n' ∉ line) {last : Text} (hlast : '\n' ∉ last)
    (n : Nat) :
    (lines.map lineSize).foldl (· + ·) n + last.byteSize +
      Text.crlfCount (Text.unlines lines ++ last) = n + (Text.unlines lines ++ last).byteSize := by
  induction lines generalizing n with
  | nil => simp [Text.unlines, Text.crlfCount_of_not_mem hlast]
  | cons line lines ih =>
    obtain ⟨hline, hlines⟩ := List.forall_mem_cons.1 hlines
    have ih := ih hlines (n + lineSize line)
    have hsize := lineSize_add line
    have hnewline : '\n'.utf8Size = 1 := rfl
    rw [Text.unlines_cons, Text.crlfCount_append hline, List.map_cons, List.foldl_cons,
      Text.byteSize_append, Text.byteSize_cons]
    omega

/-- The offset of a syntax error misses the bytes in front by the carriage returns in
terminators. -/
lemma offset_add_crlfCount {p : Position} {front : Text} (h : p.Marks front) (rest : Text)
    (found : Option Char) :
    (ofFileError (front ++ rest) (.unexpected p found)).offset + front.crlfCount =
      front.byteSize := by
  obtain ⟨lines, last, rfl, hlines, hlast⟩ := Text.exists_unlines front
  have hsum := sum_lineSize hlines hlast 0
  have hp := (Position.marks_iff.1 h).trans (Position.after_unlines hlines hlast)
  have htake := Text.take_splitLines_unlines hlines (last ++ rest)
  rw [← List.append_assoc] at htake
  change offsetOf _ p + _ = _
  rw [offsetOf, hp, Nat.add_sub_cancel, Nat.add_sub_cancel, htake,
    Text.byteSize_append]
  omega

/-- The label of a syntax error stands in front of the place where reading stopped by one byte for
each carriage return in a terminator before it; so it marks that place exactly when there is
none. -/
theorem offset_unexpected {source : Text} {p : Position} {found : Option Char}
    (h : DefinitionFile.read source = .error (.unexpected p found)) :
    ∃ front rest, source = front ++ rest ∧ p.Marks front ∧ found = rest.head? ∧
      (ofFileError source (.unexpected p found)).offset + front.crlfCount = front.byteSize ∧
      ((ofFileError source (.unexpected p found)).offset = front.byteSize ↔
        ¬['\r', '\n'] <:+: front) := by
  obtain ⟨front, rest, rfl, -, hmarks, hfound⟩ := DefinitionFile.stops_of_read h
  have hoffset := offset_add_crlfCount hmarks rest found
  refine ⟨front, rest, rfl, hmarks, hfound, hoffset, ?_⟩
  rw [← Text.crlfCount_eq_zero_iff]
  omega

/-- Behind one line that ends with a carriage return and one that does not, the label stands one
byte in front of the name where a value is due. -/
theorem offset_unexpected_crlf :
    DefinitionFile.read "A = \"1\";\r\n// ä\nB = oops;".toList =
        .error (.unexpected ⟨3, 5⟩ (some 'o')) ∧
      Position.Marks ⟨3, 5⟩ "A = \"1\";\r\n// ä\nB = ".toList ∧
      (ofFileError "A = \"1\";\r\n// ä\nB = oops;".toList
          (.unexpected ⟨3, 5⟩ (some 'o'))).offset + 1 =
        Text.byteSize "A = \"1\";\r\n// ä\nB = ".toList := by
  have hread : DefinitionFile.read "A = \"1\";\r\n// ä\nB = oops;".toList =
      .error (.unexpected ⟨3, 5⟩ (some 'o')) := by
    decide +kernel
  have hmarks : Position.Marks ⟨3, 5⟩ "A = \"1\";\r\n// ä\nB = ".toList :=
    Position.marks_iff.2 (by decide)
  have hsplit : "A = \"1\";\r\n// ä\nB = oops;".toList =
      "A = \"1\";\r\n// ä\nB = ".toList ++ "oops;".toList := by
    decide
  obtain ⟨front, rest, hsource, hmarks', -, hoffset, -⟩ := offset_unexpected hread
  obtain rfl := hmarks.unique hmarks' (hsource.symm.trans hsplit)
  exact ⟨hread, hmarks, hoffset⟩

/-- The label of a syntax error does not always mark the place where reading stopped. -/
theorem not_offset_unexpected :
    ¬∀ (source : Text) (p : Position) (found : Option Char) (front rest : Text),
      DefinitionFile.read source = .error (.unexpected p found) → source = front ++ rest →
      p.Marks front → (ofFileError source (.unexpected p found)).offset = front.byteSize := by
  intro h
  have hoffset := h "A = \"1\";\r\nB = oops;".toList ⟨2, 5⟩ (some 'o')
    "A = \"1\";\r\nB = ".toList "oops;".toList (by decide +kernel) (by decide)
    (Position.marks_iff.2 (by decide))
  revert hoffset
  decide

end Diagnostic

end InlineExpr
