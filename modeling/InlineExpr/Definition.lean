import InlineExpr.Reference

/-!
# Definitions of constants

A definition is written `NAME = "value";`. Between its pieces there may be gaps of white space and
of comments, which run from `//` to the end of the line. In a value a backslash introduces one of
four characters; every other character but the quote stands for itself.

Each reader takes a piece off the front of a text. Where it cannot, it fails with what is left of
the text at the place where it stopped.
-/

namespace InlineExpr

/-- A definition as it stands in a file. -/
structure Definition where
  name : Text
  value : Text
  /-- The line on which the definition begins. -/
  line : Nat
deriving DecidableEq, Repr

namespace Definition

/-- The characters that may stand between the pieces of a definition. -/
def isGapSpace (c : Char) : Bool :=
  c == ' ' || c == '\t' || c == '\n' || c == '\r' || c == '\x0c'

/-- What follows a gap. The flag tells whether the text begins inside a comment. -/
def afterGap (inComment : Bool) : Text → Text
  | [] => []
  | c :: t =>
    if inComment then afterGap (c != '\n') t
    else if isGapSpace c then afterGap false t
    else if c = '/' ∧ t.head? = some '/' then afterGap true t
    else c :: t

/-- Skips a gap, which may be empty. -/
def skipGap (t : Text) : Text :=
  afterGap false t

/-- Takes the mark off, or tells where it is missing. -/
def expect (c : Char) : Text → Except Text Text
  | [] => .error []
  | d :: t => if d = c then .ok t else .error (d :: t)

/-- Takes a name off, which has one character at least. -/
def readName (t : Text) : Except Text (Text × Text) :=
  match t.takeWhile isNameChar with
  | [] => .error t
  | c :: name => .ok (c :: name, t.dropWhile isNameChar)

/-- What a character behind a backslash stands for. -/
def unescape? : Char → Option Char
  | '"' => some '"'
  | '\\' => some '\\'
  | 'n' => some '\n'
  | 't' => some '\t'
  | _ => none

/-- Takes the characters of a value and the quote that ends it. -/
def readItems : Text → Except Text (Text × Text)
  | [] => .error []
  | '"' :: t => .ok ([], t)
  | ['\\'] => .error ['\\']
  | '\\' :: c :: t =>
    match unescape? c with
    | none => .error ('\\' :: c :: t)
    | some d => (readItems t).map fun (value, rest) => (d :: value, rest)
  | c :: t => (readItems t).map fun (value, rest) => (c :: value, rest)

/-- Takes a definition: its name and value, and what is left. -/
def read (t : Text) : Except Text ((Text × Text) × Text) := do
  let (name, t) ← readName t
  let t ← expect '=' (skipGap t)
  let t ← expect '"' (skipGap t)
  let (value, t) ← readItems t
  let t ← expect ';' (skipGap t)
  return ((name, value), t)

/-- A sequence of readers gives what the second one gives on what the first one left. -/
theorem bind_eq_ok_iff {ε α β : Type} {x : Except ε α} {f : α → Except ε β} {b : β} :
    x >>= f = .ok b ↔ ∃ a, x = .ok a ∧ f a = .ok b := by
  cases x with
  | error e => simp [bind, Except.bind]
  | ok a => simp [bind, Except.bind]

/-- What is made of a piece that was read comes from a piece that was read. -/
theorem map_eq_ok_iff {ε α β : Type} {x : Except ε α} {f : α → β} {b : β} :
    x.map f = .ok b ↔ ∃ a, x = .ok a ∧ f a = b := by
  cases x with
  | error e => simp [Except.map]
  | ok a => simp [Except.map]

/-- Nothing is longer behind a gap. -/
theorem length_afterGap_le (inComment : Bool) (t : Text) :
    (afterGap inComment t).length ≤ t.length := by
  induction t generalizing inComment with
  | nil => simp [afterGap]
  | cons c t ih =>
    have keep := ih (c != '\n')
    have space := ih false
    have comment := ih true
    simp only [afterGap]
    split
    · exact Nat.le_succ_of_le keep
    · split
      · exact Nat.le_succ_of_le space
      · split
        · exact Nat.le_succ_of_le comment
        · exact Nat.le_refl _

/-- Skipping a gap leaves no more of a text. -/
theorem length_skipGap_le (t : Text) : (skipGap t).length ≤ t.length :=
  length_afterGap_le false t

/-- A character that is expected is taken. -/
theorem length_of_expect {c : Char} {t rest : Text} (h : expect c t = .ok rest) :
    rest.length < t.length := by
  cases t with
  | nil => cases h
  | cons d t =>
    by_cases hd : d = c
    · simp only [expect, hd, if_true, Except.ok.injEq] at h
      simp [h]
    · simp [expect, hd] at h

/-- A name leaves no more of a text. -/
theorem length_of_readName {t name rest : Text} (h : readName t = .ok (name, rest)) :
    rest.length ≤ t.length := by
  unfold readName at h
  split at h
  · cases h
  · cases h
    exact (List.dropWhile_suffix _).length_le

/-- A value leaves no more of a text. -/
theorem length_of_readItems {t value rest : Text} (h : readItems t = .ok (value, rest)) :
    rest.length ≤ t.length := by
  fun_induction readItems t generalizing value with
  | case1 => cases h
  | case2 t =>
    cases h
    exact Nat.le_succ _
  | case3 => cases h
  | case4 => cases h
  | case5 c t d hd ih =>
    obtain ⟨⟨v, r⟩, hv, hvalue⟩ := map_eq_ok_iff.1 h
    cases hvalue
    exact Nat.le_succ_of_le (Nat.le_succ_of_le (ih hv))
  | case6 c t _ _ _ ih =>
    obtain ⟨⟨v, r⟩, hv, hvalue⟩ := map_eq_ok_iff.1 h
    cases hvalue
    exact Nat.le_succ_of_le (ih hv)

/-- A definition takes something off a text. -/
theorem length_of_read {t rest : Text} {d : Text × Text} (h : read t = .ok (d, rest)) :
    rest.length < t.length := by
  obtain ⟨⟨name, t₁⟩, hname, h⟩ := bind_eq_ok_iff.1 h
  obtain ⟨t₂, hequals, h⟩ := bind_eq_ok_iff.1 h
  obtain ⟨t₃, hquote, h⟩ := bind_eq_ok_iff.1 h
  obtain ⟨⟨value, t₄⟩, hitems, h⟩ := bind_eq_ok_iff.1 h
  obtain ⟨t₅, hsemicolon, h⟩ := bind_eq_ok_iff.1 h
  cases h
  calc rest.length < (skipGap t₄).length := length_of_expect hsemicolon
    _ ≤ t₄.length := length_skipGap_le t₄
    _ ≤ t₃.length := length_of_readItems hitems
    _ ≤ (skipGap t₂).length := Nat.le_of_lt (length_of_expect hquote)
    _ ≤ t₂.length := length_skipGap_le t₂
    _ ≤ (skipGap t₁).length := Nat.le_of_lt (length_of_expect hequals)
    _ ≤ t₁.length := length_skipGap_le t₁
    _ ≤ t.length := length_of_readName hname

end Definition

end InlineExpr
