import InlineExpr.Proofs.FileGrammar
import Mathlib.Data.List.Induction

/-!
# Layouts of definition files

Definitions are written down with any gaps between their pieces, and the characters of a value that
cannot stand for themselves are escaped. What `reads_grammar` says is that reading a file accepts
what the grammar derives, refuses the first name that is repeated, and gives the definitions back
from any layout.
-/

namespace InlineExpr

namespace Definition

/-- How a character is written in a value. -/
def escapeChar : Char → Text
  | '"' => ['\\', '"']
  | '\\' => ['\\', '\\']
  | '\n' => ['\\', 'n']
  | '\t' => ['\\', 't']
  | c => [c]

/-- How the characters of a value are written. -/
def escape (value : Text) : Text :=
  value.flatMap escapeChar

/-- A character is written as an item that stands for it. -/
lemma items_escapeChar (c : Char) {t value rest : Text} (h : Items t value rest) :
    Items (escapeChar c ++ t) (c :: value) rest := by
  unfold escapeChar
  split
  · exact .escaped .quote h
  · exact .escaped .backslash h
  · exact .escaped .newline h
  · exact .escaped .tab h
  · rename_i hquote hslash _ _
    exact .plain hquote hslash h

/-- An escaped value is a row of items that stand for its characters. -/
lemma items_escape (value rest : Text) : Items (escape value ++ rest) value rest := by
  induction value with
  | nil => exact .done rest
  | cons c value ih =>
    rw [escape, List.flatMap_cons, List.append_assoc]
    exact items_escapeChar c ih

/-- A text that is a gap in front of any other: every comment in it ends. -/
def IsGap (gap : Text) : Prop :=
  ∀ rest, Gap (gap ++ rest) rest

/-- A definition and the gaps that it is laid out with. -/
structure Row where
  name : Text
  value : Text
  inFront : Text
  afterName : Text
  afterEquals : Text
  afterValue : Text
  isName : Reference.IsName name
  isGap : IsGap inFront ∧ IsGap afterName ∧ IsGap afterEquals ∧ IsGap afterValue

namespace Row

/-- What a row defines. -/
def binding (row : Row) : Text × Text :=
  (row.name, row.value)

/-- The text of a row behind the gap in front of it. -/
def written (row : Row) : Text :=
  row.name ++ (row.afterName ++ '=' :: (row.afterEquals ++ '"' :: (escape row.value ++
    '"' :: (row.afterValue ++ [';']))))

/-- What is written for a row is the definition of its name. -/
lemma clause_written (row : Row) (rest : Text) :
    Clause (row.written ++ rest) row.name row.value rest := by
  obtain ⟨-, hequals, hquote, hsemicolon⟩ := row.isGap
  have hwritten : row.written ++ rest = row.name ++ (row.afterName ++ '=' :: (row.afterEquals ++
      '"' :: (escape row.value ++ '"' :: (row.afterValue ++ ';' :: rest)))) := by
    simp [written]
  rw [hwritten]
  exact .mk row.isName (hequals _) (hquote _) (items_escape _ _)
    (hsemicolon _)

end Row

end Definition

namespace Table

/-- A name that is not defined keeps its entry. -/
lemma get?_foldl_insert_of_not_mem {name : Text} {defs : List (Text × Text)}
    (h : name ∉ defs.map Prod.fst) (table : Table) :
    (defs.foldl (fun t d => t.insert d.1 d.2) table).get? name = table.get? name := by
  induction defs generalizing table with
  | nil => rfl
  | cons d defs ih =>
    obtain ⟨hd, hdefs⟩ := not_or.1 (mt List.mem_cons.2 h)
    rw [List.foldl_cons, ih hdefs, get?_insert, if_neg (Ne.symm hd)]

/-- Of names that differ from one another, each has its own value. -/
lemma get?_foldl_insert {defs : List (Text × Text)} (h : (defs.map Prod.fst).Nodup)
    {d : Text × Text} (hd : d ∈ defs) (table : Table) :
    (defs.foldl (fun t d => t.insert d.1 d.2) table).get? d.1 = some d.2 := by
  induction defs generalizing table with
  | nil => cases hd
  | cons e defs ih =>
    obtain ⟨he, hdefs⟩ := List.nodup_cons.1 h
    rw [List.foldl_cons]
    cases hd with
    | head => rw [get?_foldl_insert_of_not_mem he, get?_insert, if_pos rfl]
    | tail _ hd => exact ih hdefs hd _

end Table

namespace DefinitionFile

open Definition (Gap Row)

/-- The text of a file: its rows in order, and a gap at its end. -/
def layout (rows : List Row) (last : Text) : Text :=
  rows.flatMap (fun row => row.inFront ++ row.written) ++ last

/-- The text of rows is derived, and defines what they do, in their order. -/
lemma derives_layout {source front : Text} (rows : List Row) {last : Text} (hlast : Gap last [])
    (hsource : source = front ++ layout rows last) :
    ∃ defs, Derives source (layout rows last) defs ∧
      defs.map (fun d => (d.name, d.value)) = rows.map Row.binding := by
  induction rows generalizing front with
  | nil => exact ⟨[], .done hlast, rfl⟩
  | cons row rows ih =>
    have hlayout : layout (row :: rows) last =
        row.inFront ++ (row.written ++ layout rows last) := by
      simp [layout]
    rw [hlayout] at hsource ⊢
    have hafter : source = (front ++ row.inFront ++ row.written) ++ layout rows last := by
      simp [hsource]
    obtain ⟨defs, hdefs, hbindings⟩ := ih hafter
    have hfront : source = (front ++ row.inFront) ++ (row.written ++ layout rows last) := by
      rw [hsource, List.append_assoc]
    refine ⟨_, .clause (row.isGap.1 _) hfront (row.clause_written _) hdefs, ?_⟩
    rw [List.map_cons, List.map_cons, hbindings]
    rfl

/-- Where names are repeated, there is a first definition that repeats an earlier one. -/
lemma exists_first_repeat {defs : List Definition} (h : ¬(defs.map Definition.name).Nodup) :
    ∃ pre d post, defs = pre ++ d :: post ∧ (pre.map Definition.name).Nodup ∧
      d.name ∈ pre.map Definition.name := by
  induction defs using List.reverseRecOn with
  | nil => exact absurd List.nodup_nil h
  | append_singleton defs d ih =>
    by_cases hdefs : (defs.map Definition.name).Nodup
    · refine ⟨defs, d, [], rfl, hdefs, ?_⟩
      by_contra hd
      rw [List.map_append, List.map_singleton] at h
      exact h (hdefs.append (List.nodup_singleton _) (List.disjoint_singleton.2 hd))
    · obtain ⟨pre, e, post, rfl, hpre, he⟩ := ih hdefs
      exact ⟨pre, e, post ++ [d], by simp, hpre, he⟩

/-- The table of definitions with different names holds each of them. -/
lemma get?_tableOf {defs : List Definition} (h : (defs.map Definition.name).Nodup)
    {d : Definition} (hd : d ∈ defs) : (tableOf defs).get? d.name = some d.value := by
  have hnames : ((defs.map fun d => (d.name, d.value)).map Prod.fst).Nodup := by
    rw [List.map_map]
    exact h
  exact Table.get?_foldl_insert hnames (List.mem_map_of_mem hd) _

/-- A file is read exactly when it derives from the grammar with distinct names, and then into the
definitions it derives; the first definition that repeats a name is refused; and any layout of
distinctly named rows gives their names and values back. -/
theorem reads_grammar :
    (∀ (source : Text) (defs : List Definition), read source = .ok defs ↔
      Derives source source defs ∧ (defs.map Definition.name).Nodup) ∧
    (∀ (source : Text) (defs : List Definition), Derives source source defs →
      ¬(defs.map Definition.name).Nodup →
      ∃ pre d post, defs = pre ++ d :: post ∧ (pre.map Definition.name).Nodup ∧
        d.name ∈ pre.map Definition.name ∧ read source = .error (.duplicate d.name d.line)) ∧
    (∀ (rows : List Row) (last : Text), (rows.map Row.name).Nodup → Gap last [] →
      ∃ defs, read (layout rows last) = .ok defs ∧
        defs.map (fun d => (d.name, d.value)) = rows.map Row.binding ∧
        ∀ row ∈ rows, (tableOf defs).get? row.name = some row.value) := by
  have complete {source : Text} {defs : List Definition} (h : Derives source source defs)
      (hnodup : (defs.map Definition.name).Nodup) : read source = .ok defs :=
    readFrom_complete h hnodup fun _ _ => List.not_mem_nil
  refine ⟨fun source defs => ⟨fun h => ?_, fun h => complete h.1 h.2⟩,
    fun source defs h hrepeat => ?_, fun rows last hnodup hlast => ?_⟩
  · obtain ⟨hderives, hnodup, -⟩ := readFrom_sound List.suffix_rfl h
    exact ⟨hderives, hnodup⟩
  · obtain ⟨pre, d, post, rfl, hpre, hd⟩ := exists_first_repeat hrepeat
    exact ⟨pre, d, post, rfl, hpre, hd,
      readFrom_of_repeat h hpre (fun _ _ => List.not_mem_nil) (.inr hd)⟩
  · have hfront : layout rows last = [] ++ layout rows last := rfl
    obtain ⟨defs, hderives, hbindings⟩ := derives_layout rows hlast hfront
    have hnames : defs.map Definition.name = rows.map Row.name := by
      have h := congrArg (List.map Prod.fst) hbindings
      rw [List.map_map, List.map_map] at h
      exact h
    rw [← hnames] at hnodup
    refine ⟨defs, complete hderives hnodup, hbindings, fun row hrow => ?_⟩
    have hmem : row.binding ∈ defs.map fun d => (d.name, d.value) := by
      rw [hbindings]
      exact List.mem_map_of_mem hrow
    obtain ⟨d, hd, hbinding⟩ := List.mem_map.1 hmem
    obtain ⟨hname, hvalue⟩ := Prod.mk.inj hbinding
    rw [← hname, ← hvalue]
    exact get?_tableOf hnodup hd

/-- The name of the second line is refused, and a row with a comment in it and with a value that is
escaped is read back. -/
theorem reads_grammar_comments :
    (∃ defs, Derives "A=\"1\";\nA=\"\";".toList "A=\"1\";\nA=\"\";".toList defs ∧
      ¬(defs.map Definition.name).Nodup ∧
      ∃ pre d post, defs = pre ++ d :: post ∧ (pre.map Definition.name).Nodup ∧
        d.name ∈ pre.map Definition.name ∧
        read "A=\"1\";\nA=\"\";".toList = .error (.duplicate d.name d.line)) ∧
    ∃ row : Row, row.binding = ("A".toList, "\"\\\n".toList) ∧
      layout [row] "//".toList = "//\nA=\"\\\"\\\\\\n\";//".toList ∧
      ([row].map Row.name).Nodup ∧ Gap "//".toList [] ∧
      ∃ defs, read (layout [row] "//".toList) = .ok defs ∧
        defs.map (fun d => (d.name, d.value)) = [row].map Row.binding ∧
        ∀ r ∈ [row], (tableOf defs).get? r.name = some r.value := by
  have isName : Reference.IsName ['A'] := by decide
  have newline : '\n' ∈ [' ', '\t', '\n', '\r', '\x0c'] := by simp
  have none : Definition.IsGap [] := fun rest => .done rest
  have comment : Definition.IsGap ['/', '/', '\n'] := fun rest =>
    @Gap.comment [] ('\n' :: rest) rest List.not_mem_nil (by simp) (.space newline (.done rest))
  constructor
  · have second : Derives "A=\"1\";\nA=\"\";".toList "\nA=\"\";".toList [⟨['A'], [], 2⟩] :=
      .clause (.space newline (.done _)) (by rfl : _ = "A=\"1\";\n".toList ++ "A=\"\";".toList)
        (.mk isName (.done _) (.done _) (.done _) (.done _)) (.done (.done []))
    have first : Derives "A=\"1\";\nA=\"\";".toList "A=\"1\";\nA=\"\";".toList
        [⟨['A'], ['1'], 1⟩, ⟨['A'], [], 2⟩] :=
      .clause (.done _) (by rfl : _ = [] ++ "A=\"1\";\nA=\"\";".toList)
        (.mk isName (.done _) (.done _) (.plain (by decide) (by decide) (.done _)) (.done _)) second
    exact ⟨_, first, by decide, reads_grammar.2.1 _ _ first (by decide)⟩
  · have last : Gap ['/', '/'] [] := .comment List.not_mem_nil nofun (.done [])
    exact ⟨⟨['A'], "\"\\\n".toList, ['/', '/', '\n'], [], [], [], isName, comment, none, none,
        none⟩,
      rfl, rfl, List.nodup_singleton _, last,
      reads_grammar.2.2 _ _ (List.nodup_singleton _) last⟩

end DefinitionFile

end InlineExpr
