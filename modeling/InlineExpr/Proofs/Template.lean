import InlineExpr.Proofs.Marks
import InlineExpr.Table

/-!
# Templates

A template is a row of references and of text without opening marks. On a table of templates it
stands for its expansion, in which every reference is replaced by the expansion of the constant it
refers to (`Expands`); an expansion is unique (`Expands.unique`), and a template has one only if all
the names that it reaches are there and none of them reaches itself (`Expands.present`,
`Expands.acyclic`).
-/

namespace InlineExpr

namespace Reference

/-- A reference is read in one way. -/
lemma wrap_append_inj {name other t u : Text} (hname : IsName name) (hother : IsName other)
    (h : wrap name ++ t = wrap other ++ u) : name = other ∧ t = u := by
  have hstart := atStart?_wrap hname t
  rw [h, atStart?_wrap hother, Option.some.injEq, Prod.mk.injEq] at hstart
  exact ⟨hstart.1.symm, hstart.2.symm⟩

/-- A text that begins with a reference is not empty. -/
lemma wrap_append_ne_nil (name t : Text) : wrap name ++ t ≠ [] := by
  rw [wrap_append_eq_cons]
  exact List.cons_ne_nil _ _

/-- A text that begins with anything but `$` does not begin with a reference. -/
lemma cons_ne_wrap_append {c : Char} (h : c ≠ '$') (t name u : Text) :
    c :: t ≠ wrap name ++ u := by
  rw [wrap_append_eq_cons]
  exact fun heq => h (List.cons.inj heq).1

end Reference

open Reference (IsName wrap wrap_append_inj cons_ne_wrap_append)

namespace Text

/-- The text is a row of whole references and of characters that open nothing. -/
inductive Template : Text → Prop
  | nil : Template []
  | char {c t} : c ≠ '#' → c ≠ '$' → Template t → Template (c :: t)
  | reference {name t} : IsName name → Template t → Template (wrap name ++ t)

/-- The template has a reference to `name`. -/
inductive Refers (name : Text) : Text → Prop
  | here (t) : IsName name → Refers name (wrap name ++ t)
  | char {c t} : c ≠ '$' → Refers name t → Refers name (c :: t)
  | reference {other t} : IsName other → Refers name t → Refers name (wrap other ++ t)

/-- A text with no marks is a template with no references. -/
lemma Template.of_plain {t : Text} (h : t.IsPlain) : t.Template := by
  obtain ⟨hsharp, hdollar⟩ := h
  induction t with
  | nil => exact .nil
  | cons c t ih =>
    obtain ⟨hc, ht⟩ := not_or.1 (mt List.mem_cons.2 hsharp)
    obtain ⟨hc', ht'⟩ := not_or.1 (mt List.mem_cons.2 hdollar)
    exact .char (Ne.symm hc) (Ne.symm hc') (ih ht ht')

/-- A single reference is a template. -/
lemma Template.wrap {name : Text} (h : IsName name) : (wrap name).Template := by
  rw [← List.append_nil (Reference.wrap name)]
  exact .reference h .nil

/-- One template after another is a template. -/
lemma Template.append {s t : Text} (hs : s.Template) (ht : t.Template) : (s ++ t).Template := by
  induction hs with
  | nil => exact ht
  | char hsharp hdollar _ ih => exact .char hsharp hdollar ih
  | reference hname _ ih =>
    rw [List.append_assoc]
    exact .reference hname ih

/-- A template opens no span. -/
lemma Template.sharp_not_mem {t : Text} (h : t.Template) : '#' ∉ t := by
  induction h with
  | nil => exact List.not_mem_nil
  | char hsharp _ _ ih => exact List.not_mem_cons_of_ne_of_not_mem hsharp.symm ih
  | reference hname _ ih =>
    rw [List.mem_append]
    exact fun hm => hm.elim (Reference.sharp_not_mem_wrap hname) ih

/-- The first reference of a template is a whole piece of it. -/
lemma Template.of_reference {t : Text} {cut : Cut} (h : t.Template)
    (hcut : Reference.find? t = some cut) :
    cut.before.IsPlain ∧ IsName cut.inner ∧ cut.after.Template := by
  induction h generalizing cut with
  | nil => cases hcut
  | @char c t hsharp hdollar _ ih =>
    rw [Reference.find?_cons_of_ne hdollar] at hcut
    obtain ⟨rest, hrest, rfl⟩ := Option.map_eq_some_iff.1 hcut
    obtain ⟨hplain, hname, hafter⟩ := ih hrest
    exact ⟨⟨List.not_mem_cons_of_ne_of_not_mem hsharp.symm hplain.1,
      List.not_mem_cons_of_ne_of_not_mem hdollar.symm hplain.2⟩, hname, hafter⟩
  | @reference name t hname ht _ =>
    rw [Reference.find?_wrap_append hname] at hcut
    cases hcut
    exact ⟨⟨List.not_mem_nil, List.not_mem_nil⟩, hname, ht⟩

/-- A template in which no reference is found is plain. -/
lemma Template.plain {t : Text} (h : t.Template) (hnone : Reference.find? t = none) :
    t.IsPlain := by
  refine ⟨h.sharp_not_mem, ?_⟩
  induction h with
  | nil => exact List.not_mem_nil
  | @char c t _ hdollar _ ih =>
    rw [Reference.find?_cons_of_ne hdollar, Option.map_eq_none_iff] at hnone
    exact List.not_mem_cons_of_ne_of_not_mem hdollar.symm (ih hnone)
  | reference hname _ _ =>
    rw [Reference.find?_wrap_append hname] at hnone
    cases hnone

/-- An empty text refers to nothing. -/
lemma not_refers_nil (name : Text) : ¬Refers name [] := by
  intro h
  generalize hu : [] = u at h
  cases h with
  | here u _ => exact absurd hu.symm (Reference.wrap_append_ne_nil name u)
  | char _ _ => cases hu
  | @reference other u _ _ => exact absurd hu.symm (Reference.wrap_append_ne_nil other u)

/-- A character other than `$` in front adds no reference. -/
lemma refers_cons_iff {name : Text} {c : Char} (hc : c ≠ '$') {t : Text} :
    Refers name (c :: t) ↔ Refers name t := by
  refine ⟨fun h => ?_, .char hc⟩
  generalize hu : c :: t = u at h
  cases h with
  | here u _ => exact absurd hu (cons_ne_wrap_append hc t name u)
  | char _ h =>
    cases hu
    exact h
  | @reference other u _ _ => exact absurd hu (cons_ne_wrap_append hc t other u)

/-- A reference in front adds exactly its own name. -/
lemma refers_wrap_append_iff {name other : Text} (hother : IsName other) {t : Text} :
    Refers name (wrap other ++ t) ↔ name = other ∨ Refers name t := by
  constructor
  · intro h
    generalize hu : wrap other ++ t = u at h
    cases h with
    | here u hname => exact .inl (wrap_append_inj hother hname hu).1.symm
    | @char c u hc _ => exact absurd hu.symm (cons_ne_wrap_append hc u other t)
    | reference hname h =>
      obtain ⟨-, rfl⟩ := wrap_append_inj hother hname hu
      exact .inr h
  · rintro (rfl | h)
    · exact .here t hother
    · exact .reference hother h

/-- A single reference refers to its own name only. -/
lemma refers_wrap_iff {name other : Text} (hother : IsName other) :
    Refers name (wrap other) ↔ name = other := by
  rw [← List.append_nil (wrap other), refers_wrap_append_iff hother,
    or_iff_left (not_refers_nil name)]

/-- Two texts in a row refer to what either of them refers to. -/
lemma refers_append_iff {name s : Text} (hs : s.Template) {t : Text} :
    Refers name (s ++ t) ↔ Refers name s ∨ Refers name t := by
  induction hs with
  | nil => rw [List.nil_append, or_iff_right (not_refers_nil name)]
  | char _ hdollar _ ih =>
    rw [List.cons_append, refers_cons_iff hdollar, ih, refers_cons_iff hdollar]
  | reference hname _ ih =>
    rw [List.append_assoc, refers_wrap_append_iff hname, ih, refers_wrap_append_iff hname, or_assoc]

/-- A text with no marks refers to nothing. -/
lemma not_refers_of_plain {t : Text} (h : t.IsPlain) (name : Text) : ¬Refers name t := by
  obtain ⟨-, hdollar⟩ := h
  induction t with
  | nil => exact not_refers_nil name
  | cons c t ih =>
    obtain ⟨hc, ht⟩ := not_or.1 (mt List.mem_cons.2 hdollar)
    rw [refers_cons_iff (Ne.symm hc)]
    exact ih ht

end Text

namespace Table

open Text (Refers Template)

variable (table : Table)

/-- The names that a template refers to, itself or through the constants it refers to. -/
inductive Reachable (name : Text) : Text → Prop
  | direct {t} : Refers name t → Reachable name t
  | through {other value t} : Refers other t → table.get? other = some value →
    Reachable name value → Reachable name t

/-- A chain of references: a template refers to its first name, and the constant of each name to the
next one. -/
inductive Chain : Text → List Text → Prop
  | last {name t} : Refers name t → Chain t [name]
  | more {name value names t} : Refers name t → table.get? name = some value →
    Chain value names → Chain t (name :: names)

/-- What a template stands for. -/
inductive Expands : Text → Text → Prop
  | nil : Expands [] []
  | char {c t out} : c ≠ '$' → Expands t out → Expands (c :: t) (c :: out)
  | reference {name value v t out} : IsName name → table.get? name = some value →
    Expands value v → Expands t out → Expands (wrap name ++ t) (v ++ out)

variable {table}

/-- A text that refers to more reaches more. -/
lemma Reachable.mono {s t : Text} (h : ∀ name, Refers name s → Refers name t) {name : Text}
    (hs : table.Reachable name s) : table.Reachable name t := by
  cases hs with
  | direct hrefers => exact .direct (h _ hrefers)
  | through hrefers hvalue hreach => exact .through (h _ hrefers) hvalue hreach

/-- A text that refers to more begins more chains. -/
lemma Chain.mono {s t : Text} (h : ∀ name, Refers name s → Refers name t) {names : List Text}
    (hs : table.Chain s names) : table.Chain t names := by
  cases hs with
  | last hrefers => exact .last (h _ hrefers)
  | more hrefers hvalue hchain => exact .more (h _ hrefers) hvalue hchain

/-- Two texts in a row reach what either of them reaches. -/
lemma reachable_append_iff {name s t : Text} (hs : s.Template) :
    table.Reachable name (s ++ t) ↔ table.Reachable name s ∨ table.Reachable name t := by
  constructor
  · rintro (hrefers | ⟨hrefers, hvalue, hreach⟩)
    · exact ((Text.refers_append_iff hs).1 hrefers).imp .direct .direct
    · exact ((Text.refers_append_iff hs).1 hrefers).imp (.through · hvalue hreach)
        (.through · hvalue hreach)
  · rintro (h | h)
    · exact h.mono fun _ hrefers => (Text.refers_append_iff hs).2 (.inl hrefers)
    · exact h.mono fun _ hrefers => (Text.refers_append_iff hs).2 (.inr hrefers)

/-- Nothing is reached from a text with no marks. -/
lemma not_reachable_of_plain {t : Text} (h : t.IsPlain) (name : Text) :
    ¬table.Reachable name t := by
  rintro (hrefers | ⟨hrefers, _, _⟩)
  · exact Text.not_refers_of_plain h _ hrefers
  · exact Text.not_refers_of_plain h _ hrefers

/-- No chain begins at a text with no marks. -/
lemma not_chain_of_plain {t : Text} (h : t.IsPlain) (names : List Text) :
    ¬table.Chain t names := by
  rintro (hrefers | ⟨hrefers, _, _⟩)
  · exact Text.not_refers_of_plain h _ hrefers
  · exact Text.not_refers_of_plain h _ hrefers

/-- Text with no marks in front changes nothing about what is reached. -/
lemma reachable_plain_append_iff {name s t : Text} (hs : s.IsPlain) :
    table.Reachable name (s ++ t) ↔ table.Reachable name t := by
  rw [reachable_append_iff (.of_plain hs), or_iff_right (not_reachable_of_plain hs name)]

/-- A reference reaches its own name and what the value of its constant reaches. -/
lemma reachable_wrap_iff {name other value : Text} (hother : IsName other)
    (hvalue : table.get? other = some value) :
    table.Reachable name (wrap other) ↔ name = other ∨ table.Reachable name value := by
  constructor
  · rintro (h | ⟨h, hv, hreach⟩)
    · exact .inl ((Text.refers_wrap_iff hother).1 h)
    · obtain rfl := (Text.refers_wrap_iff hother).1 h
      cases hvalue.symm.trans hv
      exact .inr hreach
  · rintro (rfl | h)
    · exact .direct ((Text.refers_wrap_iff hother).2 rfl)
    · exact .through ((Text.refers_wrap_iff hother).2 rfl) hvalue h

namespace Expands

/-- A text with no `$` expands to itself. -/
lemma of_plain {t : Text} (h : '$' ∉ t) : table.Expands t t := by
  induction t with
  | nil => exact .nil
  | cons c t ih =>
    obtain ⟨hc, ht⟩ := not_or.1 (mt List.mem_cons.2 h)
    exact .char (Ne.symm hc) (ih ht)

/-- Two texts in a row expand to their expansions in a row. -/
lemma append {s t u v : Text} (hs : table.Expands s u) (ht : table.Expands t v) :
    table.Expands (s ++ t) (u ++ v) := by
  induction hs with
  | nil => exact ht
  | char hc _ ih => exact .char hc ih
  | reference hname hvalue hv _ _ ih =>
    rw [List.append_assoc, List.append_assoc]
    exact .reference hname hvalue hv ih

/-- A leading character other than `$` stands before the expansion of the rest. -/
lemma cons_inv {c : Char} {t out : Text} (hc : c ≠ '$') (h : table.Expands (c :: t) out) :
    ∃ v, out = c :: v ∧ table.Expands t v := by
  generalize hu : c :: t = u at h
  cases h with
  | nil => cases hu
  | char _ h =>
    cases hu
    exact ⟨_, rfl, h⟩
  | @reference name value v u out _ _ _ _ => exact absurd hu (cons_ne_wrap_append hc t name u)

/-- A leading reference expands to the expansion of its constant, before that of the rest. -/
lemma reference_inv {name t out : Text} (hname : IsName name)
    (h : table.Expands (wrap name ++ t) out) :
    ∃ value v w, table.get? name = some value ∧ table.Expands value v ∧ table.Expands t w ∧
      out = v ++ w := by
  generalize hu : wrap name ++ t = u at h
  cases h with
  | nil => exact absurd hu (Reference.wrap_append_ne_nil name t)
  | @char c u _ hc _ => exact absurd hu.symm (cons_ne_wrap_append hc u name t)
  | reference hother hvalue hv hw =>
    obtain ⟨rfl, rfl⟩ := wrap_append_inj hname hother hu
    exact ⟨_, _, _, hvalue, hv, hw, rfl⟩

/-- An empty text expands to nothing else. -/
lemma nil_inv {out : Text} (h : table.Expands [] out) : out = [] := by
  generalize hu : [] = u at h
  cases h with
  | nil => rfl
  | char _ _ => cases hu
  | @reference name _ _ u _ _ _ _ _ => exact absurd hu.symm (Reference.wrap_append_ne_nil name u)

/-- Text without references in front of a template stands for itself. -/
lemma plain_append_inv {s t out : Text} (hs : '$' ∉ s) (h : table.Expands (s ++ t) out) :
    ∃ v, out = s ++ v ∧ table.Expands t v := by
  induction s generalizing out with
  | nil => exact ⟨out, rfl, h⟩
  | cons c s ih =>
    obtain ⟨hc, hs⟩ := not_or.1 (mt List.mem_cons.2 hs)
    obtain ⟨u, rfl, hu⟩ := cons_inv (Ne.symm hc) h
    obtain ⟨v, rfl, hv⟩ := ih hs hu
    exact ⟨v, rfl, hv⟩

/-- A template stands for one text. -/
lemma unique {t u v : Text} (hu : table.Expands t u) (hv : table.Expands t v) : u = v := by
  induction hu generalizing v with
  | nil => exact (nil_inv hv).symm
  | char hc _ ih =>
    obtain ⟨w, rfl, hw⟩ := cons_inv hc hv
    rw [ih hw]
  | reference hname hvalue _ _ ihv ih =>
    obtain ⟨value, v', w, hvalue', hv', hw, rfl⟩ := reference_inv hname hv
    cases hvalue.symm.trans hvalue'
    rw [ihv hv', ih hw]

/-- A text with no `$` expands to nothing but itself. -/
lemma eq_of_plain {t out : Text} (ht : '$' ∉ t) (h : table.Expands t out) : out = t :=
  h.unique (of_plain ht)

/-- Nothing is left to refer to in an expansion. -/
lemma dollar_not_mem {t out : Text} (h : table.Expands t out) : '$' ∉ out := by
  induction h with
  | nil => exact List.not_mem_nil
  | char hc _ ih => exact List.not_mem_cons_of_ne_of_not_mem hc.symm ih
  | reference _ _ _ _ ihv ih =>
    rw [List.mem_append]
    exact fun hm => hm.elim ihv ih

/-- An expansion opens no span where neither the text nor the table does. -/
lemma sharp_not_mem (htable : ∀ name v, table.get? name = some v → '#' ∉ v) {t out : Text}
    (h : table.Expands t out) (ht : '#' ∉ t) : '#' ∉ out := by
  induction h with
  | nil => exact List.not_mem_nil
  | char _ _ ih =>
    obtain ⟨hc, ht⟩ := not_or.1 (mt List.mem_cons.2 ht)
    exact List.not_mem_cons_of_ne_of_not_mem hc (ih ht)
  | reference _ hvalue _ _ ihv ih =>
    rw [List.mem_append]
    exact fun hm => hm.elim (ihv (htable _ _ hvalue)) (ih fun hm => ht (List.mem_append_right _ hm))

/-- A template over a table of templates expands to plain text. -/
lemma plain (htable : ∀ name v, table.get? name = some v → v.Template) {t out : Text}
    (h : table.Expands t out) (ht : t.Template) : out.IsPlain :=
  ⟨h.sharp_not_mem (fun name v hv => (htable name v hv).sharp_not_mem) ht.sharp_not_mem,
    h.dollar_not_mem⟩

/-- Every constant that an expanded text refers to is defined and expands as well. -/
lemma of_refers {name t out : Text} (h : table.Expands t out) (hrefers : Refers name t) :
    ∃ value v, table.get? name = some value ∧ table.Expands value v := by
  induction h with
  | nil => exact absurd hrefers (Text.not_refers_nil name)
  | char hc _ ih => exact ih ((Text.refers_cons_iff hc).1 hrefers)
  | reference hname hvalue hv _ _ ih =>
    rcases (Text.refers_wrap_append_iff hname).1 hrefers with rfl | hrefers
    · exact ⟨_, _, hvalue, hv⟩
    · exact ih hrefers

/-- All names that an expanded template reaches are there, and their constants have expansions. -/
lemma present {name t out : Text} (h : table.Expands t out) (hreach : table.Reachable name t) :
    ∃ value v, table.get? name = some value ∧ table.Expands value v := by
  induction hreach generalizing out with
  | direct hrefers => exact h.of_refers hrefers
  | through hrefers hvalue _ ih =>
    obtain ⟨value, v, hvalue', hv⟩ := h.of_refers hrefers
    cases hvalue.symm.trans hvalue'
    exact ih hv

/-- No name that an expanded template reaches is reached by its own constant. -/
lemma acyclic {name value t out : Text} (h : table.Expands t out)
    (hreach : table.Reachable name t) (hvalue : table.get? name = some value) :
    ¬table.Reachable name value := by
  induction h with
  | nil => exact absurd hreach (not_reachable_of_plain ⟨List.not_mem_nil, List.not_mem_nil⟩ name)
  | char hc _ ih => exact ih (hreach.mono fun _ => (Text.refers_cons_iff hc).1)
  | reference hname hother _ _ ihv ih =>
    rcases (reachable_append_iff (.wrap hname)).1 hreach with hreach | hreach
    · rcases (reachable_wrap_iff hname hother).1 hreach with rfl | hreach
      · -- the value was expanded before the reference to it, so it cannot reach the name
        cases hvalue.symm.trans hother
        exact fun hself => ihv hself hself
      · exact ihv hreach
    · exact ih hreach

end Expands

end Table

end InlineExpr
