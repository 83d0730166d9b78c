import InlineExpr.Text.DisplayWidth.Emoji
import InlineExpr.Text.DisplayWidth.Letter

/-!
# The start of a text

A character takes other columns than by itself where it forms a sequence with the text behind it:
an emoji sequence, a sign made of several letters, a line end. `Start` is what has to be known of
that text, and `Start.prepend` puts a character in front of it.
-/

namespace InlineExpr.Text

/-- What has been read, from its end, of the emoji that a joiner links to the emoji behind it. -/
inductive Link where
  | bare
  /-- The key that encloses a digit. -/
  | keycap
  /-- One regional indicator, which is no flag yet. -/
  | regional
  /-- An even number of regional indicators, the last two of which are the linked flag. -/
  | flags
  /-- An odd number of them: the pairs are counted from the front, so the last one stands alone. -/
  | unpaired
  /-- The end of the region behind a black flag: so many letters, and digits in front of them. A
  region is a country of two letters or three digits with up to four letters for a part of it. -/
  | region (digits letters : Nat)
deriving DecidableEq

/-- What a text starts with, as far as a character in front of it is concerned. -/
inductive Head where
  /-- Nothing that forms a sequence. -/
  | plain
  | lineFeed
  /-- A letter, with or without a joiner in front. -/
  | letter (l : Letter) (joined : Bool)
  /-- Vowel signs of Kirat Rai that merge two by two, an odd or an even number of them. -/
  | vowels (odd : Bool)
  | emoji
  | skinTone
  /-- Regional indicators, one or several. -/
  | regional (several : Bool)
  /-- A joiner and an emoji, with what stands in front of them. -/
  | link (l : Link)
deriving DecidableEq

/-- The variation selectors that change widths. -/
inductive Selector where
  /-- The selector of the emoji style, which takes two columns. -/
  | emoji
  /-- The selector of the text style, which takes one column. -/
  | text
  /-- The selector of fullwidth quotation marks. -/
  | fullwidth
deriving DecidableEq

/-- The start of a text: what it starts with, behind a variation selector if there is one. -/
structure Start where
  head : Head
  selector : Option Selector
deriving DecidableEq

namespace Link

/-- What is in front of the joiner when a character is put there, with the change of the columns;
`none` in its place if the character completes the linked emoji. -/
def extend? (l : Link) (c : Char) : Option (Int × Option Link) :=
  match l with
  | .bare =>
    if c.toNat = 0x20E3 then some (0, some .keycap)
    else if isRegionalIndicator c then some (1, some .regional)
    else if c.toNat = 0xE007F then some (0, some (.region 0 0))
    else if isPictograph c then some (0, none)
    else none
  | .keycap => none
  | .regional => if isRegionalIndicator c then some (-1, some .flags) else none
  | .flags => if isRegionalIndicator c then some (3, some .unpaired) else none
  | .unpaired => if isRegionalIndicator c then some (-1, some .flags) else none
  | .region digits letters =>
    if isTagLetter c && digits == 0 && decide (letters < 6) then
      some (0, some (.region 0 (letters + 1)))
    else if isTagDigit c && decide (if digits = 0 then letters < 5 else digits < 3) then
      some (0, some (.region (digits + 1) letters))
    else if c.toNat == 0x1F3F4 && decide (if digits = 0 then 3 ≤ letters else digits = 3) then
      some (0, none)
    else none

/-- Whether what has been read holds a whole flag, so that a joiner in front of it links the next
emoji. -/
def isComplete : Link → Bool
  | .flags => true
  | .unpaired => true
  | _ => false

/-- Whether the emoji selector may stand in front: what is linked is a character in emoji style, or
its key. -/
def acceptsSelector : Link → Bool
  | .bare => true
  | .keycap => true
  | _ => false

end Link

namespace Head

/-- What a text starts with when it starts with a character that forms no sequence with the rest. -/
def ofChar (c : Char) : Head :=
  match Letter.ofChar? c with
  | some l => .letter l false
  | none =>
    if c.toNat = 0x16D67 then .vowels true
    else if c.toNat = 0x16D68 then .vowels false
    else if isRegionalIndicator c then .regional false
    else if isSkinTone c then .skinTone
    else if isPictograph c then .emoji
    else .plain

/-- Whether a start is a joiner and an emoji that a character in emoji style may be linked to. -/
def acceptsSelector : Head → Bool
  | .link l => l.acceptsSelector
  | _ => false

/-- What is left of a start when its variation selector applies to nothing: a letter. -/
def withoutSelector : Head → Head
  | .letter l joined => .letter l joined
  | _ => .plain

/-- What a joiner makes of a start. -/
def join? : Head → Option Head
  | .letter l _ => if l.seesThrough then some (.letter l true) else none
  | .emoji => some (.link .bare)
  | .skinTone => some (.link .bare)
  | .regional several => if several then some (.link .bare) else none
  | .link l => if l.isComplete then some (.link .bare) else none
  | _ => none

/-- What a character makes of the start behind it, with the change of the columns, if the two form
a sequence. -/
def merge? (h : Head) (c : Char) : Option (Int × Head) :=
  if c.toNat = 0x200D then h.join?.map fun h => (0, h)
  else match h with
  | .plain => none
  | .lineFeed => none
  | .letter l joined =>
    if l.seesThrough && isShapelessMark c then some (0, .letter l joined)
    else (l.merge? joined c).map fun r => (r.1, (r.2.map fun l => .letter l joined).getD .plain)
  | .vowels odd =>
    if c.toNat = 0x16D63 then some (0, .plain)
    else if !odd then none
    else if c.toNat = 0x16D67 then some (0, .vowels false)
    else if c.toNat = 0x16D68 then some (1, .vowels true)
    else if c.toNat = 0x16D69 then some (0, .plain)
    else none
  | .emoji => none
  | .skinTone => if isSkinToneBase c then some (0, .emoji) else none
  | .regional _ => if isRegionalIndicator c then some (1, .regional true) else none
  | .link l =>
    if l == .bare && isSkinTone c then some (0, .skinTone)
    else (l.extend? c).map fun r => (r.1, (r.2.map Head.link).getD .emoji)

end Head

namespace Start

def empty : Start := ⟨.plain, none⟩

/-- A variation selector in front of a start. A letter stays in sight behind every selector, and the
joiner of two emoji behind the emoji selector. -/
def select (s : Start) (v : Selector) : Start :=
  ⟨if v == .emoji && s.head.acceptsSelector then s.head else s.head.withoutSelector, some v⟩

/-- The variation selector that a character is, if it changes widths. -/
def selector? (c : Char) : Option Selector :=
  if c.toNat = 0xFE0F then some .emoji
  else if c.toNat = 0xFE0E then some .text
  else if c.toNat = 0xFE01 then some .fullwidth
  else none

/-- The columns that a selector gives to the character in front of it, if it applies to it. -/
def selectedWidth? (s : Start) (c : Char) : Option Nat :=
  match s.selector with
  | none => none
  | some .emoji => if isStyled c then some (if s.head.acceptsSelector then 0 else 2) else none
  | some .text => if isNarrowedByStyle c then some 1 else none
  | some .fullwidth => if inRanges [(0x2018, 0x2019), (0x201C, 0x201D)] c then some 2 else none

/-- What a text starts with, as seen by a character that its selector does not apply to. -/
def seen (s : Start) : Head :=
  match s.selector with
  | none => s.head
  | some _ => s.head.withoutSelector

/-- The change of the columns, and the new start, when a character is put in front of a text. -/
def prepend (s : Start) (c : Char) : Int × Start :=
  match s.selectedWidth? c with
  | some w => (w, ⟨if s.selector == some .emoji then .emoji else .plain, none⟩)
  | none =>
    if c.toNat < 0xA1 then
      if c = '\n' then (1, ⟨.lineFeed, none⟩)
      else if c = '\r' ∧ s.seen = .lineFeed then (0, empty)
      else (1, empty)
    else match selector? c with
    | some v => (0, select ⟨s.seen, none⟩ v)
    | none =>
      match s.seen.merge? c with
      | some (n, h) => (n, ⟨h, none⟩)
      | none => (charWidth c, ⟨.ofChar c, none⟩)

end Start

end InlineExpr.Text
