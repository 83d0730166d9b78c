import InlineExpr.Text.DisplayWidth.Ranges

/-!
# Letters that merge

The letters that merge with the characters in front of them into one sign, and the characters that
may stand inside such a sign.
-/

namespace InlineExpr.Text

/-- The marks without a shape of their own, which leave the letters around them joined. -/
def isShapelessMark (c : Char) : Bool :=
  inRanges [(0x34F, 0x34F), (0x17B4, 0x17B5), (0x180B, 0x180D), (0x180F, 0x180F), (0xFE00, 0xFE0F),
    (0xE0100, 0xE01EF)] c

/-- The characters without columns that keep Arabic letters around them apart. -/
def interruptingRanges : List (Nat × Nat) :=
  [(0x605, 0x605), (0x890, 0x891), (0x8E2, 0x8E2), (0x9BE, 0x9BE), (0x9D7, 0x9D7), (0xB3E, 0xB3E),
    (0xB57, 0xB57), (0xBBE, 0xBBE), (0xBD7, 0xBD7), (0xCC0, 0xCC0), (0xCC2, 0xCC2), (0xCC7, 0xCC8),
    (0xCCA, 0xCCB), (0xCD5, 0xCD6), (0xD3E, 0xD3E), (0xD4E, 0xD4E), (0xD57, 0xD57), (0xDCF, 0xDCF),
    (0xDDF, 0xDDF), (0x1160, 0x11FF), (0x1715, 0x1715), (0x1734, 0x1734), (0x180E, 0x180E),
    (0x1B35, 0x1B35), (0x1B3B, 0x1B3B), (0x1B3D, 0x1B3D), (0x1B43, 0x1B44), (0x1BAA, 0x1BAA),
    (0x1BF2, 0x1BF3), (0x200C, 0x200D), (0x2065, 0x2069), (0x302E, 0x302F), (0x3164, 0x3164),
    (0xA8FA, 0xA8FA), (0xA953, 0xA953), (0xA9C0, 0xA9C0), (0xD7B0, 0xD7C6), (0xD7CB, 0xD7FB),
    (0xFFA0, 0xFFA0), (0xFFF0, 0xFFF8), (0x111C0, 0x111C0), (0x111C2, 0x111C3), (0x11235, 0x11235),
    (0x1133E, 0x1133E), (0x1134D, 0x1134D), (0x11357, 0x11357), (0x113B8, 0x113B8),
    (0x113C2, 0x113C2), (0x113C5, 0x113C5), (0x113C7, 0x113C9), (0x113CF, 0x113CF),
    (0x113D1, 0x113D1), (0x114B0, 0x114B0), (0x114BD, 0x114BD), (0x115AF, 0x115AF),
    (0x116B6, 0x116B6), (0x11930, 0x11930), (0x1193D, 0x1193D), (0x1193F, 0x1193F),
    (0x11941, 0x11941), (0x11A3A, 0x11A3A), (0x11A84, 0x11A89), (0x11D46, 0x11D46),
    (0x11F02, 0x11F02), (0x11F41, 0x11F41), (0x16FF0, 0x16FF1), (0x1D165, 0x1D166),
    (0x1D16D, 0x1D172), (0xE0000, 0xE0000), (0xE0002, 0xE001F), (0xE0080, 0xE00FF),
    (0xE01F0, 0xE0FFF)]

/-- Whether Arabic letters join across a character: a mark or a format character. -/
def isTransparent (c : Char) : Bool :=
  charWidth c == 0 && !inRanges interruptingRanges c

/-- The Arabic letters of the shape of alef. -/
def isAlef (c : Char) : Bool :=
  inRanges [(0x622, 0x623), (0x625, 0x625), (0x627, 0x627), (0x671, 0x673), (0x675, 0x675),
    (0x773, 0x774), (0x870, 0x882)] c

/-- The Arabic letters of the shape of lam. -/
def isLam (c : Char) : Bool :=
  inRanges [(0x644, 0x644), (0x6B5, 0x6B8), (0x76A, 0x76A), (0x8A6, 0x8A6), (0x8C7, 0x8C7)] c

def isTifinaghConsonant (c : Char) : Bool :=
  inRanges [(0x2D31, 0x2D65), (0x2D6F, 0x2D6F)] c

/-- The Lisu tone letters that stand in front in a pair. -/
def isLeadingTone (c : Char) : Bool :=
  inRanges [(0xA4F8, 0xA4FB)] c

/-- The Lisu tone letters that stand behind in a pair. -/
def isTrailingTone (c : Char) : Bool :=
  inRanges [(0xA4FC, 0xA4FD)] c

/-- The Khmer letters whose form under another letter takes no columns. -/
def isSubscriptLetter (c : Char) : Bool :=
  inRanges [(0x1780, 0x1782), (0x1784, 0x1787), (0x1789, 0x178C), (0x178E, 0x1793),
    (0x1795, 0x1798), (0x179B, 0x179D), (0x17A0, 0x17A0), (0x17A2, 0x17A2), (0x17A7, 0x17A7),
    (0x17AB, 0x17AC), (0x17AF, 0x17AF)] c

/-- The letters that may merge with what stands in front of them. -/
inductive Letter where
  /-- An Arabic alef, which merges with a lam. -/
  | alef
  /-- The Hebrew lamed, which merges with an alef and a joiner. -/
  | lamed
  /-- The Buginese ya, which merges with a vowel sign and a joiner. -/
  | ya
  /-- The Buginese ya with the vowel sign in front, which merges with the letter a. -/
  | vowelYa
  /-- A Tifinagh consonant, which merges with another one and a joiner. -/
  | consonant
  /-- A Tifinagh consonant with the consonant joiner in front. -/
  | joinedConsonant
  /-- A Lisu tone letter, which merges with another one. -/
  | tone
  /-- The Old Turkic i, which merges with an ec and a joiner. -/
  | orkhonI
  /-- A Khmer letter that may be written under another one. -/
  | subscript
deriving DecidableEq

namespace Letter

/-- The letter that a character is, if it may merge. -/
def ofChar? (c : Char) : Option Letter :=
  if isAlef c then some .alef
  else if c.toNat = 0x5DC then some .lamed
  else if c.toNat = 0x1A10 then some .ya
  else if isTifinaghConsonant c then some .consonant
  else if isTrailingTone c then some .tone
  else if c.toNat = 0x10C03 then some .orkhonI
  else if isSubscriptLetter c then some .subscript
  else none

/-- Whether marks without a shape, and joiners, may stand in front of a letter without keeping it
from merging. -/
def seesThrough : Letter → Bool
  | .alef => false
  | _ => true

/-- What a letter becomes when a character in front of it merges with it, with the change of the
columns: a letter that merges may give up the column it took. `joined` tells whether a joiner
stands between the two. The letter that comes out is `none` if the sign is complete. -/
def merge? (l : Letter) (joined : Bool) (c : Char) : Option (Int × Option Letter) :=
  match l with
  | .alef =>
    if isLam c then some (0, none) else if isTransparent c then some (0, some .alef) else none
  | .lamed => if joined && c.toNat == 0x5D0 then some (0, none) else none
  | .ya => if joined && c.toNat == 0x1A17 then some (0, some .vowelYa) else none
  | .vowelYa => if c.toNat = 0x1A15 then some (0, none) else none
  | .consonant =>
    if c.toNat = 0x2D7F then some (1, some .joinedConsonant)
    else if joined && isTifinaghConsonant c then some (0, none)
    else none
  | .joinedConsonant => if isTifinaghConsonant c then some (-1, none) else none
  | .tone => if isLeadingTone c then some (0, none) else none
  | .orkhonI => if joined && c.toNat == 0x10C32 then some (0, none) else none
  | .subscript => if c.toNat = 0x17D2 then some (-1, none) else none

end Letter

end InlineExpr.Text
