/-!
# Texts

A text is the list of its characters (Unicode scalar values). Lengths, slices and indices count
characters; offsets and columns in reports count the bytes of the UTF-8 form.
-/

namespace InlineExpr

/-- A text, character by character. -/
abbrev Text := List Char

namespace Text

/-- The number of bytes of a text in UTF-8. -/
def byteSize : Text → Nat
  | [] => 0
  | c :: t => c.utf8Size + byteSize t

/-- What follows `lead` in a text that starts with it. -/
def after? : Text → (lead : Text) → Option Text
  | t, [] => some t
  | [], _ :: _ => none
  | c :: t, p :: lead => if p = c then after? t lead else none

/-- What precedes `tail` in a text that ends with it. -/
def before? (t tail : Text) : Option Text :=
  (after? t.reverse tail.reverse).map List.reverse

/-- Texts in a row with a separator between them. -/
def join (sep : Text) : List Text → Text
  | [] => []
  | [t] => t
  | t :: u :: ts => t ++ sep ++ join sep (u :: ts)

/-- The lines of a text: what stands between one newline and the next. -/
def splitLines : Text → List Text
  | [] => [[]]
  | c :: t =>
    if c = '\n' then [] :: splitLines t
    else match splitLines t with
      | [] => [[c]]
      | line :: rest => (c :: line) :: rest

/-- Lower case for the letters `A` to `Z` alone. -/
def lowerAscii (t : Text) : Text :=
  t.map Char.toLower

end Text

/-- White space in the sense of the Unicode property `White_Space`. -/
def isBlank (c : Char) : Bool :=
  let n := c.toNat
  (0x09 ≤ n && n ≤ 0x0D) || n == 0x20 || n == 0x85 || n == 0xA0 || n == 0x1680 ||
    (0x2000 ≤ n && n ≤ 0x200A) || n == 0x2028 || n == 0x2029 || n == 0x202F || n == 0x205F ||
    n == 0x3000

def Text.trim (t : Text) : Text :=
  ((t.dropWhile isBlank).reverse.dropWhile isBlank).reverse

end InlineExpr
