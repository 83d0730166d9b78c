import InlineExpr.Text.Basic

/-!
# JSON reports

A report is a record of texts and numbers, or a list of such records, written with an indent of two
blanks. Characters outside ASCII are written as they are.
-/

namespace InlineExpr.Report

/-- A value of a record. -/
inductive Scalar where
  | text (t : Text)
  | number (n : Nat)
deriving DecidableEq, Repr

/-- Keys with their values, in order. -/
abbrev Record := List (String × Scalar)

/-- A number below 65536 as four hexadecimal digits. -/
def hexDigits (n : Nat) : Text :=
  let ds := Nat.toDigits 16 n
  List.replicate (4 - ds.length) '0' ++ ds

/-- A character as it stands in a quoted text. Quotes, backslashes and control characters are
escaped. -/
def escapeChar (c : Char) : Text :=
  match c with
  | '"' => ['\\', '"']
  | '\\' => ['\\', '\\']
  | '\x08' => ['\\', 'b']
  | '\x0c' => ['\\', 'f']
  | '\n' => ['\\', 'n']
  | '\r' => ['\\', 'r']
  | '\t' => ['\\', 't']
  | c => if c.toNat < 0x20 then ['\\', 'u'] ++ hexDigits c.toNat else [c]

/-- A text as a string of the format. -/
def quote (t : Text) : Text :=
  ['"'] ++ t.flatMap escapeChar ++ ['"']

def Scalar.render : Scalar → Text
  | text t => quote t
  | number n => Nat.toDigits 10 n

def indented (depth : Nat) (t : Text) : Text :=
  List.replicate depth ' ' ++ t

/-- Items between two brackets, one to a line, indented by two more than the brackets. -/
def bracketed (left right : Char) (depth : Nat) (items : List Text) : Text :=
  match items with
  | [] => [left, right]
  | _ => [left, '\n'] ++ Text.join [',', '\n'] (items.map (indented (depth + 2))) ++ ['\n']
      ++ indented depth [right]

/-- A record whose brackets stand at a depth. -/
def renderRecord (depth : Nat) (r : Record) : Text :=
  bracketed '{' '}' depth (r.map fun (name, v) => quote name.toList ++ [':', ' '] ++ v.render)

/-- Records as a list. -/
def renderRecords (rs : List Record) : Text :=
  bracketed '[' ']' 0 (rs.map (renderRecord 2))

end InlineExpr.Report
