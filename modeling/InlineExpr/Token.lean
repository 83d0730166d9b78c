import InlineExpr.Operator

/-!
# Tokens of an expression

The body of an expression is cut at tabs, carriage returns, newlines and spaces, and each delimiter
character is a token of its own. Every body has tokens: nothing is refused.
-/

namespace InlineExpr

/-- The characters that stand between tokens and belong to none. -/
def isSeparator (c : Char) : Bool :=
  c == '\t' || c == '\r' || c == '\n' || c == ' '

/-- The characters that make up words: neither separators nor delimiters. -/
def isWordChar (c : Char) : Bool :=
  !isSeparator c && !isDelimiter c

namespace Token

/-- Puts a word in front of some tokens, unless it is empty. -/
def consWord (word : Text) (tokens : List Text) : List Text :=
  if word.isEmpty then tokens else word :: tokens

/-- The word at the start of `body`, possibly empty, and the tokens behind it. -/
def scan : Text → Text × List Text
  | [] => ([], [])
  | c :: body =>
    let (word, tokens) := scan body
    if isSeparator c then ([], consWord word tokens)
    else if isDelimiter c then ([], [c] :: consWord word tokens)
    else (c :: word, tokens)

end Token

/-- Cuts a body into tokens. -/
def tokenize (body : Text) : List Text :=
  Token.consWord (Token.scan body).1 (Token.scan body).2

end InlineExpr
