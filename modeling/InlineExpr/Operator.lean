import InlineExpr.Text.Basic

/-!
# Operators

The operators of the expression language with their symbols, priorities and kinds. A token is an
operator exactly when it equals a symbol, and three of the symbols are delimiters: single
characters that end a token wherever they stand.
-/

namespace InlineExpr

/-- An operator of the expression language. -/
inductive Operator where
  | plus | minus | times | divide
  | isEmpty | isNotEmpty | startsWith | endsWith | length | substring
  | comma
  | equal | notEqual | greater | less | greaterEqual | lessEqual
  | conj | disj
  | question | colon
  | openParen | closeParen
deriving DecidableEq, Repr

namespace Operator

/-- What an operator is to the stacks. -/
inductive Kind where
  | arithmetic
  | predicate
  | choice
  | parenthesis
  | function
  | separator
deriving DecidableEq, Repr

def Kind.word : Kind → String
  | arithmetic => "arithmetic"
  | predicate => "predicate"
  | choice => "option"
  | parenthesis => "parenthesis"
  | function => "function"
  | separator => "separator"

/-- Every operator, in the order of the language's table. -/
def all : List Operator :=
  [plus, minus, times, divide, isEmpty, isNotEmpty, startsWith, endsWith, length, substring, comma,
    equal, notEqual, greater, less, greaterEqual, lessEqual, conj, disj, question, colon,
    openParen, closeParen]

/-- The text that stands for an operator in an expression. -/
def symbol : Operator → String
  | plus => "+"
  | minus => "-"
  | times => "*"
  | divide => "/"
  | isEmpty => "isEmpty"
  | isNotEmpty => "isNotEmpty"
  | startsWith => "startsWith"
  | endsWith => "endsWith"
  | length => "length"
  | substring => "substring"
  | comma => ","
  | equal => "=="
  | notEqual => "!="
  | greater => ">"
  | less => "<"
  | greaterEqual => ">="
  | lessEqual => "<="
  | conj => "&&"
  | disj => "||"
  | question => "?"
  | colon => ":"
  | openParen => "("
  | closeParen => ")"

/-- The text that an operator is written as. -/
def token (op : Operator) : Text :=
  op.symbol.toList

/-- The operator that a text is, if it is one. -/
def ofToken? (t : Text) : Option Operator :=
  all.find? (·.token == t)

/-- What each operator is. -/
def kind : Operator → Kind
  | plus | minus | times | divide => .arithmetic
  | isEmpty | isNotEmpty | startsWith | endsWith | length | substring => .function
  | comma => .separator
  | equal | notEqual | greater | less | greaterEqual | lessEqual | conj | disj => .predicate
  | question | colon => .choice
  | openParen | closeParen => .parenthesis

/-- How tightly an operator binds. Parentheses outrank everything, so that only a closing
parenthesis takes an opening one off the stack. -/
def priority : Operator → Nat
  | comma => 0
  | question | colon => 1
  | conj | disj => 2
  | equal | notEqual | greater | less | greaterEqual | lessEqual => 3
  | plus | minus => 4
  | times | divide => 5
  | isEmpty | isNotEmpty | startsWith | endsWith | length | substring => 6
  | openParen | closeParen => 7

end Operator

/-- The characters that are tokens of their own wherever they stand. -/
def isDelimiter (c : Char) : Bool :=
  c == '(' || c == ')' || c == ','

end InlineExpr
