import InlineExpr.Operator
import InlineExpr.Number.Division

/-!
# Evaluation errors

The causes for which an evaluation stops, and the one place that puts them into words.
-/

namespace InlineExpr

/-- What an operator may ask of an operand. -/
inductive Requirement where
  | boolean
  | number
deriving DecidableEq, Repr

/-- Why an arithmetic operator has no result. -/
inductive ArithmeticError where
  | notANumber (operand : Text)
  | division (cause : Decimal.DivisionError)
deriving DecidableEq, Repr

/-- Why an evaluation stops without a result. -/
inductive EvalError where
  /-- A reference to a constant that the table lacks, with the names to suggest instead. -/
  | unknownConstant (name : Text) (suggestions : List Text)
  /-- An operand that the operator cannot read. -/
  | typeMismatch (op : Operator) (expected : Requirement) (operand : Text)
  /-- A function with a number of parameters it does not take. -/
  | parameterCount (op : Operator) (got : Nat)
  /-- An arithmetic operator without a result. -/
  | arithmetic (op : Operator) (cause : ArithmeticError)
  /-- A slice that does not lie within its text. -/
  | outOfBounds (op : Operator) (first last : Int) (length : Nat)
  | missingOperand (op : Operator)
  /-- A closing parenthesis with no opening one to match. -/
  | unbalancedParenthesis
  | emptyExpression (expression : Text)
  /-- A constant that is met again while it is being resolved. -/
  | cyclicReference (chain : List Text)
  | depthExceeded
deriving DecidableEq, Repr

def Requirement.word : Requirement → String
  | boolean => "boolean"
  | number => "number"

def quoted (s : String) : String :=
  "'" ++ s ++ "'"

def ArithmeticError.message : ArithmeticError → String
  | notANumber operand => quoted (String.ofList operand) ++ " is not a number"
  | division cause => cause.message

namespace EvalError

/-- The question that offers the suggested names; nothing if there are none. -/
def suggestionText (names : List Text) : String :=
  match names with
  | [] => ""
  | _ => ", did you mean: " ++ String.ofList (Text.join ", ".toList names) ++ "?"

def message : EvalError → String
  | unknownConstant name suggestions =>
    "constant not found: " ++ quoted (String.ofList name) ++ suggestionText suggestions
  | typeMismatch op expected operand =>
    "operator " ++ quoted op.symbol ++ " requires a " ++ expected.word ++ " operand, got "
      ++ quoted (String.ofList operand)
  | parameterCount op got =>
    "function " ++ quoted op.symbol ++ " expects 2 or 3 parameters, got " ++ toString got
  | arithmetic op cause => "arithmetic error in " ++ quoted op.symbol ++ ": " ++ cause.message
  | outOfBounds op first last length =>
    "function " ++ quoted op.symbol ++ " range " ++ toString first ++ ".." ++ toString last
      ++ " is out of bounds for length " ++ toString length
  | missingOperand op => "operator " ++ quoted op.symbol ++ " is missing an operand"
  | unbalancedParenthesis => "unbalanced parenthesis: ')' has no matching '('"
  | emptyExpression expression =>
    "expression " ++ quoted (String.ofList expression) ++ " produced no value"
  | cyclicReference chain =>
    "cyclic constant reference detected: " ++ String.ofList (Text.join " -> ".toList chain)
  | depthExceeded => "maximum recursion depth exceeded"

end EvalError

end InlineExpr
