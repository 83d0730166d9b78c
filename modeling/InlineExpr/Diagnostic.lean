import InlineExpr.DefinitionFile

/-!
# Diagnostics

What is shown of a refused definition file: a message, a label on one byte of the source, and a
piece of advice.
-/

namespace InlineExpr

/-- An error with a place in the source that it marks. -/
structure Diagnostic where
  message : String
  label : String
  help : String
  /-- The bytes in front of the marked place. -/
  offset : Nat
  length : Nat
deriving DecidableEq, Repr

namespace Diagnostic

/-- The name under which diagnostics of definition files are filed. -/
def code : String := "agel::constants"

/-- The bytes of a line, its terminator counted as one. A carriage return at the end of the line is
part of the terminator. -/
def lineSize (line : Text) : Nat :=
  Text.byteSize ((line.before? ['\r']).getD line) + 1

/-- The byte that a position is taken for, no further than the end of the source. -/
def offsetOf (source : Text) (p : Position) : Nat :=
  min source.byteSize
    (((source.splitLines.take (p.line - 1)).map lineSize).foldl (· + ·) 0 + (p.column - 1))

def ofFileError (source : Text) (e : FileError) : Diagnostic :=
  match e with
  | .unexpected _ found =>
    { message := "syntax error: " ++ FileError.foundText found
      label := "error here"
      help := "definitions look like NAME = \"value\";"
      offset := offsetOf source e.position
      length := 1 }
  | .duplicate name _ =>
    { message := "duplicate constant '" ++ String.ofList name ++ "'"
      label := "defined again here"
      help := "each constant name may only be defined once"
      offset := offsetOf source e.position
      length := 1 }

end Diagnostic

end InlineExpr
