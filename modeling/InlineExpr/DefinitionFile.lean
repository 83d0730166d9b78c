import InlineExpr.Definition
import InlineExpr.Table
import InlineExpr.Text.Position

/-!
# Definition files

A definition file is a row of definitions with gaps between them. No name may be defined twice. A
file that is refused is refused at one place: where reading stopped, or at the definition that
repeats a name.
-/

namespace InlineExpr

/-- Why a definition file is refused. -/
inductive FileError where
  /-- Reading stopped at a position, before a character or at the end of the text. -/
  | unexpected (position : Position) (found : Option Char)
  /-- A name is defined again on a line. -/
  | duplicate (name : Text) (line : Nat)
deriving DecidableEq, Repr

namespace FileError

def position : FileError → Position
  | unexpected p _ => p
  | duplicate _ line => ⟨line, 1⟩

/-- What reading met where it stopped. -/
def foundText : Option Char → String
  | some c => "unexpected character: '" ++ c.toString ++ "'"
  | none => "unexpected end of input"

def message : FileError → String
  | unexpected p found =>
    "syntax error at " ++ toString p.line ++ ":" ++ toString p.column ++ ": " ++ foundText found
  | duplicate name line =>
    "duplicate constant '" ++ String.ofList name ++ "' at line " ++ toString line

/-- What an error says, with the path of the file in front. -/
def located (path : String) (e : FileError) : String :=
  path ++ ":" ++ toString e.position.line ++ ":" ++ toString e.position.column ++ ": " ++ e.message

end FileError

namespace DefinitionFile

/-- Reads the definitions in `t`, an end piece of `source` before which the names `seen` were
defined. -/
def readFrom (source : Text) (seen : List Text) (t : Text) : Except FileError (List Definition) :=
  match _gap : Definition.skipGap t with
  | [] => .ok []
  | c :: u =>
    match _taken : Definition.read (c :: u) with
    | .error rest => .error (.unexpected (Position.before source rest) rest.head?)
    | .ok ((name, value), rest) =>
      let line := (Position.before source (c :: u)).line
      if name ∈ seen then .error (.duplicate name line)
      else do
        let defs ← readFrom source (name :: seen) rest
        return ⟨name, value, line⟩ :: defs
termination_by t.length
decreasing_by
  have shorter := Definition.length_of_read _taken
  have gap := Definition.length_skipGap_le t
  rw [_gap] at gap
  omega

/-- Reads the definitions of a file in order. -/
def read (source : Text) : Except FileError (List Definition) :=
  readFrom source [] source

/-- The table of some definitions, which tells its names. -/
def tableOf (defs : List Definition) : Table :=
  Table.ofList true (defs.map fun d => (d.name, d.value))

end DefinitionFile

end InlineExpr
