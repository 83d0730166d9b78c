import InlineExpr.Text.Basic

/-!
# Arguments of a command

Options are written `--name`, `--name value`, `--name=value`, or with one letter, `-n value` and
`-nvalue`; letters of options without a value may share a dash. Everything behind `--` is
positional, and so is a lone dash. An option is given once unless it may be repeated.
-/

namespace InlineExpr.CommandLine

/-- Why arguments lead to no command. -/
inductive Stop where
  | help
  | usage
deriving DecidableEq, Repr

/-- What becomes of an option. -/
inductive OptionKind where
  | help
  /-- Stands for itself. -/
  | flag
  /-- Takes a value that passes a test, once or repeatedly. -/
  | valued (accepts : Text → Bool) (repeatable : Bool)

/-- An option: its names and what it takes. -/
structure OptionSpec where
  name : Text
  short : Option Char
  kind : OptionKind

/-- The arguments of a command that were read so far. -/
structure Given where
  flags : List Text
  values : List (Text × Text)
  positionals : List Text
deriving DecidableEq, Repr

namespace Given

def nothing : Given := ⟨[], [], []⟩

def has (g : Given) (name : String) : Bool :=
  g.flags.contains name.toList

def valuesOf (g : Given) (name : String) : List Text :=
  (g.values.filter (·.1 == name.toList)).map (·.2)

/-- Notes a flag, which may be given once. -/
def addFlag (g : Given) (spec : OptionSpec) : Except Stop Given :=
  match spec.kind with
  | .help => .error .help
  | .flag =>
    if g.flags.contains spec.name then .error .usage
    else .ok { g with flags := g.flags ++ [spec.name] }
  | .valued .. => .error .usage

/-- Notes the value of an option, if it is acceptable and not given already. -/
def addValue (g : Given) (spec : OptionSpec) (value : Text) : Except Stop Given :=
  match spec.kind with
  | .valued accepts repeatable =>
    if !accepts value || (!repeatable && g.values.any (·.1 == spec.name)) then .error .usage
    else .ok { g with values := g.values ++ [(spec.name, value)] }
  | _ => .error .usage

/-- Takes in a positional argument. The tests are those of the positions in order. -/
def addPositional (tests : List (Text → Bool)) (g : Given) (value : Text) : Except Stop Given :=
  match tests[g.positionals.length]? with
  | some accepts =>
    if accepts value then .ok { g with positionals := g.positionals ++ [value] }
    else .error .usage
  | none => .error .usage

end Given

/-- Whether an option waits for the argument that follows it. -/
def OptionSpec.takesValue (spec : OptionSpec) : Bool :=
  match spec.kind with
  | .valued .. => true
  | _ => false

/-- Whether an argument begins like an option. -/
def looksLikeOption : Text → Bool
  | '-' :: _ :: _ => true
  | _ => false

/-- Reads the letters behind a single dash: the arguments so far, and the option that waits for the
next argument, if one does. -/
def readLetters (specs : List OptionSpec) :
    Given → Text → Except Stop (Given × Option OptionSpec)
  | g, [] => .ok (g, none)
  | g, c :: cs => do
    match specs.find? (·.short == some c) with
    | none => .error .usage
    | some spec =>
      if spec.takesValue then
        match cs with
        | [] => .ok (g, some spec)
        | '=' :: value => return (← g.addValue spec value, none)
        | value => return (← g.addValue spec value, none)
      else readLetters specs (← g.addFlag spec) cs

/-- Reads the name behind a double dash, likewise. -/
def readName (specs : List OptionSpec) (g : Given) (t : Text) :
    Except Stop (Given × Option OptionSpec) := do
  let name := t.takeWhile (· != '=')
  match specs.find? (·.name == name) with
  | none => .error .usage
  | some spec =>
    match t.dropWhile (· != '=') with
    | _ :: value => return (← g.addValue spec value, none)
    | [] =>
      if spec.takesValue then return (g, some spec)
      else return (← g.addFlag spec, none)

/-- Reads an argument that is an option: what was given so far, and the option that waits for the
next argument, if one does. -/
def readOption? (specs : List OptionSpec) (g : Given) (arg : Text) :
    Option (Except Stop (Given × Option OptionSpec)) :=
  match arg with
  | '-' :: '-' :: name => some (readName specs g name)
  | '-' :: c :: cs => some (readLetters specs g (c :: cs))
  | _ => none

/-- Reads arguments up to and including the first positional one: what was given, that argument,
and the arguments behind it. -/
def readUntilPositional (specs : List OptionSpec) :
    (waiting : Option OptionSpec) → Given → List Text → Except Stop (Given × Text × List Text)
  | _, _, [] => .error .usage
  | some spec, g, arg :: args => do
    if looksLikeOption arg then .error .usage
    else readUntilPositional specs none (← g.addValue spec arg) args
  | none, g, arg :: args => do
    if arg = "--".toList then .error .usage
    else
      match readOption? specs g arg with
      | none => .ok (g, arg, args)
      | some r => do
        let (g, waiting) ← r
        readUntilPositional specs waiting g args

/-- Reads all arguments of a command whose positional ones must pass the tests of their places. -/
def readAll (specs : List OptionSpec) (tests : List (Text → Bool)) :
    (waiting : Option OptionSpec) → Given → List Text → Except Stop Given
  | some _, _, [] => .error .usage
  | none, g, [] =>
    if g.positionals.length = tests.length then .ok g else .error .usage
  | some spec, g, arg :: args => do
    if looksLikeOption arg then .error .usage
    else readAll specs tests none (← g.addValue spec arg) args
  | none, g, arg :: args => do
    if arg = "--".toList then
      let g ← args.foldlM (Given.addPositional tests) g
      if g.positionals.length = tests.length then .ok g else .error .usage
    else
      match readOption? specs g arg with
      | none => readAll specs tests none (← g.addPositional tests arg) args
      | some r => do
        let (g, waiting) ← r
        readAll specs tests waiting g args

end InlineExpr.CommandLine
