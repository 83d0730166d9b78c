import InlineExpr.CommandLine.Arguments
import InlineExpr.Context

/-!
# Commands

The three commands of the program: evaluate a text, list the tokens of an expression, check a
definition file. Colour and verbosity may be set in front of the command's name or behind it.
-/

namespace InlineExpr.CommandLine

/-- When output is coloured. -/
inductive ColorMode where
  | auto
  | always
  | never
deriving DecidableEq, Repr

/-- A command with its arguments. -/
inductive Command where
  /-- Evaluates a text on the table of a file, with some constants set on top of it. -/
  | eval (text : Text) (file : Option Text) (overrides : List (Text × Text)) (maxDepth : Nat)
      (json : Bool)
  /-- Lists the tokens of an expression. -/
  | tokens (body : Text) (json : Bool)
  /-- Resolves every definition of a file. -/
  | check (file : Text) (json strict : Bool)
deriving DecidableEq, Repr

/-- A command and the settings it runs under. -/
structure Invocation where
  color : ColorMode
  verbose : Bool
  command : Command
deriving DecidableEq, Repr

def ColorMode.ofText? (t : Text) : Option ColorMode :=
  if t = "auto".toList then some .auto
  else if t = "always".toList then some .always
  else if t = "never".toList then some .never
  else none

/-- One more than the greatest depth that can be told. -/
def sizeCount : Nat := 18446744073709551616

/-- A size: digits, perhaps behind a plus sign, whose number fits into 64 bits. -/
def size? (t : Text) : Option Nat :=
  let ds := (t.after? ['+']).getD t
  if ds.isEmpty || !ds.all Char.isDigit then none
  else
    let n := Nat.ofDigitChars 10 ds 0
    if n < sizeCount then some n else none

/-- A constant to set, cut at the first equals sign. -/
def assignment? (t : Text) : Option (Text × Text) :=
  match t.dropWhile (· != '=') with
  | _ :: value => some (t.takeWhile (· != '='), value)
  | [] => none

def anyText (_ : Text) : Bool := true

def isPath (t : Text) : Bool := !t.isEmpty

/-- The options that may be given anywhere. -/
def globalOptions : List OptionSpec :=
  [⟨"color".toList, none, .valued (fun t => (ColorMode.ofText? t).isSome) false⟩,
    ⟨"verbose".toList, some 'v', .flag⟩,
    ⟨"help".toList, some 'h', .help⟩]

/-- The options in front of the command's name. -/
def mainOptions : List OptionSpec :=
  ⟨"version".toList, some 'V', .help⟩ :: globalOptions

def jsonOption : OptionSpec := ⟨"json".toList, none, .flag⟩

def evalOptions : List OptionSpec :=
  [⟨"constants".toList, none, .valued isPath false⟩,
    ⟨"constant".toList, some 'c', .valued (fun t => (assignment? t).isSome) true⟩,
    ⟨"max-depth".toList, none, .valued (fun t => (size? t).isSome) false⟩,
    jsonOption] ++ globalOptions

def tokensOptions : List OptionSpec :=
  jsonOption :: globalOptions

def checkOptions : List OptionSpec :=
  jsonOption :: ⟨"strict".toList, none, .flag⟩ :: globalOptions

/-- The color mode of some arguments; the later one counts. -/
def colorOf (outer inner : Given) : ColorMode :=
  let given := outer.valuesOf "color" ++ inner.valuesOf "color"
  ((given.getLast?).bind ColorMode.ofText?).getD .auto

/-- The command of a name, with its arguments. -/
def commandOf (name : Text) (args : List Text) : Except Stop (Given × Command) :=
  if name = "eval".toList then do
    let g ← readAll evalOptions [anyText] none .nothing args
    let overrides := (g.valuesOf "constant").filterMap assignment?
    let maxDepth := ((g.valuesOf "max-depth").head?.bind size?).getD Context.defaultMaxDepth
    return (g, .eval (g.positionals.headD []) (g.valuesOf "constants").head? overrides maxDepth
      (g.has "json"))
  else if name = "tokens".toList then do
    let g ← readAll tokensOptions [anyText] none .nothing args
    return (g, .tokens (g.positionals.headD []) (g.has "json"))
  else if name = "check".toList then do
    let g ← readAll checkOptions [isPath] none .nothing args
    return (g, .check (g.positionals.headD []) (g.has "json") (g.has "strict"))
  else if name = "help".toList then
    match args with
    | [] => .error .help
    | topic :: more =>
      let topics := ["eval".toList, "tokens".toList, "check".toList, "help".toList]
      if more.isEmpty && topics.contains topic then .error .help else .error .usage
  else .error .usage

/-- Reads the arguments of the program. -/
def Invocation.ofArguments (args : List Text) : Except Stop Invocation := do
  let (outer, name, rest) ← readUntilPositional mainOptions none .nothing args
  let (inner, command) ← commandOf name rest
  return ⟨colorOf outer inner, outer.has "verbose" || inner.has "verbose", command⟩

def Command.file? : Command → Option Text
  | eval _ file .. => file
  | tokens .. => none
  | check file .. => some file

end InlineExpr.CommandLine
