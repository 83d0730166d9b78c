import InlineExpr.CommandLine.Command
import InlineExpr.Diagnostic
import InlineExpr.Engine
import InlineExpr.Report.Box
import InlineExpr.Report.Json

/-!
# Running commands

What a command writes and the status it ends with, given what reading its file came to.
-/

namespace InlineExpr.CommandLine

/-- What a command writes, and its exit status. -/
structure Result where
  exit : Nat
  stdout : Text
  stderr : Text
deriving DecidableEq, Repr

def exitOk : Nat := 0

def exitUsage : Nat := 2

def exitData : Nat := 65

/-- The status of a file that cannot be read or is refused. -/
def exitSoftware : Nat := 70

def line (t : Text) : Text :=
  t ++ ['\n']

/-- A text between the sequences that set a colour and take it back. -/
def colored (colour : String) (t : Text) : Text :=
  "\x1b[".toList ++ colour.toList ++ ['m'] ++ t ++ "\x1b[39m".toList

def colorIf (colour : Bool) (code : String) (t : Text) : Text :=
  if colour then colored code t else t

/-- What an evaluation came to: its text, or what its error says. -/
def settle : Outcome Text → Except Text Text
  | .value t _ => .ok t
  | .error e _ => .error e.message.toList
  | .outOfSteps => .error "evaluation does not end".toList

/-- Evaluates a text and tells its result or its error. -/
def runEval (table : Table) (t : Text) (maxDepth : Nat) (json : Bool) : Result :=
  let engine : Engine := { maxDepth }
  match settle (engine.eval t table) with
  | .ok text =>
    let out := if json then Report.renderRecord 0 [("result", .text text)] else text
    ⟨exitOk, line out, []⟩
  | .error message =>
    let out :=
      if json then Report.renderRecord 0 [("error", .text message)]
      else "Evaluation error: ".toList ++ message
    ⟨exitData, [], line out⟩

/-- The record of a token: its text and, for an operator, its kind and priority. -/
def tokenRecord (t : Text) : Report.Record :=
  ("token", .text t) ::
    match Operator.ofToken? t with
    | none => []
    | some op => [("kind", .text op.kind.word.toList), ("priority", .number op.priority)]

/-- The line of a token: its text and, for an operator, its priority. -/
def tokenLine (colour : Bool) (t : Text) : Text :=
  match Operator.ofToken? t with
  | none => line t
  | some op => line (colorIf colour "36" t ++ ['\t'] ++ Nat.toDigits 10 op.priority)

/-- Lists the tokens of an expression, which may be delimited as a span. -/
def runTokens (colour : Bool) (body : Text) (json : Bool) : Result :=
  let tokens := tokenize (Span.body body.trim)
  let out :=
    if json then line (Report.renderRecords (tokens.map tokenRecord))
    else tokens.flatMap (tokenLine colour)
  ⟨exitOk, out, []⟩

/-- What a definition resolves to on a copy of the file's table, so that no definition sees what
another one left in it. -/
def resolve (table : Table) (d : Definition) : Except Text Text :=
  let engine : Engine := {}
  settle (engine.eval (Reference.wrap d.name) table)

def definitionRecord (d : Definition) (r : Except Text Text) : Report.Record :=
  [("name", .text d.name), ("value", .text d.value), ("line", .number d.line),
    match r with
    | .ok t => ("resolved", .text t)
    | .error e => ("error", .text e)]

def definitionRow (d : Definition) (r : Except Text Text) : List Text :=
  [d.name, Nat.toDigits 10 d.line] ++
    match r with
    | .ok t => ["ok".toList, t]
    | .error e => ["error".toList, e]

/-- Resolves the definitions of a file and reports on each. -/
def runCheck (colour : Bool) (defs : List Definition) (json strict : Bool) : Result :=
  let table := DefinitionFile.tableOf defs
  let results := defs.map fun d => (d, resolve table d)
  let failed := (results.filter fun (_, r) => !r.isOk).length
  let out :=
    if json then line (Report.renderRecords (results.map fun (d, r) => definitionRecord d r))
    else
      let header := ["Constant".toList, "Line".toList, "Status".toList, "Resolved".toList]
      let summary := Nat.toDigits 10 defs.length ++ " constants, ".toList
        ++ Nat.toDigits 10 failed ++ " failed".toList
      line (Box.render header (results.map fun (d, r) => definitionRow d r))
        ++ line (colorIf colour (if failed = 0 then "32" else "31") summary)
  ⟨if strict && decide (0 < failed) then exitData else exitOk, out, []⟩

/-- What is told when no definitions could be read. -/
def runRefused (message : String) : Result :=
  ⟨exitSoftware, [], line ("Error: ".toList ++ message.toList)⟩

/-- The definitions of a file, or what is wrong with it. Reading it gives its text or says why there
is none. -/
def definitionsOf (path : Text) : Except String Text → Except String (List Definition)
  | .error reason =>
    .error ("Failed to read constants file " ++ String.ofList path ++ ": " ++ reason)
  | .ok source =>
    match DefinitionFile.read source with
    | .ok defs => .ok defs
    | .error e => .error (e.located (String.ofList path))

/-- Runs a command. `read` reads a file. -/
def Invocation.run (inv : Invocation) (terminal : Bool) (read : Text → Except String Text) :
    Result :=
  let colour := inv.color = .always || (inv.color = .auto && terminal)
  match inv.command with
  | .eval t none overrides maxDepth json => runEval (Table.ofList true overrides) t maxDepth json
  | .eval t (some path) overrides maxDepth json =>
    match definitionsOf path (read path) with
    | .error message => runRefused message
    | .ok defs =>
      let table := overrides.foldl (fun t c => t.insert c.1 c.2) (DefinitionFile.tableOf defs)
      runEval table t maxDepth json
  | .tokens body json => runTokens colour body json
  | .check path json strict =>
    match definitionsOf path (read path) with
    | .error message => runRefused message
    | .ok defs => runCheck colour defs json strict

def usageText : Text :=
  ("Usage: inlineexpr [--color auto|always|never] [-v] COMMAND\n" ++
    "Commands:\n" ++
    "  eval TEXT [--constants FILE] [-c NAME=VALUE]... [--max-depth N] [--json]\n" ++
    "  tokens BODY [--json]\n" ++
    "  check FILE [--json] [--strict]\n").toList

def Stop.result : Stop → Result
  | help => ⟨exitOk, usageText, []⟩
  | usage => ⟨exitUsage, [], usageText⟩

end InlineExpr.CommandLine
