import InlineExpr.CommandLine.Run

/-!
# The program

Reads the arguments and the file they name, runs the command and writes what it has to say.
-/

namespace InlineExpr

def readSource (path : Text) : IO (Except String Text) := do
  try
    let bytes ← IO.FS.readBinFile (String.ofList path)
    match String.fromUTF8? bytes with
    | some s => return .ok s.toList
    | none => return .error "the file is not UTF-8 text"
  catch e => return .error (toString e)

/-- Runs a command on the terminal and files of the process. -/
def runProgram (args : List String) : IO CommandLine.Result := do
  match CommandLine.Invocation.ofArguments (args.map String.toList) with
  | .error stop => return stop.result
  | .ok inv =>
    let source ← match inv.command.file? with
      | some path => readSource path
      | none => pure (.error "no file")
    let terminal ← (← IO.getStdout).isTty
    return inv.run terminal fun _ => source

end InlineExpr

def main (args : List String) : IO UInt32 := do
  let result ← InlineExpr.runProgram args
  (← IO.getStdout).putStr (String.ofList result.stdout)
  (← IO.getStderr).putStr (String.ofList result.stderr)
  return result.exit.toUInt32
