import SmallScheme.Session.CommandLine

/-!
# The program

The command line around the pure sessions: it reads files and the typed lines, and
writes what the sessions emit.
-/

namespace SmallScheme.Terminal

/-- Write emissions. -/
def writeEmissions (verbose : Bool) (es : List Emission) : IO Unit := do
  for e in es do
    (← IO.getStdout).putStr e.output
    (← IO.getStderr).putStr (e.errorOutput verbose)
  (← IO.getStdout).flush

/-- The text of a file, or why it cannot be read. -/
def readSource (path : String) : IO (Except String String) := do
  try
    return .ok (← IO.FS.readFile path)
  catch
    | .noFileOrDirectory .. => return .error "No such file or directory"
    | .inappropriateType .. => return .error "Is a directory"
    | .permissionDenied .. => return .error "Permission denied"
    | e => return .error (toString e)

/-- Take typed lines until the input ends. -/
partial def interact (verbose : Bool) (loop : ReadLoop) : IO UInt32 := do
  writeEmissions verbose [.prompt loop.prompt]
  let line ← (← IO.getStdin).getLine
  if line.isEmpty then
    writeEmissions verbose [.farewell]
    return 0
  let turn := loop.handle (String.ofList (Text.dropNewline line.toList))
  writeEmissions verbose turn.emissions
  match turn.escaped? with
  | some o =>
    IO.eprintln o.message
    return 1
  | none => interact verbose turn.loop

/-- The environment that settings are read from. -/
def readEnvironment : IO Environment := do
  let names := ["RSCHEME_RECURSION_LIMIT", "RSCHEME_LOG_LEVEL", "RSCHEME_PROMPT"]
  let values ← names.mapM fun name => (IO.getEnv name : IO (Option String))
  return fun name => ((names.zip values).lookup name).join

/-- Write what a run emitted and return its exit code. -/
def finish (result : CommandLine.Result) : IO UInt32 := do
  writeEmissions result.verbose result.emissions
  match result.outcome with
  | .ok code => return code.toUInt32
  | .error (.oversized o) =>
    IO.eprintln o.message
    return 1
  | .error (.limit _) =>
    IO.eprintln "recursion limit too large"
    return 1

/-- Run the command. Everything but typed lines goes through the pure command line. -/
def run (args : List String) : IO UInt32 := do
  let environment ← readEnvironment
  let settings := Settings.ofEnvironment environment
  match CommandLine.parse args, CommandLine.interpreter settings with
  | .start none debug, .ok interpreter =>
    let verbose := CommandLine.isVerbose settings debug
    writeEmissions verbose [.intro ReadLoop.greeting]
    interact verbose { interpreter, promptStart := settings.promptStart }
  | .start (some path) _, _ =>
    let content ← readSource path
    finish (CommandLine.run args { environment, openFile := fun _ => content, input := "" })
  | _, _ =>
    finish (CommandLine.run args { environment, openFile := .error, input := "" })

end SmallScheme.Terminal

/-- The program. -/
def main (args : List String) : IO UInt32 :=
  SmallScheme.Terminal.run args
