import SmallScheme.Session.Emission
import SmallScheme.Text.Lines

/-!
# Running a file

The lines of a file are taken in order, and the first error ends the run. A file
that ends inside a list is an error as well, though what was read stays with the
interpreter.
-/

namespace SmallScheme

/-- What running a file came to. -/
structure ScriptRun where
  emissions : List Emission
  interpreter : Interpreter
  /-- The exit code, or what ended the run without one. -/
  outcome : Except Oversized Nat

namespace Script

/-- Take lines in order, up to the first that ends in a fault. -/
def runLines (i : Interpreter) : List String → Step
  | [] => { emissions := [], interpreter := i, fault? := none }
  | line :: lines =>
    let first := i.step line
    match first.fault? with
    | some _ => first
    | none =>
      let rest := runLines first.interpreter lines
      { rest with emissions := first.emissions ++ rest.emissions }

/-- The lines of a file, without their ends. Every style of line end counts. -/
def fileLines (content : String) : List String :=
  (Text.lines Text.isNewline (Text.unifyNewlines content.toList)).map fun line =>
    String.ofList (Text.dropNewline line)

/-- Run the text of a file. -/
def runText (i : Interpreter) (content : String) : ScriptRun :=
  let run := runLines i (fileLines content)
  match run.fault? with
  | some (.error _) =>
    { emissions := run.emissions, interpreter := run.interpreter, outcome := .ok 1 }
  | some (.oversized o) =>
    { emissions := run.emissions, interpreter := run.interpreter, outcome := .error o }
  | none =>
    let depth := run.interpreter.depth
    if depth > 0 then
      let message := "unexpected end of file, " ++ toString depth ++ " unclosed ("
      { emissions := run.emissions ++ [.report .parsing message]
        interpreter := run.interpreter
        outcome := .ok 1 }
    else { emissions := run.emissions, interpreter := run.interpreter, outcome := .ok 0 }

/-- Run a file whose text could be read, or say why it could not. -/
def runFile (i : Interpreter) (path : String) (content : Except String String) : ScriptRun :=
  match content with
  | .ok text => runText i text
  | .error reason =>
    { emissions := [.notice ("rscheme: cannot open " ++ path ++ ": " ++ reason)]
      interpreter := i
      outcome := .ok 1 }

end Script

end SmallScheme
