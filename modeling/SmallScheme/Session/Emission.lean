import SmallScheme.Interpreter

/-!
# What a session writes

A session answers each line with emissions. Prompts and values go to the output,
reports and the detailed log to the error output, so the two texts of a session
are read off its emissions.
-/

namespace SmallScheme

/-- Something that a session writes. -/
inductive Emission where
  | intro (text : String)
  | prompt (text : String)
  /-- A value, on a line of its own. -/
  | value (text : String)
  /-- The line end after the last prompt. -/
  | farewell
  | report (kind : ErrorKind) (message : String)
  /-- A line on the error output that is not about an error of the program. -/
  | notice (text : String)
  | event (e : Event)

/-- The text of an error report. -/
def ErrorKind.report (kind : ErrorKind) (message : String) : String :=
  "[" ++ kind.label ++ "]: " ++ message ++ "\n"

namespace Emission

/-- What an emission adds to the output. -/
def output : Emission → String
  | .intro text => text ++ "\n"
  | .prompt text => text
  | .value text => text ++ "\n"
  | .farewell => "\n"
  | .report .. | .notice _ | .event _ => ""

/-- What an emission adds to the error output. Events are written only in a verbose
session. -/
def errorOutput (verbose : Bool) : Emission → String
  | .report kind message => kind.report message
  | .notice text => text ++ "\n"
  | .event e => if verbose then e.line else ""
  | .intro _ | .prompt _ | .value _ | .farewell => ""

/-- The output of a session. -/
def outputText (es : List Emission) : String :=
  String.join (es.map output)

/-- The error output of a session. -/
def errorText (verbose : Bool) (es : List Emission) : String :=
  String.join (es.map (errorOutput verbose))

/-- Values to be written: the texts up to the first that cannot be written, and why
it cannot. `nil` is not written. -/
def valueTexts : List Datum → List String × Option Oversized
  | [] => ([], none)
  | v :: vs =>
    if v.isNil then valueTexts vs
    else match v.render with
      | .error o => ([], some o)
      | .ok text =>
        let (texts, o) := valueTexts vs
        (text :: texts, o)

end Emission

/-- What handling a line comes to. -/
structure Step where
  emissions : List Emission
  interpreter : Interpreter
  /-- The fault that the line ended in. An error has been reported. -/
  fault? : Option Fault

/-- Take a line: write the values that it completes, or report its error. -/
def Interpreter.step (i : Interpreter) (line : String) : Step :=
  let (outcome, i) := i.feed line
  let (events, interpreter) := i.takeTrace
  let log := events.map Emission.event
  match outcome with
  | .ok .incomplete => { emissions := log, interpreter, fault? := none }
  | .ok (.complete vs) =>
    let (texts, oversized?) := Emission.valueTexts vs
    { emissions := log ++ texts.map .value
      interpreter
      fault? := oversized?.map .oversized }
  | .error (.error e) =>
    { emissions := log ++ [.event (.failed e.kind e.message), .report e.kind e.message]
      interpreter
      fault? := some (.error e) }
  | .error (.oversized o) => { emissions := log, interpreter, fault? := some (.oversized o) }

end SmallScheme
